import ForeignCall.Proofs.Survey
import ForeignCall.Value

/-!
# ForeignCall.Proofs.Nodes

The nodes of a value, written out.

A value is a finite tree, so all its nodes in pre-order are a list, and the
walk over them (`Survey.visited`) comes to its end.
-/

namespace ForeignCall

namespace Value

open Survey

/-- The values a value consists of. -/
def parts : Value → List Value
  | .array items => items
  | .map entries => entries.map Prod.snd
  | _ => []

/-- What is wrong with a value by itself: it is a pointer. -/
def fault? : Value → Option ConversionError
  | .ptr _ => some (.unsupportedValueKind .ptr)
  | _ => none

mutual

/-- The nodes of a value at a depth, in pre-order, each with its depth. -/
def nodesFrom (depth : Nat) : Value → List (Nat × Value)
  | .array items => (depth, .array items) :: nodesOfItems (depth + 1) items
  | .map entries => (depth, .map entries) :: nodesOfEntries (depth + 1) entries
  | v => [(depth, v)]

/-- The nodes of the items of an array, in order. -/
def nodesOfItems (depth : Nat) : List Value → List (Nat × Value)
  | [] => []
  | v :: rest => nodesFrom depth v ++ nodesOfItems depth rest

/-- The nodes of the entries of a map, in order. -/
def nodesOfEntries (depth : Nat) : List (String × Value) → List (Nat × Value)
  | [] => []
  | (_, v) :: rest => nodesFrom depth v ++ nodesOfEntries depth rest

end

/-- The nodes of a value, in pre-order, each with its depth. -/
def nodes (v : Value) : List (Nat × Value) :=
  nodesFrom 0 v

theorem nodesOfItems_eq (depth : Nat) (items : List Value) :
    nodesOfItems depth items = items.flatMap (nodesFrom depth) := by
  induction items with
  | nil => rfl
  | cons v rest ih => rw [nodesOfItems, ih, List.flatMap_cons]

theorem nodesOfEntries_eq (depth : Nat) (entries : List (String × Value)) :
    nodesOfEntries depth entries = (entries.map Prod.snd).flatMap (nodesFrom depth) := by
  induction entries with
  | nil => rfl
  | cons entry rest ih => rw [nodesOfEntries, ih, List.map_cons, List.flatMap_cons]

/-- A node is followed by the nodes of its parts. -/
theorem nodesFrom_eq (depth : Nat) (v : Value) :
    nodesFrom depth v = (depth, v) :: v.parts.flatMap (nodesFrom (depth + 1)) := by
  cases v with
  | array items => rw [nodesFrom, nodesOfItems_eq, parts]
  | map entries => rw [nodesFrom, nodesOfEntries_eq, parts]
  | _ => rfl

/-- Whatever is still to be visited, the walk comes to its nodes one after the other. -/
theorem iterate_advance (n : Nat) (pending : List (Nat × Value)) :
    ((advance parts)^[n] pending).head? = (pending.flatMap fun p => nodesFrom p.1 p.2)[n]? := by
  induction n generalizing pending with
  | zero =>
    cases pending with
    | nil => rfl
    | cons node rest =>
      rw [List.flatMap_cons, nodesFrom_eq]
      rfl
  | succ n ih =>
    rw [Function.iterate_succ_apply, ih]
    cases pending with
    | nil => rfl
    | cons node rest =>
      obtain ⟨depth, v⟩ := node
      simp [advance, nodesFrom_eq depth v, List.flatMap_map]

/-- The nodes that are visited are the nodes there are. -/
theorem visited_eq (v : Value) (n : Nat) : visited parts v n = v.nodes[n]? := by
  rw [visited, iterate_advance, nodes]
  simp

end Value

end ForeignCall
