import ForeignCall.Proofs.Exactness
import ForeignCall.Proofs.KeyOrder
import ForeignCall.Proofs.Nodes
import ForeignCall.Proofs.Unfolding

/-!
# ForeignCall.Proofs.Crossing

Values that become trees and trees that become values, and back.

Neither comes back quite as it was.  A value has its narrow numbers widened,
each to the same number (`Value.Widens`); a tree has undefined as null, and of
each object the last property of every key, in key order (`HostTree.tidy`).
Everything else is what it was:

* `Value.widens_of_tree?` — the tree of a value means that value, widened;
* `HostTree.ordered_of_value?` — the value of a tree has its maps in key order;
* `HostTree.tree?_of_value?` — the value of a tree means that tree, tidied;
* `HostTree.value?_tidy` — a tidied tree means the same value.
-/

namespace ForeignCall

/-- What is put together item by item relates item by item. -/
theorem eq_some_iff_forall₂ {α β : Type} {R : α → β → Prop} (step : List α → Option (List β))
    (hnil : step [] = some [])
    (hcons : ∀ x xs zs, step (x :: xs) = some zs ↔
      ∃ y, R x y ∧ ∃ ys, step xs = some ys ∧ y :: ys = zs)
    {xs : List α} {ys : List β} : step xs = some ys ↔ List.Forall₂ R xs ys := by
  induction xs generalizing ys with
  | nil => rw [hnil, List.forall₂_nil_left_iff, Option.some.injEq, eq_comm]
  | cons x xs ih =>
    rw [hcons, List.forall₂_cons_left_iff]
    constructor
    · rintro ⟨y, hy, others, hothers, rfl⟩
      exact ⟨y, others, hy, ih.mp hothers, rfl⟩
    · rintro ⟨y, others, hy, hothers, rfl⟩
      exact ⟨y, hy, others, ih.mpr hothers, rfl⟩

/-! ## Values there and back -/

namespace Value

/-- The number of a value of a kind that a host does not have. -/
def narrow? : Value → Option Datum
  | .s8 n => some (.ofInt n.toInt)
  | .s16 n => some (.ofInt n.toInt)
  | .s32 n => some (.ofInt n.toInt)
  | .f32 x => some x.datum
  | _ => none

mutual

/-- The second value is the first with each narrow number replaced by a double that is the same
number. -/
inductive Widens : Value → Value → Prop where
  | number {v : Value} {d : Datum} {x : Binary64} :
      v.narrow? = some d → x.datum.Same d → Widens v (.f64 x)
  | leaf {v : Value} : v.narrow? = none → v.parts = [] → Widens v v
  | array {items items' : List Value} : WidensAll items items' →
      Widens (.array items) (.array items')
  | map {entries : List (String × Value)} {values : List Value} :
      WidensAll (entries.map Prod.snd) values →
      Widens (.map entries) (.map ((Entries.keys entries).zip values))

/-- Values are widened, one for one. -/
inductive WidensAll : List Value → List Value → Prop where
  | nil : WidensAll [] []
  | cons {v w : Value} {vs ws : List Value} :
      Widens v w → WidensAll vs ws → WidensAll (v :: vs) (w :: ws)

end

theorem WidensAll.length_eq {vs ws : List Value} : WidensAll vs ws → vs.length = ws.length
  | .nil => rfl
  | .cons _ hrest => congrArg (· + 1) hrest.length_eq

theorem trees?_eq_some {vs : List Value} {trees : List HostTree} :
    trees? vs = some trees ↔ List.Forall₂ (fun v tree => tree? v = some tree) vs trees := by
  refine eq_some_iff_forall₂ trees? rfl fun v rest ys => ?_
  simp [trees?, Option.bind_eq_some_iff]

theorem properties?_eq_some {entries : List (String × Value)}
    {properties : List (String × HostTree)} :
    properties? entries = some properties ↔
      Entries.Alike (fun v tree => tree? v = some tree) entries properties := by
  refine eq_some_iff_forall₂ properties? rfl fun entry rest ys => ?_
  obtain ⟨key, v⟩ := entry
  simp [properties?, Option.bind_eq_some_iff]

end Value

namespace HostTree

theorem values?_eq_some {trees : List HostTree} {values : List Value} :
    values? trees = some values ↔
      List.Forall₂ (fun tree v => value? tree = some v) trees values := by
  refine eq_some_iff_forall₂ values? rfl fun tree rest vs => ?_
  simp [values?, Option.bind_eq_some_iff]

theorem entries?_eq_some {properties : List (String × HostTree)}
    {entries : List (String × Value)} :
    entries? properties = some entries ↔
      Entries.Alike (fun tree v => value? tree = some v) properties entries := by
  refine eq_some_iff_forall₂ entries? rfl fun property rest vs => ?_
  obtain ⟨key, tree⟩ := property
  simp [entries?, Option.bind_eq_some_iff]

end HostTree

namespace Value

/-- An integer of at most 32 bits is kept by a double. -/
theorem widens_int {v : Value} {i : Int} (hv : v.narrow? = some (.ofInt i))
    (hi : i.natAbs < 2 ^ 53) : v.Widens (.f64 (.ofInt i)) :=
  .number hv (Binary64.ofInt_same hi)

mutual

/-- The tree of a value means that value, widened. -/
theorem widens_of_tree? : ∀ {v : Value} {tree : HostTree}, v.Ordered → v.tree? = some tree →
    ∃ w, tree.value? = some w ∧ v.Widens w
  | .null, _, _, rfl => ⟨_, rfl, .leaf rfl rfl⟩
  | .bool _, _, _, rfl => ⟨_, rfl, .leaf rfl rfl⟩
  | .s8 n, _, _, rfl => ⟨_, rfl, widens_int rfl (by have := n.toInt_lt; have := n.le_toInt; omega)⟩
  | .s16 n, _, _, rfl => ⟨_, rfl, widens_int rfl (by have := n.toInt_lt; have := n.le_toInt; omega)⟩
  | .s32 n, _, _, rfl => ⟨_, rfl, widens_int rfl (by have := n.toInt_lt; have := n.le_toInt; omega)⟩
  | .s64 _, _, _, rfl => ⟨_, rfl, .leaf rfl rfl⟩
  | .f32 x, _, _, rfl => ⟨_, rfl, .number rfl x.toBinary64_same⟩
  | .f64 _, _, _, rfl => ⟨_, rfl, .leaf rfl rfl⟩
  | .string _, _, _, rfl => ⟨_, rfl, .leaf rfl rfl⟩
  | .array items, tree, hordered, htree => by
    rw [tree?, Option.map_eq_some_iff] at htree
    obtain ⟨trees, htrees, rfl⟩ := htree
    obtain ⟨values, hvalues, hwidens⟩ := widensAll_of_trees? hordered htrees
    exact ⟨.array values, by rw [HostTree.value?, hvalues, Option.map_some], .array hwidens⟩
  | .map entries, tree, hordered, htree => by
    obtain ⟨hsorted, hordered⟩ := hordered
    rw [tree?, Option.map_eq_some_iff] at htree
    obtain ⟨properties, hproperties, rfl⟩ := htree
    obtain ⟨values, hvalues, hwidens⟩ := widensAll_of_properties? hordered hproperties
    -- the keys have not changed, so they are still in order
    have hkept : Entries.ofList ((Entries.keys entries).zip values) =
        (Entries.keys entries).zip values :=
      Entries.ofList_zip hsorted (by rw [← hwidens.length_eq, List.length_map])
    exact ⟨_, by rw [HostTree.value?, hvalues, Option.map_some, hkept], .map hwidens⟩
  | .function _, _, _, rfl => ⟨_, rfl, .leaf rfl rfl⟩

theorem widensAll_of_trees? : ∀ {vs : List Value} {trees : List HostTree}, OrderedItems vs →
    trees? vs = some trees → ∃ ws, HostTree.values? trees = some ws ∧ WidensAll vs ws
  | [], _, _, rfl => ⟨[], rfl, .nil⟩
  | v :: rest, trees, hordered, htrees => by
    simp only [trees?, Option.bind_eq_bind, Option.bind_eq_some_iff, Option.pure_def] at htrees
    obtain ⟨tree, htree, others, hothers, heq⟩ := htrees
    cases heq
    obtain ⟨w, hw, hwidens⟩ := widens_of_tree? hordered.1 htree
    obtain ⟨ws, hws, hall⟩ := widensAll_of_trees? hordered.2 hothers
    exact ⟨w :: ws, by simp [HostTree.values?, hw, hws], .cons hwidens hall⟩

theorem widensAll_of_properties? : ∀ {entries : List (String × Value)}
    {properties : List (String × HostTree)}, OrderedEntries entries →
    properties? entries = some properties → ∃ ws,
      HostTree.entries? properties = some ((Entries.keys entries).zip ws) ∧
      WidensAll (entries.map Prod.snd) ws
  | [], _, _, rfl => ⟨[], rfl, .nil⟩
  | (key, v) :: rest, properties, hordered, hproperties => by
    simp only [properties?, Option.bind_eq_bind, Option.bind_eq_some_iff,
      Option.pure_def] at hproperties
    obtain ⟨tree, htree, others, hothers, heq⟩ := hproperties
    cases heq
    obtain ⟨w, hw, hwidens⟩ := widens_of_tree? hordered.1 htree
    obtain ⟨ws, hws, hall⟩ := widensAll_of_properties? hordered.2 hothers
    exact ⟨w :: ws, by simp [HostTree.entries?, hw, hws, Entries.keys], .cons hwidens hall⟩

end

end Value

/-! ## Trees there and back -/

namespace HostTree

mutual

/-- A tree with undefined as null, and of each object the last property of every key, in the order
of the keys' octets. -/
def tidy : HostTree → HostTree
  | .undefined => .null
  | .array items => .array (tidyAll items)
  | .object properties => .object (Entries.reduce (tidyProperties properties))
  | tree => tree

/-- The items of an array, tidied. -/
def tidyAll : List HostTree → List HostTree
  | [] => []
  | tree :: rest => tidy tree :: tidyAll rest

/-- The properties of an object, all of them, each tidied. -/
def tidyProperties : List (String × HostTree) → List (String × HostTree)
  | [] => []
  | (key, tree) :: rest => (key, tidy tree) :: tidyProperties rest

end

mutual

/-- The value of a tree means that tree, tidied. -/
theorem tree?_of_value? : ∀ {tree : HostTree} {v : Value}, tree.value? = some v →
    v.tree? = some tree.tidy
  | .undefined, _, rfl => rfl
  | .null, _, rfl => rfl
  | .boolean _, _, rfl => rfl
  | .number _, _, rfl => rfl
  | .bigint _, _, rfl => rfl
  | .string _, _, rfl => rfl
  | .array items, v, h => by
    rw [value?, Option.map_eq_some_iff] at h
    obtain ⟨values, hvalues, rfl⟩ := h
    rw [Value.tree?, trees?_of_values? hvalues, Option.map_some, tidy]
  | .object properties, v, h => by
    rw [value?, Option.map_eq_some_iff] at h
    obtain ⟨entries, hentries, rfl⟩ := h
    have hall : Value.properties? entries = some (tidyProperties properties) :=
      properties?_of_entries? hentries
    have hlast : Value.properties? (Entries.ofList entries) =
        some (Entries.ofList (tidyProperties properties)) :=
      Value.properties?_eq_some.mpr (Value.properties?_eq_some.mp hall).ofList
    rw [Value.tree?, hlast, Option.map_some, tidy, Entries.ofList_eq_reduce]
  | .function _, _, rfl => rfl

theorem trees?_of_values? : ∀ {trees : List HostTree} {values : List Value},
    values? trees = some values → Value.trees? values = some (tidyAll trees)
  | [], _, rfl => rfl
  | tree :: rest, values, h => by
    simp only [values?, Option.bind_eq_bind, Option.bind_eq_some_iff, Option.pure_def] at h
    obtain ⟨v, hv, others, hothers, heq⟩ := h
    cases heq
    simp [Value.trees?, tidyAll, tree?_of_value? hv, trees?_of_values? hothers]

theorem properties?_of_entries? : ∀ {properties : List (String × HostTree)}
    {entries : List (String × Value)}, entries? properties = some entries →
    Value.properties? entries = some (tidyProperties properties)
  | [], _, rfl => rfl
  | (key, tree) :: rest, entries, h => by
    simp only [entries?, Option.bind_eq_bind, Option.bind_eq_some_iff, Option.pure_def] at h
    obtain ⟨v, hv, others, hothers, heq⟩ := h
    cases heq
    simp [Value.properties?, tidyProperties, tree?_of_value? hv, properties?_of_entries? hothers]

end

mutual

/-- Whatever a tree means is in key order. -/
theorem ordered_of_value? : ∀ {tree : HostTree} {v : Value}, tree.value? = some v → v.Ordered
  | .undefined, _, rfl => trivial
  | .null, _, rfl => trivial
  | .boolean _, _, rfl => trivial
  | .number _, _, rfl => trivial
  | .bigint _, _, rfl => trivial
  | .string _, _, rfl => trivial
  | .array items, v, h => by
    rw [value?, Option.map_eq_some_iff] at h
    obtain ⟨values, hvalues, rfl⟩ := h
    exact orderedItems_of_values? hvalues
  | .object properties, v, h => by
    rw [value?, Option.map_eq_some_iff] at h
    obtain ⟨entries, hentries, rfl⟩ := h
    exact Value.ordered_ofList (orderedEntries_of_entries? hentries)
  | .function _, _, rfl => trivial

theorem orderedItems_of_values? : ∀ {trees : List HostTree} {values : List Value},
    values? trees = some values → Value.OrderedItems values
  | [], _, rfl => trivial
  | tree :: rest, values, h => by
    simp only [values?, Option.bind_eq_bind, Option.bind_eq_some_iff, Option.pure_def] at h
    obtain ⟨v, hv, others, hothers, heq⟩ := h
    cases heq
    exact ⟨ordered_of_value? hv, orderedItems_of_values? hothers⟩

theorem orderedEntries_of_entries? : ∀ {properties : List (String × HostTree)}
    {entries : List (String × Value)}, entries? properties = some entries →
    Value.OrderedEntries entries
  | [], _, rfl => trivial
  | (key, tree) :: rest, entries, h => by
    simp only [entries?, Option.bind_eq_bind, Option.bind_eq_some_iff, Option.pure_def] at h
    obtain ⟨v, hv, others, hothers, heq⟩ := h
    cases heq
    exact ⟨ordered_of_value? hv, orderedEntries_of_entries? hothers⟩

end

mutual

/-- A tidied tree means the same value. -/
theorem value?_tidy : ∀ {tree : HostTree} {v : Value}, tree.value? = some v →
    tree.tidy.value? = some v
  | .undefined, _, rfl => rfl
  | .null, _, rfl => rfl
  | .boolean _, _, rfl => rfl
  | .number _, _, rfl => rfl
  | .bigint _, _, rfl => rfl
  | .string _, _, rfl => rfl
  | .array items, v, h => by
    rw [value?, Option.map_eq_some_iff] at h
    obtain ⟨values, hvalues, rfl⟩ := h
    rw [tidy, value?, values?_tidy hvalues, Option.map_some]
  | .object properties, v, h => by
    rw [value?, Option.map_eq_some_iff] at h
    obtain ⟨entries, hentries, rfl⟩ := h
    have hall : entries? (tidyProperties properties) = some entries := entries?_tidy hentries
    have hlast : entries? (Entries.ofList (tidyProperties properties)) =
        some (Entries.ofList entries) :=
      entries?_eq_some.mpr (entries?_eq_some.mp hall).ofList
    rw [tidy, ← Entries.ofList_eq_reduce, value?, hlast, Option.map_some,
      Entries.ofList_of_sorted (Entries.sorted_ofList entries)]
  | .function _, _, rfl => rfl

theorem values?_tidy : ∀ {trees : List HostTree} {values : List Value},
    values? trees = some values → values? (tidyAll trees) = some values
  | [], _, rfl => rfl
  | tree :: rest, values, h => by
    simp only [values?, Option.bind_eq_bind, Option.bind_eq_some_iff, Option.pure_def] at h
    obtain ⟨v, hv, others, hothers, heq⟩ := h
    cases heq
    simp [values?, tidyAll, value?_tidy hv, values?_tidy hothers]

theorem entries?_tidy : ∀ {properties : List (String × HostTree)}
    {entries : List (String × Value)}, entries? properties = some entries →
    entries? (tidyProperties properties) = some entries
  | [], _, rfl => rfl
  | (key, tree) :: rest, entries, h => by
    simp only [entries?, Option.bind_eq_bind, Option.bind_eq_some_iff, Option.pure_def] at h
    obtain ⟨v, hv, others, hothers, heq⟩ := h
    cases heq
    simp [entries?, tidyProperties, value?_tidy hv, entries?_tidy hothers]

end

end HostTree

end ForeignCall
