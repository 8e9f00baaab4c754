import Mathlib.Data.Fintype.Card
import ForeignCall.Proofs.Crossing

/-!
# ForeignCall.Proofs.View

The JSON view of what a handle stands for.

The view of a value is put together from those of its parts, and nothing bounds
how deep that goes.  `Arena.toJson?` looks one level deeper than there are
slots, and that is always enough (`toJson?_eq_some_iff`): where the view of a
value goes `n` levels deep, that of one of its parts goes `n - 1` levels deep,
and so on; values whose views go unequally deep are in different slots.  So a
value has no view only if looking for it has no end.

The view of a handle that stands for a tree is that of the tree.
-/

namespace ForeignCall

/-! ## Item by item -/

theorem mapM_eq_some {α β : Type} {f : α → Option β} {xs : List α} {ys : List β} :
    xs.mapM f = some ys ↔ List.Forall₂ (fun x y => f x = some y) xs ys := by
  refine eq_some_iff_forall₂ (List.mapM f) rfl fun x rest zs => ?_
  simp [Option.bind_eq_some_iff]

theorem isSome_mapM {α β : Type} {f : α → Option β} {xs : List α} :
    (xs.mapM f).isSome = true ↔ ∀ x ∈ xs, (f x).isSome = true := by
  induction xs with
  | nil => simp
  | cons x rest ih =>
    rw [List.mapM_cons, List.forall_mem_cons, ← ih]
    cases f x with
    | none => simp
    | some y => cases rest.mapM f <;> simp

theorem mapM_congr {α β : Type} {f g : α → Option β} {xs : List α} (h : ∀ x ∈ xs, f x = g x) :
    xs.mapM f = xs.mapM g := by
  induction xs with
  | nil => rfl
  | cons x rest ih =>
    obtain ⟨hfirst, hrest⟩ := List.forall_mem_cons.mp h
    rw [List.mapM_cons, List.mapM_cons, hfirst, ih hrest]

/-! ## Views of trees -/

/-- The JSON view of a value, given those of its parts. -/
def HostValue.json (v : HostValue) (parts : List Json) : Json :=
  match v with
  | .undefined => .null
  | .null => .null
  | .boolean b => .bool b
  | .number x => .ofBinary64 x
  | .bigint n => .ofInt64 n
  | .string s => .string s
  | .array _ => .array parts
  | .object properties => .object (Entries.ofList ((Entries.keys properties).zip parts))
  | .function name => .string ("<function " ++ name ++ ">")
  | .symbol => .string "<symbol>"

namespace HostTree

mutual

/-- The JSON view of a tree. -/
def json : HostTree → Json
  | .undefined => .null
  | .null => .null
  | .boolean b => .bool b
  | .number x => .ofBinary64 x
  | .bigint n => .ofInt64 n
  | .string s => .string s
  | .array items => .array (jsons items)
  | .object properties => .object (Entries.ofList (jsonFields properties))
  | .function name => .string ("<function " ++ name ++ ">")
  | .symbol => .string "<symbol>"

/-- The JSON views of the items of an array, in order. -/
def jsons : List HostTree → List Json
  | [] => []
  | tree :: rest => json tree :: jsons rest

/-- The JSON views of the properties of an object, in order, with their keys. -/
def jsonFields : List (String × HostTree) → List (String × Json)
  | [] => []
  | (key, tree) :: rest => (key, json tree) :: jsonFields rest

end

theorem jsonFields_zip (keys : List String) (trees : List HostTree) :
    jsonFields (keys.zip trees) = keys.zip (jsons trees) := by
  induction keys generalizing trees with
  | nil => rfl
  | cons key keys ih =>
    cases trees with
    | nil => rfl
    | cons tree trees => rw [List.zip_cons_cons, jsonFields, ih, jsons, List.zip_cons_cons]

end HostTree

theorem HostValue.json_leaf {v : HostValue} {tree : HostTree} (h : v.leaf? = some tree) :
    v.parts = [] ∧ v.json [] = tree.json := by
  cases v <;> cases h <;> exact ⟨rfl, rfl⟩

namespace Arena

variable {a : Arena} {h : Handle} {json : Json} {levels : Nat}

/-! ## One level -/

theorem toJsonWithin_missing (hv : a.slots[h.slot.toNat]? = none) :
    a.toJsonWithin (levels + 1) h = some .null := by
  rw [toJsonWithin, hv]

/-- The properties of an object are viewed like the items of an array. -/
theorem mapM_properties (view : Handle → Option Json) (properties : List (String × Handle)) :
    (properties.mapM fun p => (view p.2).map fun json => (p.1, json)) =
      ((properties.map Prod.snd).mapM view).map (Entries.keys properties).zip := by
  induction properties with
  | nil => rfl
  | cons p rest ih =>
    rw [List.mapM_cons, List.map_cons, List.mapM_cons, ih]
    cases view p.2 with
    | none => rfl
    | some json => cases (rest.map Prod.snd).mapM view <;> rfl

theorem toJsonWithin_slot {v : HostValue} (hv : a.slots[h.slot.toNat]? = some v) :
    a.toJsonWithin (levels + 1) h = (v.parts.mapM (a.toJsonWithin levels)).map v.json := by
  rw [toJsonWithin, hv]
  cases v with
  | array items => rfl
  | object properties =>
    dsimp only
    rw [mapM_properties, Option.map_map]
    rfl
  | _ => rfl

/-! ## As deep as it goes -/

/-- What is seen within some levels is seen within more. -/
theorem toJsonWithin_mono {more : Nat} (hle : levels ≤ more)
    (hview : a.toJsonWithin levels h = some json) : a.toJsonWithin more h = some json := by
  induction levels generalizing more h json with
  | zero => cases hview
  | succ levels ih =>
    obtain ⟨more, rfl⟩ : ∃ n, more = n + 1 := Nat.exists_eq_add_one.mpr (by omega)
    cases hv : a.slots[h.slot.toNat]? with
    | none =>
      rw [toJsonWithin_missing hv] at hview ⊢
      exact hview
    | some v =>
      rw [toJsonWithin_slot hv, Option.map_eq_some_iff] at hview
      obtain ⟨parts, hparts, rfl⟩ := hview
      have hmore : v.parts.mapM (a.toJsonWithin more) = some parts :=
        mapM_eq_some.mpr ((mapM_eq_some.mp hparts).imp fun _ _ hpart =>
          ih (Nat.le_of_succ_le_succ hle) hpart)
      rw [toJsonWithin_slot hv, hmore, Option.map_some]

/-- The view of a handle goes just so many levels below it. -/
def Deep (a : Arena) (h : Handle) (n : Nat) : Prop :=
  a.toJsonWithin n h = none ∧ (a.toJsonWithin (n + 1) h).isSome = true

theorem Deep.le {m n : Nat} (hm : a.Deep h m) (hn : a.Deep h n) : m ≤ n := by
  by_contra hlt
  obtain ⟨json, hjson⟩ := Option.isSome_iff_exists.mp hn.2
  have hsome := toJsonWithin_mono (by omega : n + 1 ≤ m) hjson
  cases hm.1.symm.trans hsome

/-- What is seen at all is seen within just so many levels. -/
theorem exists_deep (hview : (a.toJsonWithin levels h).isSome = true) :
    ∃ n < levels, a.Deep h n := by
  induction levels with
  | zero => cases hview
  | succ levels ih =>
    cases hless : a.toJsonWithin levels h with
    | none => exact ⟨levels, Nat.lt_succ_self _, hless, hview⟩
    | some json =>
      obtain ⟨n, hn, hdeep⟩ := ih (by rw [hless]; rfl)
      exact ⟨n, Nat.lt_succ_of_lt hn, hdeep⟩

/-- A part goes one level less deep. -/
theorem Deep.below {n : Nat} (hdeep : a.Deep h (n + 1)) :
    h.slot.toNat < a.slots.size ∧ ∃ part, a.Deep part n := by
  cases hv : a.slots[h.slot.toNat]? with
  | none => cases hdeep.1.symm.trans (toJsonWithin_missing hv)
  | some v =>
    obtain ⟨hnone, hsome⟩ := hdeep
    rw [toJsonWithin_slot hv, Option.map_eq_none_iff] at hnone
    rw [toJsonWithin_slot hv, Option.isSome_map, isSome_mapM] at hsome
    have hpart : ¬ ∀ part ∈ v.parts, (a.toJsonWithin n part).isSome = true := by
      rw [← isSome_mapM, hnone]
      exact Bool.false_ne_true
    push Not at hpart
    obtain ⟨part, hmem, hmissing⟩ := hpart
    refine ⟨(Array.getElem?_eq_some_iff.mp hv).choose, part, ?_, hsome part hmem⟩
    exact Option.not_isSome_iff_eq_none.mp hmissing

theorem Deep.upTo {m n : Nat} (hdeep : a.Deep h n) (hm : m < n) :
    ∃ part, part.slot.toNat < a.slots.size ∧ a.Deep part (m + 1) := by
  induction n generalizing h with
  | zero => exact absurd hm (Nat.not_lt_zero m)
  | succ n ih =>
    obtain ⟨hslot, part, hpart⟩ := hdeep.below
    rcases Nat.lt_succ_iff_lt_or_eq.mp hm with hlt | rfl
    · exact ih hpart hlt
    · exact ⟨h, hslot, hdeep⟩

/-- No view goes deeper than there are slots. -/
theorem Deep.le_size {n : Nat} (hdeep : a.Deep h n) : n ≤ a.slots.size := by
  choose part hslot hpart using fun i : Fin n => hdeep.upTo i.isLt
  have hinj : Function.Injective fun i : Fin n =>
      (⟨(part i).slot.toNat, hslot i⟩ : Fin a.slots.size) := by
    intro i j hij
    have hword : (part i).slot = (part j).slot := UInt32.toNat_inj.mp (Fin.mk.inj hij)
    have hsame : part i = part j := congrArg Handle.mk hword
    have hi := hpart i
    rw [hsame] at hi
    exact Fin.ext (Nat.succ.inj (Nat.le_antisymm (hi.le (hpart j)) ((hpart j).le hi)))
  simpa using Fintype.card_le_of_injective _ hinj

/-- **The view has no other bound**: what is seen within any number of levels is the view. -/
theorem toJson?_eq_some_iff :
    a.toJson? h = some json ↔ ∃ levels, a.toJsonWithin levels h = some json := by
  refine ⟨fun hview => ⟨_, hview⟩, fun ⟨levels, hview⟩ => ?_⟩
  obtain ⟨n, hn, hdeep⟩ := exists_deep (by rw [hview]; rfl)
  obtain ⟨json', hjson'⟩ := Option.isSome_iff_exists.mp hdeep.2
  have hsame := toJsonWithin_mono hn hjson'
  rw [hview] at hsame
  rw [hsame]
  exact toJsonWithin_mono (Nat.succ_le_succ hdeep.le_size) hjson'

/-- An array that contains itself has no view. -/
example : Arena.toJson? { slots := #[.array [⟨0⟩]] } ⟨0⟩ = none := rfl

/-! ## Views of what handles stand for -/

mutual

theorem Unfolds.view {a : Arena} {h : Handle} {tree : HostTree} :
    a.Unfolds h tree → a.toJson? h = some tree.json
  | .leaf hget hleaf => by
    obtain ⟨hparts, hjson⟩ := HostValue.json_leaf hleaf
    refine toJson?_eq_some_iff.mpr ⟨1, ?_⟩
    rw [toJsonWithin_slot (get_eq_ok.mp hget), hparts, ← hjson]
    rfl
  | .array hget hall => by
    refine toJson?_eq_some_iff.mpr ⟨a.slots.size + 2, ?_⟩
    rw [toJsonWithin_slot (get_eq_ok.mp hget)]
    exact congrArg _ hall.views
  | .object hget hall => by
    refine toJson?_eq_some_iff.mpr ⟨a.slots.size + 2, ?_⟩
    rw [toJsonWithin_slot (get_eq_ok.mp hget), HostTree.json, HostTree.jsonFields_zip]
    exact congrArg _ hall.views

theorem UnfoldsAll.views {a : Arena} {handles : List Handle} {trees : List HostTree} :
    a.UnfoldsAll handles trees → handles.mapM a.toJson? = some (HostTree.jsons trees)
  | .nil => rfl
  | .cons hfirst hrest => by
    have hjson := hfirst.view
    have hjsons := hrest.views
    rw [List.mapM_cons, hjson, hjsons]
    rfl

end

end Arena

end ForeignCall
