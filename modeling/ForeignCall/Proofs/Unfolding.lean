import ForeignCall.Host.Arena
import ForeignCall.Value

/-!
# ForeignCall.Proofs.Unfolding

What a handle stands for: the tree that comes of following every reference.

Shared parts are repeated in the tree.  A handle from which a cycle or a
missing value can be reached has no tree, and no handle has two.  An arena to
which values were added unfolds its old handles as before.
-/

namespace ForeignCall

/-- A host value with all that is below it. -/
inductive HostTree where
  | undefined
  | null
  | boolean (b : Bool)
  | number (x : Binary64)
  | bigint (n : Int64)
  | string (s : String)
  | array (items : List HostTree)
  | object (properties : List (String × HostTree))
  | function (name : String)
  | symbol

/-- The tree of a value that has no parts. -/
def HostValue.leaf? : HostValue → Option HostTree
  | .undefined => some .undefined
  | .null => some .null
  | .boolean b => some (.boolean b)
  | .number x => some (.number x)
  | .bigint n => some (.bigint n)
  | .string s => some (.string s)
  | .array _ => none
  | .object _ => none
  | .function name => some (.function name)
  | .symbol => some .symbol

/-! ## Trees as values -/

namespace HostTree

mutual

/-- The value that a tree means to an engine.  Undefined is null, and of several properties with
one key the last counts.  A tree with a symbol in it means nothing. -/
def value? : HostTree → Option Value
  | .undefined => some .null
  | .null => some .null
  | .boolean b => some (.bool b)
  | .number x => some (.f64 x)
  | .bigint n => some (.s64 n)
  | .string s => some (.string s)
  | .array items => (values? items).map .array
  | .object properties => (entries? properties).map fun entries => .map (Entries.ofList entries)
  | .function name => some (.function name)
  | .symbol => none

/-- The values of the items of an array, in order. -/
def values? : List HostTree → Option (List Value)
  | [] => some []
  | tree :: rest => do
    let v ← value? tree
    let others ← values? rest
    return v :: others

/-- The values of the properties of an object, in order, with their keys. -/
def entries? : List (String × HostTree) → Option (List (String × Value))
  | [] => some []
  | (key, tree) :: rest => do
    let v ← value? tree
    let others ← entries? rest
    return (key, v) :: others

end

/-- Properties have the values that they have without their keys. -/
theorem entries?_zip (keys : List String) (trees : List HostTree) (values : List Value)
    (h : values? trees = some values) : entries? (keys.zip trees) = some (keys.zip values) := by
  induction keys generalizing trees values with
  | nil => rfl
  | cons key keys ih =>
    cases trees with
    | nil => cases h; rfl
    | cons tree trees =>
      simp only [values?, Option.bind_eq_bind, Option.bind_eq_some_iff, Option.pure_def] at h
      obtain ⟨v, hv, others, hothers, heq⟩ := h
      cases heq
      simp only [List.zip_cons_cons, entries?, hv, ih trees others hothers, Option.bind_eq_bind,
        Option.bind_some, Option.pure_def]

end HostTree

/-! ## Values as trees -/

namespace Value

mutual

/-- The tree that a value means to a host.  Numbers are doubles but for those of 64 bits, and a map
has its entries in their order, which is key order.  A value with a pointer in it means nothing. -/
def tree? : Value → Option HostTree
  | .null => some .null
  | .bool b => some (.boolean b)
  | .s8 n => some (.number (.ofInt n.toInt))
  | .s16 n => some (.number (.ofInt n.toInt))
  | .s32 n => some (.number (.ofInt n.toInt))
  | .s64 n => some (.bigint n)
  | .f32 x => some (.number x.toBinary64)
  | .f64 x => some (.number x)
  | .string s => some (.string s)
  | .array items => (trees? items).map .array
  | .map entries => (properties? entries).map .object
  | .function name => some (.function name)
  | .ptr _ => none

/-- The trees of the items of an array, in order. -/
def trees? : List Value → Option (List HostTree)
  | [] => some []
  | v :: rest => do
    let tree ← tree? v
    let others ← trees? rest
    return tree :: others

/-- The trees of the entries of a map, in order, with their keys. -/
def properties? : List (String × Value) → Option (List (String × HostTree))
  | [] => some []
  | (key, v) :: rest => do
    let tree ← tree? v
    let others ← properties? rest
    return (key, tree) :: others

end

/-- Entries have the trees that they have without their keys. -/
theorem properties?_eq_zip (entries : List (String × Value)) (trees : List HostTree)
    (h : trees? (entries.map Prod.snd) = some trees) :
    properties? entries = some ((entries.map Prod.fst).zip trees) := by
  induction entries generalizing trees with
  | nil => rfl
  | cons entry rest ih =>
    obtain ⟨key, v⟩ := entry
    simp only [List.map_cons, trees?, Option.bind_eq_bind, Option.bind_eq_some_iff,
      Option.pure_def] at h
    obtain ⟨tree, htree, others, hothers, heq⟩ := h
    cases heq
    simp only [properties?, htree, ih others hothers, List.map_cons, List.zip_cons_cons,
      Option.bind_eq_bind, Option.bind_some, Option.pure_def]

end Value

/-! ## Unfolding -/

namespace Arena

mutual

/-- A handle stands for a tree. -/
inductive Unfolds (a : Arena) : Handle → HostTree → Prop where
  | leaf {h : Handle} {v : HostValue} {tree : HostTree} :
      a.get h = .ok v → v.leaf? = some tree → Unfolds a h tree
  | array {h : Handle} {items : List Handle} {trees : List HostTree} :
      a.get h = .ok (.array items) → UnfoldsAll a items trees → Unfolds a h (.array trees)
  | object {h : Handle} {properties : List (String × Handle)} {trees : List HostTree} :
      a.get h = .ok (.object properties) → UnfoldsAll a (properties.map Prod.snd) trees →
      Unfolds a h (.object ((properties.map Prod.fst).zip trees))

/-- Handles stand for trees, one for one. -/
inductive UnfoldsAll (a : Arena) : List Handle → List HostTree → Prop where
  | nil : UnfoldsAll a [] []
  | cons {h : Handle} {tree : HostTree} {handles : List Handle} {trees : List HostTree} :
      Unfolds a h tree → UnfoldsAll a handles trees → UnfoldsAll a (h :: handles) (tree :: trees)

end

mutual

/-- No handle stands for two trees. -/
theorem Unfolds.unique {a : Arena} {h : Handle} {s t : HostTree} :
    a.Unfolds h s → a.Unfolds h t → s = t
  | .leaf hget hleaf, ht => by
    cases ht with
    | leaf hget' hleaf' =>
      cases hget.symm.trans hget'
      exact Option.some.inj (hleaf.symm.trans hleaf')
    | array hget' _ => cases hget.symm.trans hget'; cases hleaf
    | object hget' _ => cases hget.symm.trans hget'; cases hleaf
  | .array hget hall, ht => by
    cases ht with
    | leaf hget' hleaf' => cases hget.symm.trans hget'; cases hleaf'
    | array hget' hall' =>
      cases hget.symm.trans hget'
      rw [UnfoldsAll.unique hall hall']
    | object hget' _ => cases hget.symm.trans hget'
  | .object hget hall, ht => by
    cases ht with
    | leaf hget' hleaf' => cases hget.symm.trans hget'; cases hleaf'
    | array hget' _ => cases hget.symm.trans hget'
    | object hget' hall' =>
      cases hget.symm.trans hget'
      rw [UnfoldsAll.unique hall hall']

theorem UnfoldsAll.unique {a : Arena} {handles : List Handle} {ss ts : List HostTree} :
    a.UnfoldsAll handles ss → a.UnfoldsAll handles ts → ss = ts
  | .nil, .nil => rfl
  | .cons hfirst hrest, .cons hfirst' hrest' => by
    rw [Unfolds.unique hfirst hfirst', UnfoldsAll.unique hrest hrest']

end

/-! ## Adding values -/

/-- All values of the first arena are still there in the second. -/
def Extends (a b : Arena) : Prop :=
  ∀ (i : Nat) (v : HostValue), a.slots[i]? = some v → b.slots[i]? = some v

theorem Extends.refl (a : Arena) : a.Extends a := fun _ _ h => h

theorem Extends.trans {a b c : Arena} (hab : a.Extends b) (hbc : b.Extends c) : a.Extends c :=
  fun i v h => hbc i v (hab i v h)

theorem get_eq_ok {a : Arena} {h : Handle} {v : HostValue} :
    a.get h = .ok v ↔ a.slots[h.slot.toNat]? = some v := by
  rw [get]
  cases a.slots[h.slot.toNat]? with
  | none => constructor <;> intro hv <;> cases hv
  | some w => constructor <;> intro hv <;> cases hv <;> rfl

theorem Extends.get {a b : Arena} (he : a.Extends b) {h : Handle} {v : HostValue}
    (hv : a.get h = .ok v) : b.get h = .ok v :=
  get_eq_ok.mpr (he _ _ (get_eq_ok.mp hv))

mutual

/-- Adding values changes no tree. -/
theorem Unfolds.extend {a b : Arena} (he : a.Extends b) {h : Handle} {tree : HostTree} :
    a.Unfolds h tree → b.Unfolds h tree
  | .leaf hget hleaf => .leaf (he.get hget) hleaf
  | .array hget hall => .array (he.get hget) (hall.extend he)
  | .object hget hall => .object (he.get hget) (hall.extend he)

theorem UnfoldsAll.extend {a b : Arena} (he : a.Extends b) {handles : List Handle}
    {trees : List HostTree} : a.UnfoldsAll handles trees → b.UnfoldsAll handles trees
  | .nil => .nil
  | .cons hfirst hrest => .cons (hfirst.extend he) (hrest.extend he)

end

end Arena

end ForeignCall
