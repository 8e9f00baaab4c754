import ForeignCall.Proofs.RoundTrip
import ForeignCall.Proofs.View
import ForeignCall.Json.Reader

/-!
# ForeignCall.Proofs.JsonTrees

JSON in a host.

JSON is built as the tree that it is, with doubles for numbers: one slot for
each node, parts before wholes, and nothing that was there is referred to
(`planted_ofJson`).  Where the fields of its objects are in key order, as JSON
has them, marshaling has nothing to tidy, and the view of the tree is the JSON
with each integer as a double (`Json.inDoubles`).

The number of nodes and the depth of JSON are those that count when its tree is
converted (`counts_of_unfolds`).
-/

namespace ForeignCall

open Survey

namespace Json

/-! ## Nodes -/

/-- The JSON values a JSON value consists of. -/
def parts : Json → List Json
  | .array items => items
  | .object fields => fields.map Prod.snd
  | _ => []

mutual

/-- Number of nodes, the root included. -/
def size : Json → Nat
  | .array items => sizeItems items + 1
  | .object fields => sizeFields fields + 1
  | _ => 1

/-- Number of nodes of items. -/
def sizeItems : List Json → Nat
  | [] => 0
  | item :: rest => size item + sizeItems rest

/-- Number of nodes of fields. -/
def sizeFields : List (String × Json) → Nat
  | [] => 0
  | (_, item) :: rest => size item + sizeFields rest

end

mutual

/-- Levels below the root. -/
def depth : Json → Nat
  | .array items => depthItems items
  | .object fields => depthFields fields
  | _ => 0

/-- Levels below something that consists of these items. -/
def depthItems : List Json → Nat
  | [] => 0
  | item :: rest => max (depth item + 1) (depthItems rest)

/-- Levels below something that consists of these fields. -/
def depthFields : List (String × Json) → Nat
  | [] => 0
  | (_, item) :: rest => max (depth item + 1) (depthFields rest)

end

theorem sizeItems_eq (items : List Json) : sizeItems items = (items.map size).sum := by
  induction items with
  | nil => rfl
  | cons item rest ih => rw [sizeItems, ih, List.map_cons, List.sum_cons]

theorem sizeFields_eq (fields : List (String × Json)) :
    sizeFields fields = ((fields.map Prod.snd).map size).sum := by
  induction fields with
  | nil => rfl
  | cons field rest ih => rw [sizeFields, ih, List.map_cons, List.map_cons, List.sum_cons]

/-- A node counts for one, and its parts for their nodes. -/
theorem size_eq (j : Json) : j.size = (j.parts.map size).sum + 1 := by
  cases j with
  | array items => rw [size, sizeItems_eq, parts]
  | object fields => rw [size, sizeFields_eq, parts]
  | _ => rfl

theorem depthItems_lt {levels : Nat} {items : List Json} :
    depthItems items < levels + 1 ↔ ∀ item ∈ items, item.depth < levels := by
  induction items with
  | nil => simp [depthItems]
  | cons item rest ih =>
    rw [depthItems, Nat.max_lt, ih, List.forall_mem_cons, Nat.add_lt_add_iff_right]

theorem depthFields_lt {levels : Nat} {fields : List (String × Json)} :
    depthFields fields < levels + 1 ↔ ∀ item ∈ fields.map Prod.snd, item.depth < levels := by
  induction fields with
  | nil => simp [depthFields]
  | cons field rest ih =>
    rw [depthFields, Nat.max_lt, ih, List.map_cons, List.forall_mem_cons, Nat.add_lt_add_iff_right]

/-- What fits so many levels is what consists of parts that fit one level less. -/
theorem depth_lt {levels : Nat} {j : Json} :
    j.depth < levels + 1 ↔ ∀ part ∈ j.parts, part.depth < levels := by
  cases j with
  | array items => exact depthItems_lt
  | object fields => exact depthFields_lt
  | _ => simp [depth, parts]

/-! ## Trees -/

mutual

/-- The tree that JSON is to a host. -/
def tree : Json → HostTree
  | .null => .null
  | .bool b => .boolean b
  | .number n => .number n.toBinary64
  | .string s => .string s
  | .array items => .array (trees items)
  | .object fields => .object (treeFields fields)

/-- The trees of items. -/
def trees : List Json → List HostTree
  | [] => []
  | item :: rest => tree item :: trees rest

/-- The trees of fields, with their keys. -/
def treeFields : List (String × Json) → List (String × HostTree)
  | [] => []
  | (key, item) :: rest => (key, tree item) :: treeFields rest

end

mutual

/-- JSON with the nearest double for each integer. -/
def inDoubles : Json → Json
  | .number n => .ofBinary64 n.toBinary64
  | .array items => .array (inDoublesItems items)
  | .object fields => .object (inDoublesFields fields)
  | j => j

/-- Items, in doubles. -/
def inDoublesItems : List Json → List Json
  | [] => []
  | item :: rest => inDoubles item :: inDoublesItems rest

/-- Fields, in doubles. -/
def inDoublesFields : List (String × Json) → List (String × Json)
  | [] => []
  | (key, item) :: rest => (key, inDoubles item) :: inDoublesFields rest

end

theorem trees_eq (items : List Json) : trees items = items.map tree := by
  induction items with
  | nil => rfl
  | cons item rest ih => rw [trees, ih, List.map_cons]

theorem treeFields_eq (fields : List (String × Json)) :
    treeFields fields = (Entries.keys fields).zip (trees (fields.map Prod.snd)) := by
  induction fields with
  | nil => rfl
  | cons field rest ih => rw [treeFields, ih]; rfl

theorem keys_treeFields (fields : List (String × Json)) :
    Entries.keys (treeFields fields) = Entries.keys fields := by
  induction fields with
  | nil => rfl
  | cons field rest ih =>
    rw [treeFields]
    exact congrArg (field.1 :: ·) ih

theorem keys_inDoublesFields (fields : List (String × Json)) :
    Entries.keys (inDoublesFields fields) = Entries.keys fields := by
  induction fields with
  | nil => rfl
  | cons field rest ih =>
    rw [inDoublesFields]
    exact congrArg (field.1 :: ·) ih

/-- The trees of the parts are the parts of the tree. -/
theorem parts_tree (j : Json) : j.tree.parts = j.parts.map tree := by
  cases j with
  | array items => exact trees_eq items
  | object fields =>
    rw [tree, HostTree.parts, treeFields_eq, List.map_snd_zip (by simp [Entries.keys, trees_eq])]
    exact trees_eq _
  | _ => rfl

theorem fault?_tree (j : Json) : j.tree.fault? = none := by
  cases j <;> rfl

mutual

/-- The tree of JSON means a value. -/
theorem value?_tree : ∀ j : Json, ∃ v, j.tree.value? = some v
  | .null => ⟨_, rfl⟩
  | .bool _ => ⟨_, rfl⟩
  | .number _ => ⟨_, rfl⟩
  | .string _ => ⟨_, rfl⟩
  | .array items => by
    obtain ⟨values, hvalues⟩ := values?_trees items
    exact ⟨.array values, by rw [tree, HostTree.value?, hvalues, Option.map_some]⟩
  | .object fields => by
    obtain ⟨entries, hentries⟩ := entries?_treeFields fields
    exact ⟨_, by rw [tree, HostTree.value?, hentries, Option.map_some]⟩

theorem values?_trees : ∀ items : List Json, ∃ values, HostTree.values? (trees items) = some values
  | [] => ⟨[], rfl⟩
  | item :: rest => by
    obtain ⟨v, hv⟩ := value?_tree item
    obtain ⟨values, hvalues⟩ := values?_trees rest
    exact ⟨v :: values, by simp [trees, HostTree.values?, hv, hvalues]⟩

theorem entries?_treeFields : ∀ fields : List (String × Json),
    ∃ entries, HostTree.entries? (treeFields fields) = some entries
  | [] => ⟨[], rfl⟩
  | (key, item) :: rest => by
    obtain ⟨v, hv⟩ := value?_tree item
    obtain ⟨entries, hentries⟩ := entries?_treeFields rest
    exact ⟨(key, v) :: entries, by simp [treeFields, HostTree.entries?, hv, hentries]⟩

end

mutual

/-- There is nothing to tidy in the tree of JSON in key order. -/
theorem tidy_tree : ∀ {j : Json}, j.Ordered → j.tree.tidy = j.tree
  | .null, _ => rfl
  | .bool _, _ => rfl
  | .number _, _ => rfl
  | .string _, _ => rfl
  | .array items, h => by rw [tree, HostTree.tidy, tidyAll_trees h]
  | .object fields, h => by
    obtain ⟨hsorted, hfields⟩ := h
    have hkeys : Entries.Sorted (treeFields fields) := by
      rw [Entries.sorted_iff, keys_treeFields]
      exact Entries.sorted_iff.mp hsorted
    rw [tree, HostTree.tidy, tidyProperties_treeFields hfields, ← Entries.ofList_eq_reduce,
      Entries.ofList_of_sorted hkeys]

theorem tidyAll_trees : ∀ {items : List Json}, OrderedItems items →
    HostTree.tidyAll (trees items) = trees items
  | [], _ => rfl
  | item :: rest, h => by
    rw [trees, HostTree.tidyAll, tidy_tree h.1, tidyAll_trees h.2]

theorem tidyProperties_treeFields : ∀ {fields : List (String × Json)}, OrderedFields fields →
    HostTree.tidyProperties (treeFields fields) = treeFields fields
  | [], _ => rfl
  | (key, item) :: rest, h => by
    rw [treeFields, HostTree.tidyProperties, tidy_tree h.1, tidyProperties_treeFields h.2]

end

mutual

/-- The view of the tree of JSON in key order is the JSON in doubles. -/
theorem json_tree : ∀ {j : Json}, j.Ordered → j.tree.json = j.inDoubles
  | .null, _ => rfl
  | .bool _, _ => rfl
  | .number _, _ => rfl
  | .string _, _ => rfl
  | .array items, h => by rw [tree, HostTree.json, jsons_trees h, inDoubles]
  | .object fields, h => by
    obtain ⟨hsorted, hfields⟩ := h
    have hkeys : Entries.Sorted (inDoublesFields fields) := by
      rw [Entries.sorted_iff, keys_inDoublesFields]
      exact Entries.sorted_iff.mp hsorted
    rw [tree, HostTree.json, jsonFields_treeFields hfields, Entries.ofList_of_sorted hkeys,
      inDoubles]

theorem jsons_trees : ∀ {items : List Json}, OrderedItems items →
    HostTree.jsons (trees items) = inDoublesItems items
  | [], _ => rfl
  | item :: rest, h => by
    rw [trees, HostTree.jsons, json_tree h.1, jsons_trees h.2, inDoublesItems]

theorem jsonFields_treeFields : ∀ {fields : List (String × Json)}, OrderedFields fields →
    HostTree.jsonFields (treeFields fields) = inDoublesFields fields
  | [], _ => rfl
  | (key, item) :: rest, h => by
    rw [treeFields, HostTree.jsonFields, json_tree h.1, jsonFields_treeFields h.2, inDoublesFields]

end

end Json

namespace Arena

variable {a b c : Arena}

/-! ## Building -/

/-- The second arena is the first with trees behind its values, each without anything shared, and
these handles stand for them. -/
structure Planted (a b : Arena) (handles : List Handle) (trees : List HostTree) : Prop where
  grown : ∃ new, b = a.addAll new ∧ Grown a.slots.size new handles
  unfolds : b.slots.size ≤ 2 ^ 32 → b.UnfoldsAll handles trees

theorem Planted.grows {handles : List Handle} {trees : List HostTree}
    (h : a.Planted b handles trees) : a.Grows b := by
  obtain ⟨new, hb, -⟩ := h.grown
  exact ⟨new, hb⟩

theorem Planted.nil (a : Arena) : a.Planted a [] [] :=
  ⟨⟨[], (addAll_nil a).symm, .nil _⟩, fun _ => .nil⟩

/-- More trees behind a tree. -/
theorem Planted.cons {h : Handle} {tree : HostTree} {handles : List Handle}
    {trees : List HostTree} (hab : a.Planted b [h] [tree]) (hbc : b.Planted c handles trees) :
    a.Planted c (h :: handles) (tree :: trees) := by
  have hextends : b.Extends c := hbc.grows.extends
  obtain ⟨⟨new, rfl, hnew⟩, hfirst⟩ := hab
  obtain ⟨⟨more, rfl, hmore⟩, hrest⟩ := hbc
  rw [size_addAll] at hmore
  refine ⟨⟨new ++ more, addAll_addAll .., hnew.append hmore⟩, fun hsize => ?_⟩
  have hsmaller : (a.addAll new).slots.size ≤ 2 ^ 32 := by
    rw [size_addAll] at hsize
    omega
  cases hfirst hsmaller with
  | cons hunfolds _ => exact .cons (hunfolds.extend hextends) (hrest hsize)

/-- A whole on top of its parts. -/
theorem Planted.alloc {v : HostValue} {trees : List HostTree} {tree : HostTree}
    (h : a.Planted b v.parts trees)
    (hwhole : ∀ {c : Arena} {handle : Handle}, c.get handle = .ok v →
      c.UnfoldsAll v.parts trees → c.Unfolds handle tree) :
    a.Planted (b.alloc v).2 [(b.alloc v).1] [tree] := by
  obtain ⟨⟨new, rfl, hnew⟩, hparts⟩ := h
  rw [alloc_eq]
  refine ⟨⟨new ++ [v], addAll_addAll .., ?_⟩, fun hsize => ?_⟩
  · rw [size_addAll]
    exact hnew.push rfl
  · have hsmaller : (a.addAll new).slots.size ≤ 2 ^ 32 := by
      rw [size_addAll] at hsize
      omega
    have hget : ((a.addAll new).addAll [v]).get (handleAt (a.addAll new).slots.size) = .ok v :=
      get_addAll_new (i := 0) rfl hsize
    exact .cons (hwhole hget ((hparts hsmaller).extend (extends_addAll _ _))) .nil

theorem planted_leaf (a : Arena) {v : HostValue} {tree : HostTree} (hv : v.leaf? = some tree) :
    a.Planted (a.alloc v).2 [(a.alloc v).1] [tree] := by
  have hparts : a.Planted a v.parts [] := by
    rw [(HostValue.json_leaf hv).1]
    exact .nil a
  exact hparts.alloc fun hget _ => .leaf hget hv

mutual

/-- **As the tree that it is**: JSON is built behind what was there, each node in a slot of its
own. -/
theorem planted_ofJson (a : Arena) :
    ∀ j : Json, a.Planted (a.ofJson j).2 [(a.ofJson j).1] [j.tree]
  | .null => planted_leaf a rfl
  | .bool _ => planted_leaf a rfl
  | .number _ => planted_leaf a rfl
  | .string _ => planted_leaf a rfl
  | .array items => (planted_ofJsonItems a items).alloc .array
  | .object fields => by
    obtain ⟨hkeys, hplanted⟩ := planted_ofJsonFields a fields
    refine hplanted.alloc fun hget hall => ?_
    have hobject := Unfolds.object hget hall
    rw [Json.tree, Json.treeFields_eq, ← hkeys]
    exact hobject

theorem planted_ofJsonItems (a : Arena) :
    ∀ items : List Json,
      a.Planted (a.ofJsonItems items).2 (a.ofJsonItems items).1 (Json.trees items)
  | [] => .nil a
  | item :: rest => (planted_ofJson a item).cons (planted_ofJsonItems (a.ofJson item).2 rest)

theorem planted_ofJsonFields (a : Arena) : ∀ fields : List (String × Json),
    Entries.keys (a.ofJsonFields fields).1 = Entries.keys fields ∧
      a.Planted (a.ofJsonFields fields).2 ((a.ofJsonFields fields).1.map Prod.snd)
        (Json.trees (fields.map Prod.snd))
  | [] => ⟨rfl, .nil a⟩
  | (key, item) :: rest => by
    obtain ⟨hkeys, hplanted⟩ := planted_ofJsonFields (a.ofJson item).2 rest
    exact ⟨congrArg (key :: ·) hkeys, (planted_ofJson a item).cons hplanted⟩

end

mutual

/-- There is one slot for each node. -/
theorem size_ofJson (a : Arena) :
    ∀ j : Json, (a.ofJson j).2.slots.size = a.slots.size + j.size
  | .null => Array.size_push _
  | .bool _ => Array.size_push _
  | .number _ => Array.size_push _
  | .string _ => Array.size_push _
  | .array items => by
    have hwhole : (a.ofJson (.array items)).2.slots.size =
        (a.ofJsonItems items).2.slots.size + 1 := Array.size_push _
    rw [hwhole, size_ofJsonItems, Json.size, Nat.add_assoc]
  | .object fields => by
    have hwhole : (a.ofJson (.object fields)).2.slots.size =
        (a.ofJsonFields fields).2.slots.size + 1 := Array.size_push _
    rw [hwhole, size_ofJsonFields, Json.size, Nat.add_assoc]

theorem size_ofJsonItems (a : Arena) : ∀ items : List Json,
    (a.ofJsonItems items).2.slots.size = a.slots.size + Json.sizeItems items
  | [] => rfl
  | item :: rest => by
    rw [ofJsonItems, size_ofJsonItems, size_ofJson, Json.sizeItems, Nat.add_assoc]

theorem size_ofJsonFields (a : Arena) : ∀ fields : List (String × Json),
    (a.ofJsonFields fields).2.slots.size = a.slots.size + Json.sizeFields fields
  | [] => rfl
  | (_, item) :: rest => by
    rw [ofJsonFields, size_ofJsonFields, size_ofJson, Json.sizeFields, Nat.add_assoc]

end

/-! ## Counting -/

/-- A handle that stands for the tree of JSON counts for the nodes of the JSON, if they are on few
enough levels. -/
theorem counts_of_unfolds {levels k : Nat} {h : Handle} {j : Json} (hu : b.Unfolds h j.tree) :
    Counts b.partsOf b.fault? levels h k ↔ j.depth < levels ∧ k = j.size := by
  induction levels generalizing k h j with
  | zero => simp [Counts]
  | succ levels ih =>
    have hparts := hu.parts
    rw [Json.parts_tree, List.forall₂_map_right_iff] at hparts
    have hcounts (counts : List Nat) :
        List.Forall₂ (Counts b.partsOf b.fault? levels) (b.partsOf h) counts ↔
          (∀ part ∈ j.parts, part.depth < levels) ∧ counts = j.parts.map Json.size := by
      generalize b.partsOf h = handles at hparts
      generalize j.parts = parts at hparts
      induction hparts generalizing counts with
      | nil => simp
      | @cons handle part handles parts hfirst _ ihparts =>
        simp only [List.forall₂_cons_left_iff, ih hfirst, ihparts, List.forall_mem_cons,
          List.map_cons]
        constructor
        · rintro ⟨k, more, ⟨hdepth, rfl⟩, ⟨hall, rfl⟩, rfl⟩
          exact ⟨⟨hdepth, hall⟩, rfl⟩
        · rintro ⟨⟨hdepth, hall⟩, rfl⟩
          exact ⟨_, _, ⟨hdepth, rfl⟩, ⟨hall, rfl⟩, rfl⟩
    rw [Json.depth_lt, Json.size_eq, Counts, hu.fault?_eq, Json.fault?_tree]
    simp only [hcounts, true_and]
    constructor
    · rintro ⟨counts, ⟨hall, rfl⟩, rfl⟩
      exact ⟨hall, rfl⟩
    · rintro ⟨hall, rfl⟩
      exact ⟨_, ⟨hall, rfl⟩, rfl⟩

end Arena

end ForeignCall
