import ForeignCall.Proofs.Census
import ForeignCall.Proofs.Crossing
import ForeignCall.Proofs.Export
import ForeignCall.Proofs.Import

/-!
# ForeignCall.Proofs.RoundTrip

Across and back again.

What has crossed one way can cross the other, under the same bounds: a handle,
the tree it unfolds to, and the value that this means have corresponding nodes,
so none of them has more than another or is deeper.  The value that a tree
means may have fewer, as properties that a later one replaces are left out.

* `Arena.toValue_toHost` — a value comes back with its narrow numbers widened;
* `Arena.toHost_toValue` — a tree comes back tidied, and then stays as it is.
-/

namespace ForeignCall

open Marshal Survey

/-! ## Nodes of trees -/

namespace HostTree

/-- The trees a tree consists of. -/
def parts : HostTree → List HostTree
  | .array items => items
  | .object properties => properties.map Prod.snd
  | _ => []

/-- What is wrong with a tree by itself: it is a symbol. -/
def fault? : HostTree → Option ConversionError
  | .symbol => some (.unsupportedHostKind .symbol)
  | _ => none

/-- A tree has no fault if a value means it, and its parts are what the value's parts mean. -/
theorem parts_of_tree? {v : Value} {tree : HostTree} (h : v.tree? = some tree) :
    tree.fault? = none ∧ List.Forall₂ (fun v tree => v.tree? = some tree) v.parts tree.parts := by
  cases v with
  | array items =>
    rw [Value.tree?, Option.map_eq_some_iff] at h
    obtain ⟨trees, htrees, rfl⟩ := h
    exact ⟨rfl, Value.trees?_eq_some.mp htrees⟩
  | map entries =>
    rw [Value.tree?, Option.map_eq_some_iff] at h
    obtain ⟨properties, hproperties, rfl⟩ := h
    exact ⟨rfl, (Value.properties?_eq_some.mp hproperties).values⟩
  | ptr address => cases h
  | _ => cases h; exact ⟨rfl, .nil⟩

/-- A value has no fault if a tree means it, and its parts are what some of the tree's parts
mean. -/
theorem parts_of_value? {tree : HostTree} {v : Value} (h : tree.value? = some v) :
    v.fault? = none ∧ ∃ trees, trees.Subperm tree.parts ∧
      List.Forall₂ (fun tree v => tree.value? = some v) trees v.parts := by
  cases tree with
  | array items =>
    rw [value?, Option.map_eq_some_iff] at h
    obtain ⟨values, hvalues, rfl⟩ := h
    exact ⟨rfl, items, .refl _, values?_eq_some.mp hvalues⟩
  | object properties =>
    rw [value?, Option.map_eq_some_iff] at h
    obtain ⟨entries, hentries, rfl⟩ := h
    have hlast : Entries.Alike (fun tree v => tree.value? = some v) (Entries.ofList properties)
        (Entries.ofList entries) := (entries?_eq_some.mp hentries).ofList
    exact ⟨rfl, (Entries.ofList properties).map Prod.snd,
      Entries.values_subperm_ofList properties, hlast.values⟩
  | symbol => cases h
  | _ => cases h; exact ⟨rfl, [], .refl _, .nil⟩

end HostTree

namespace Arena

variable {a b : Arena} {levels k : Nat}

theorem UnfoldsAll.forall₂ {handles : List Handle} {trees : List HostTree}
    (h : a.UnfoldsAll handles trees) : List.Forall₂ a.Unfolds handles trees := by
  induction handles generalizing trees with
  | nil =>
    cases h
    exact .nil
  | cons _ _ ih =>
    cases h with
    | cons hfirst hrest => exact .cons hfirst (ih hrest)

/-- What is wrong with a handle that has a tree is what is wrong with the tree. -/
theorem Unfolds.fault?_eq {h : Handle} {tree : HostTree} (hu : a.Unfolds h tree) :
    a.fault? h = tree.fault? := by
  cases hu with
  | @leaf _ v _ hget hleaf =>
    rw [fault?, get_eq_ok.mp hget]
    cases v <;> cases hleaf <;> rfl
  | array hget _ => rw [fault?, get_eq_ok.mp hget]; rfl
  | object hget _ => rw [fault?, get_eq_ok.mp hget]; rfl

/-- The parts of a handle have the parts of its tree for trees. -/
theorem Unfolds.parts {h : Handle} {tree : HostTree} (hu : a.Unfolds h tree) :
    List.Forall₂ a.Unfolds (a.partsOf h) tree.parts := by
  cases hu with
  | @leaf _ v _ hget hleaf =>
    rw [partsOf_of_ok hget]
    cases v <;> cases hleaf <;> exact .nil
  | array hget hall =>
    rw [partsOf_of_ok hget]
    exact hall.forall₂
  | @object _ properties trees hget hall =>
    have hlength : properties.length = trees.length := by
      rw [← hall.forall₂.length_eq, List.length_map]
    have hparts : ((properties.map Prod.fst).zip trees).map Prod.snd = trees :=
      List.map_snd_zip (by simp [hlength])
    rw [partsOf_of_ok hget, HostTree.parts, hparts]
    exact hall.forall₂

/-- A handle has no more nodes than a value that it stands for. -/
theorem counts_of_holds {v : Value} {h : Handle} (hh : b.Holds v h)
    (hk : Counts Value.parts Value.fault? levels v k) :
    ∃ j ≤ k, Counts b.partsOf b.fault? levels h j := by
  obtain ⟨tree, htree, hu⟩ := hh
  have hvalue : ∀ (v : Value) (tree : HostTree), v.tree? = some tree → v.fault? = none →
      tree.fault? = none ∧
      ∃ vs, vs.Subperm v.parts ∧
        List.Forall₂ (fun v tree => v.tree? = some tree) vs tree.parts := by
    intro v tree h _
    obtain ⟨hfault, hparts⟩ := HostTree.parts_of_tree? h
    exact ⟨hfault, v.parts, .refl _, hparts⟩
  have hhandle : ∀ (tree : HostTree) (h : Handle), b.Unfolds h tree → tree.fault? = none →
      b.fault? h = none ∧
      ∃ trees, trees.Subperm tree.parts ∧
        List.Forall₂ (fun tree h => b.Unfolds h tree) trees (b.partsOf h) := by
    intro tree h hu hfault
    exact ⟨hu.fault?_eq.trans hfault, tree.parts, .refl _, hu.parts.flip⟩
  obtain ⟨i, hi, hcount⟩ := hk.simulate hvalue htree
  obtain ⟨j, hj, hcount'⟩ := hcount.simulate hhandle hu
  exact ⟨j, Nat.le_trans hj hi, hcount'⟩

/-- A value has no more nodes than a handle that means it. -/
theorem counts_of_means {v : Value} {h : Handle} (hm : a.Means h v)
    (hk : Counts a.partsOf a.fault? levels h k) :
    ∃ j ≤ k, Counts Value.parts Value.fault? levels v j := by
  obtain ⟨tree, hu, hvalue⟩ := hm
  have hhandle : ∀ (h : Handle) (tree : HostTree), a.Unfolds h tree → a.fault? h = none →
      tree.fault? = none ∧
      ∃ handles, handles.Subperm (a.partsOf h) ∧
        List.Forall₂ a.Unfolds handles tree.parts := by
    intro h tree hu hfault
    exact ⟨hu.fault?_eq.symm.trans hfault, a.partsOf h, .refl _, hu.parts⟩
  have htree : ∀ (tree : HostTree) (v : Value), tree.value? = some v → tree.fault? = none →
      v.fault? = none ∧
      ∃ trees, trees.Subperm tree.parts ∧
        List.Forall₂ (fun tree v => tree.value? = some v) trees v.parts :=
    fun _ _ h _ => HostTree.parts_of_value? h
  obtain ⟨i, hi, hcount⟩ := hk.simulate hhandle hu
  obtain ⟨j, hj, hcount'⟩ := hcount.simulate htree hvalue
  exact ⟨j, Nat.le_trans hj hi, hcount'⟩

/-! ## One way -/

variable {limits : Limits}

/-- A value that has been built has been counted. -/
theorem counts_of_toHost {v : Value} {h : Handle} (hh : toHost limits v a = .ok h b) :
    (∃ k ≤ limits.maxNodes.toNat, Counts Value.parts Value.fault? (maxDepth + 1) v k) ∧
      (∃ new, b = a.addAll new) ∧ (b.slots.size ≤ 2 ^ 32 → b.Holds v h) := by
  obtain ⟨m, hm, below, w, hbuilt, _, hholds⟩ :=
    (made_exportNode v (Nat.zero_le _)).of_start_ok hh
  obtain ⟨k, hk, hcount⟩ := counts_of_survey hm
  have hle : m ≤ limits.maxNodes.toNat := (survey_le hm).2
  exact ⟨⟨k, by omega, hk⟩, ⟨below ++ [w], hbuilt.host⟩, hholds⟩

/-- A value with few enough nodes is built. -/
theorem toHost_of_counts {v : Value} (hk : Counts Value.parts Value.fault? (maxDepth + 1) v k)
    (hle : k ≤ limits.maxNodes.toNat) (a : Arena) : ∃ h b, toHost limits v a = .ok h b := by
  have hword : limits.maxNodes.toNat < 2 ^ 64 := limits.maxNodes.toNat_lt
  have hsurvey : survey Value.parts Value.fault? limits.maxNodes.toNat (maxDepth + 1) v 0 =
      .ok (0 + k) := survey_of_counts hk (by omega) (by omega)
  exact (made_exportNode v (Nat.zero_le _)).start_ok_iff.mpr ⟨_, hsurvey⟩

/-- A handle that has been read has been counted. -/
theorem counts_of_toValue {v : Value.Canonical} {h : Handle} (hv : toValue limits h a = .ok v b) :
    (∃ k ≤ limits.maxNodes.toNat, Counts a.partsOf a.fault? (maxDepth + 1) h k) ∧
      b = a ∧ a.Means h v := by
  obtain ⟨m, hm, hmeans, hsame⟩ := (reads_importNode _ _ h 0).of_start_ok hv
  obtain ⟨k, hk, hcount⟩ := counts_of_survey hm
  have hle : m ≤ limits.maxNodes.toNat := (survey_le hm).2
  exact ⟨⟨k, by omega, hk⟩, hsame, hmeans⟩

/-- A handle with few enough nodes is read. -/
theorem toValue_of_counts {v : Value.Canonical} {h : Handle}
    (hk : Counts a.partsOf a.fault? (maxDepth + 1) h k) (hle : k ≤ limits.maxNodes.toNat)
    (hmeans : a.Means h v) : toValue limits h a = .ok v a := by
  have hword : limits.maxNodes.toNat < 2 ^ 64 := limits.maxNodes.toNat_lt
  have hsurvey : survey a.partsOf a.fault? limits.maxNodes.toNat (maxDepth + 1) h 0 =
      .ok (0 + k) := survey_of_counts hk (by omega) (by omega)
  have hread := a.reads_importNode limits.maxNodes.toNat (maxDepth + 1) h 0
  obtain ⟨w, b, hw⟩ := hread.start_ok_iff.mpr ⟨_, hsurvey⟩
  obtain ⟨_, _, hmeans', rfl⟩ := hread.of_start_ok hw
  rw [Value.Canonical.ext (hmeans.unique hmeans')]
  exact hw

/-! ## And back -/

/-- What was built from a value is read as what its tree means. -/
theorem toValue_of_toHost {v : Value} {w : Value.Canonical} {h : Handle}
    (hh : toHost limits v a = .ok h b) (hsize : b.slots.size ≤ 2 ^ 32)
    (hw : ∀ tree, v.tree? = some tree → tree.value? = some w.value) :
    toValue limits h b = .ok w b := by
  obtain ⟨⟨k, hle, hk⟩, _, hholds⟩ := counts_of_toHost hh
  obtain ⟨j, hj, hcount⟩ := counts_of_holds (hholds hsize) hk
  obtain ⟨tree, htree, hu⟩ := hholds hsize
  exact toValue_of_counts hcount (Nat.le_trans hj hle) ⟨tree, hu, hw tree htree⟩

/-- **A value there and back**: what was built is read under the same bounds, as the value with
each narrow number replaced by a double that is the same number.  Assumed is only that the slots all
have handles. -/
theorem toValue_toHost (limits : Limits) {v : Value.Canonical} {a b : Arena} {h : Handle}
    (hh : toHost limits v a = .ok h b) (hsize : b.slots.size ≤ 2 ^ 32) :
    ∃ w, toValue limits h b = .ok w b ∧ v.value.Widens w := by
  obtain ⟨_, _, hholds⟩ := counts_of_toHost hh
  obtain ⟨tree, htree, _⟩ := hholds hsize
  obtain ⟨w, hw, hwidens⟩ := Value.widens_of_tree? v.ordered htree
  have hordered : w.Ordered := HostTree.ordered_of_value? hw
  refine ⟨⟨w, hordered⟩, toValue_of_toHost hh hsize fun tree' htree' => ?_, hwidens⟩
  rw [← Option.some.inj (htree.symm.trans htree')]
  exact hw

/-- An array of two narrow numbers in a map is built from nothing and read. -/
theorem toValue_toHost_narrow :
    let v : Value.Canonical :=
      .map [("k", .array [⟨.s8 (-5), trivial⟩, ⟨.f32 ⟨0x3FC00000⟩, trivial⟩])]
    ∃ (h : Handle) (b : Arena), toHost {} v ({} : Arena) = .ok h b ∧
      b.slots.size ≤ 2 ^ 32 ∧ ∃ w, toValue {} h b = .ok w b ∧ v.value.Widens w := by
  intro v
  have hbuilt : ∃ (h : Handle) (b : Arena), toHost {} v ({} : Arena) = .ok h b ∧
      b.slots.size ≤ 2 ^ 32 := ⟨_, _, rfl, by decide⟩
  obtain ⟨h, b, hh, hsize⟩ := hbuilt
  exact ⟨h, b, hh, hsize, toValue_toHost {} hh hsize⟩

/-- A value has been built, behind the slots that there were.  If they all have handles, it has this
tree and is read as it was. -/
structure Rebuilt (limits : Limits) (v : Value.Canonical) (tree : HostTree) (a : Arena) (h : Handle)
    (b : Arena) : Prop where
  built : toHost limits v a = .ok h b
  kept : ∃ new, b = a.addAll new
  unfolds : b.slots.size ≤ 2 ^ 32 → b.Unfolds h tree
  read : b.slots.size ≤ 2 ^ 32 → toValue limits h b = .ok v b

/-- What a tree means is built as that tree, tidied. -/
theorem exists_rebuilt {tree : HostTree} {v : Value.Canonical}
    (hvalue : tree.value? = some v.value)
    (hk : Counts Value.parts Value.fault? (maxDepth + 1) v.value k)
    (hle : k ≤ limits.maxNodes.toNat) (a : Arena) : ∃ h b, Rebuilt limits v tree.tidy a h b := by
  have htidy : v.value.tree? = some tree.tidy := HostTree.tree?_of_value? hvalue
  obtain ⟨h, b, hh⟩ := toHost_of_counts hk hle a
  obtain ⟨_, hkept, hholds⟩ := counts_of_toHost hh
  refine ⟨h, b, hh, hkept, fun hsize => ?_, fun hsize => ?_⟩
  · obtain ⟨tree', htree', hu⟩ := hholds hsize
    rw [Option.some.inj (htidy.symm.trans htree')]
    exact hu
  · refine toValue_of_toHost hh hsize fun tree' htree' => ?_
    rw [← Option.some.inj (htidy.symm.trans htree')]
    exact HostTree.value?_tidy hvalue

/-- **A tree there and back**: what was read is built under the same bounds, behind the slots that
there were, as the tree that was read with undefined as null and of each object the last property
of every key, in key order.  Going there and back once more changes nothing of that. -/
theorem toHost_toValue (limits : Limits) {h : Handle} {v : Value.Canonical} {a a' : Arena}
    (hv : toValue limits h a = .ok v a') :
    a' = a ∧ ∃ tree, a.Unfolds h tree ∧ ∃ h' b, Rebuilt limits v tree.tidy a h' b ∧
      ∃ h'' c, Rebuilt limits v tree.tidy b h'' c := by
  obtain ⟨⟨k, hle, hk⟩, hsame, hmeans⟩ := counts_of_toValue hv
  obtain ⟨j, hj, hcount⟩ := counts_of_means hmeans hk
  obtain ⟨tree, hu, hvalue⟩ := hmeans
  obtain ⟨h', b, hb⟩ := exists_rebuilt hvalue hcount (Nat.le_trans hj hle) a
  exact ⟨hsame, tree, hu, h', b, hb, exists_rebuilt hvalue hcount (Nat.le_trans hj hle) b⟩

/-- Of a key that is there twice the last property is built again, and the keys are sorted. -/
theorem toHost_toValue_repeated :
    let a : Arena := { slots := #[.undefined, .boolean true,
      .object [("b", ⟨0⟩), ("a", ⟨0⟩), ("b", ⟨1⟩)]] }
    let v : Value.Canonical := .map [("a", ⟨.null, trivial⟩), ("b", ⟨.bool true, trivial⟩)]
    toValue {} ⟨2⟩ a = .ok v a ∧ ∃ tree, a.Unfolds ⟨2⟩ tree ∧
      ∃ h b, Rebuilt {} v tree.tidy a h b := by
  intro a v
  have hv : toValue {} ⟨2⟩ a = .ok v a := by rfl
  obtain ⟨_, tree, hu, h, b, hb, _⟩ := toHost_toValue {} hv
  exact ⟨hv, tree, hu, h, b, hb⟩

end Arena

end ForeignCall
