import ForeignCall.Proofs.Unfolding
import ForeignCall.Proofs.Walk

/-!
# ForeignCall.Proofs.Import

A handle is read exactly: as the tree it unfolds to, or not at all.

The nodes of the unfolding are visited in pre-order (`Survey.visited`), for
ever if the handle reaches a cycle.  A handle is read when there are no more
nodes than allowed and none offends; otherwise the first one that does is the
error.  Nothing is assumed of the arena: handles may be shared, reach
themselves or be stale.
-/

namespace ForeignCall

open Marshal Survey

namespace Arena

/-- The handles that a handle's value refers to. -/
def partsOf (a : Arena) (h : Handle) : List Handle :=
  match a.get h with
  | .ok v => v.parts
  | .error _ => []

/-- What is wrong with a handle by itself: there is no such value, or it is a symbol. -/
def fault? (a : Arena) (h : Handle) : Option ConversionError :=
  match a.slots[h.slot.toNat]? with
  | none => some (.host (.stale h))
  | some .symbol => some (.unsupportedHostKind .symbol)
  | some _ => none

/-- The `n`-th node of the unfolding of a handle, in pre-order, with its depth. -/
abbrev node (a : Arena) (root : Handle) (n : Nat) : Option (Nat × Handle) :=
  visited a.partsOf root n

variable {a : Arena}

/-! ## Handles in step with their nodes -/

/-- A walk that reads from this arena, and leaves it as it is. -/
abbrev Reads {β : Type} (a : Arena) (walked : Except (Abort ConversionError) Nat)
    (means : β → Prop) (result : EStateM.Result (Abort ConversionError) (Visit Arena) β) : Prop :=
  Walk.Follows walked (fun b s => means b ∧ s.host = a) (fun _ host => host = a) result

/-- A value is what a handle means. -/
def Means (a : Arena) (h : Handle) (v : Value) : Prop :=
  ∃ tree, a.Unfolds h tree ∧ tree.value? = some v

/-- Values are what handles mean, one for one. -/
def MeansAll (a : Arena) (handles : List Handle) (values : List Value) : Prop :=
  ∃ trees, a.UnfoldsAll handles trees ∧ HostTree.values? trees = some values

theorem MeansAll.nil : a.MeansAll [] [] := ⟨[], .nil, rfl⟩

theorem MeansAll.cons {h : Handle} {v : Value} {handles : List Handle} {values : List Value}
    (hv : a.Means h v) (hvs : a.MeansAll handles values) :
    a.MeansAll (h :: handles) (v :: values) := by
  obtain ⟨tree, htree, hvalue⟩ := hv
  obtain ⟨trees, htrees, hvalues⟩ := hvs
  exact ⟨tree :: trees, .cons htree htrees, by simp [HostTree.values?, hvalue, hvalues]⟩

theorem Means.leaf {h : Handle} {v : HostValue} {tree : HostTree} {value : Value}
    (hget : a.get h = .ok v) (hleaf : v.leaf? = some tree) (hvalue : tree.value? = some value) :
    a.Means h value :=
  ⟨tree, .leaf hget hleaf, hvalue⟩

theorem Means.array {h : Handle} {items : List Handle} {values : List Value}
    (hget : a.get h = .ok (.array items)) (hall : a.MeansAll items values) :
    a.Means h (.array values) := by
  obtain ⟨trees, htrees, hvalues⟩ := hall
  exact ⟨.array trees, .array hget htrees, by simp only [HostTree.value?, hvalues, Option.map_some]⟩

theorem Means.object {h : Handle} {properties : List (String × Handle)} {values : List Value}
    (hget : a.get h = .ok (.object properties))
    (hall : a.MeansAll (properties.map Prod.snd) values) :
    a.Means h (.map (Entries.ofList ((properties.map Prod.fst).zip values))) := by
  obtain ⟨trees, htrees, hvalues⟩ := hall
  refine ⟨_, .object hget htrees, ?_⟩
  rw [HostTree.value?, HostTree.entries?_zip _ _ _ hvalues, Option.map_some]

theorem get_of_none {h : Handle} (hslot : a.slots[h.slot.toNat]? = none) :
    a.get h = .error (.stale h) := by
  rw [get, hslot]

theorem get_of_some {h : Handle} {v : HostValue} (hslot : a.slots[h.slot.toNat]? = some v) :
    a.get h = .ok v := get_eq_ok.mpr hslot

theorem partsOf_of_ok {h : Handle} {v : HostValue} (hget : a.get h = .ok v) :
    a.partsOf h = v.parts := by
  rw [partsOf, hget]

theorem reads_each {most levels : Nat} {step : Handle → Walk Arena Value.Canonical}
    (hstep : ∀ h n, a.Reads (survey a.partsOf a.fault? most levels h n)
      (fun v : Value.Canonical => a.Means h v) (step h ⟨a, n⟩)) (items : List Handle) (n : Nat) :
    a.Reads (surveyAll a.partsOf a.fault? most levels items n)
      (fun vs => a.MeansAll items (vs.map Value.Canonical.value))
      (Walk.each step items ⟨a, n⟩) := by
  induction items generalizing n with
  | nil => exact ⟨rfl, .nil, rfl⟩
  | cons h rest ih =>
    refine Walk.Follows.each_cons (s := ⟨a, n⟩) (hstep h n) fun v s hv => ?_
    obtain ⟨host, m⟩ := s
    obtain ⟨hmeans, rfl⟩ := hv
    exact (ih m).mono (fun vs s hvs => ⟨.cons hmeans hvs.1, hvs.2⟩) fun _ _ h => h

/-- A handle is read as it means, in step with the survey of its nodes. -/
theorem reads_importNode (most levels : Nat) (h : Handle) (n : Nat) :
    a.Reads (survey a.partsOf a.fault? most levels h n) (fun v : Value.Canonical => a.Means h v)
      (importNode most levels h ⟨a, n⟩) := by
  induction levels generalizing h n with
  | zero => exact ⟨rfl, rfl⟩
  | succ levels ih =>
    rw [importNode]
    refine Walk.Follows.visit (fun _ _ => rfl) fun _ => ?_
    rw [fault?]
    cases hslot : a.slots[h.slot.toNat]? with
    | none =>
      have hclass : HostRuntime.classify h a = .error (.error (.stale h)) a :=
        Action.look_of_error (get_of_none hslot)
      rw [Action.bind_of_error (Walk.onHost_of_error hclass _)]
      exact ⟨rfl, rfl⟩
    | some v =>
      have hget : a.get h = .ok v := get_of_some hslot
      have hclass : HostRuntime.classify h a = .ok v a := Action.look_of_ok hget
      rw [Action.bind_of_ok (Walk.onHost_of_ok hclass _), partsOf_of_ok hget]
      cases v with
      | array items =>
        refine (reads_each ih items (n + 1)).bind_still fun vs s hvs => ?_
        exact ⟨rfl, .array hget hvs.1, hvs.2⟩
      | object properties =>
        dsimp only
        rw [Walk.eachEntry_eq, bind_map_left]
        refine (reads_each ih (properties.map Prod.snd) (n + 1)).bind_still fun vs s hvs => ?_
        refine ⟨rfl, ?_, hvs.2⟩
        rw [Value.Canonical.value_map_zip]
        exact .object hget hvs.1
      | symbol => exact ⟨rfl, rfl⟩
      | _ => exact ⟨rfl, .leaf hget rfl rfl, rfl⟩

/-! ## Whole handles -/

/-- A handle means one value at most. -/
theorem Means.unique {h : Handle} {v w : Value} (hv : a.Means h v) (hw : a.Means h w) : v = w := by
  obtain ⟨s, hs, hsv⟩ := hv
  obtain ⟨t, ht, htw⟩ := hw
  cases hs.unique ht
  exact Option.some.inj (hsv.symm.trans htw)

theorem fault?_eq_none {h : Handle} :
    a.fault? h = none ↔ ∃ v, a.get h = .ok v ∧ v ≠ .symbol := by
  simp only [get_eq_ok]
  rw [fault?]
  cases a.slots[h.slot.toNat]? with
  | none => simp
  | some v => cases v <;> simp

/-- **Exactly the unfolding**: a handle is read if, in its unfolding, there are no more nodes than
allowed, none is too deep, each exists and none is a symbol.  What is read is the unfolding.
Otherwise the error is that of the first node that offends, by its depth, else by its number, else
by what it is.  The arena is not changed. -/
theorem toValue_exact (limits : Limits) (h : Handle) (a : Arena)
    (hmost : limits.maxNodes.toNat < 2 ^ 64 - 1) :
    ((∃ v b, toValue limits h a = .ok v b) ↔
      a.node h limits.maxNodes.toNat = none ∧
        ∀ n depth k, a.node h n = some (depth, k) →
          depth ≤ maxDepth ∧ ∃ v, a.get k = .ok v ∧ v ≠ .symbol) ∧
    (∀ v b, toValue limits h a = .ok v b → a.Means h v ∧ b = a) ∧
    (∀ abort b, toValue limits h a = .error abort b → b = a ∧
      ∃ n node e, a.node h n = some node ∧ abort = .error e ∧
        offence? a.fault? limits.maxNodes.toNat n node = some e ∧
        ∀ i < n, ∃ earlier, a.node h i = some earlier ∧
          offence? a.fault? limits.maxNodes.toNat i earlier = none) := by
  have hreads := a.reads_importNode limits.maxNodes.toNat (maxDepth + 1) h 0
  have hcount : ∀ detail, survey a.partsOf a.fault? limits.maxNodes.toNat (maxDepth + 1) h 0 ≠
      .error (.panic detail) := fun detail => survey_ne_panic (Nat.zero_le _) (by omega)
  refine ⟨?_, fun v b hv => ?_, fun abort b hb => ?_⟩
  · have hfine := survey_root_ok_iff hcount
    simp only [Prod.forall, fault?_eq_none] at hfine
    rw [← hfine]
    exact hreads.start_ok_iff
  · obtain ⟨_, _, hmeans⟩ := hreads.of_start_ok hv
    exact hmeans
  · obtain ⟨hs, hsame⟩ := hreads.of_start_error hb
    cases abort with
    | panic detail => exact absurd hs (hcount detail)
    | error e =>
      obtain ⟨n, node, hclean, hnode, ho⟩ := survey_root_error hs
      exact ⟨hsame, n, node, e, hnode, rfl, ho, hclean⟩

/-- An array that contains itself is not read: its node at depth 65 is too deep. -/
theorem toValue_exact_cycle :
    let a : Arena := { slots := #[.array [⟨0⟩]] }
    ({} : Limits).maxNodes.toNat < 2 ^ 64 - 1 ∧ ¬ ∃ v b, toValue {} ⟨0⟩ a = .ok v b := by
  intro a
  have hmost : ({} : Limits).maxNodes.toNat < 2 ^ 64 - 1 := by decide
  refine ⟨hmost, fun hread => ?_⟩
  have hnode : a.node ⟨0⟩ 65 = some (65, ⟨0⟩) := by rfl
  obtain ⟨_, hfine⟩ := (toValue_exact {} ⟨0⟩ a hmost).1.mp hread
  exact absurd (hfine 65 65 ⟨0⟩ hnode).1 (by decide)

end Arena

end ForeignCall
