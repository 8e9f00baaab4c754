import ForeignCall.Proofs.Growth
import ForeignCall.Proofs.Nodes
import ForeignCall.Proofs.Walk

/-!
# ForeignCall.Proofs.Export

A value is built exactly: one slot for each of its nodes, or not at all.

While a value is being built its slots form a region behind those that were
there (`Arena.Grown`), with the finished parts as roots; a whole is pushed on
top of its parts.  The number of nodes visited and the number of slots added go
together, but for the wholes that are still to come.  That is why the count
cannot reach its end in an arena whose slots all have handles.
-/

namespace ForeignCall

open Marshal Survey

namespace Arena

/-! ## What is built -/

/-- A handle stands for what a value means to a host. -/
def Holds (b : Arena) (v : Value) (h : Handle) : Prop :=
  ∃ tree, v.tree? = some tree ∧ b.Unfolds h tree

/-- Handles stand for what values mean to a host, one for one. -/
def HoldsAll (b : Arena) (values : List Value) (handles : List Handle) : Prop :=
  ∃ trees, Value.trees? values = some trees ∧ b.UnfoldsAll handles trees

variable {a b : Arena}

theorem HoldsAll.nil : b.HoldsAll [] [] := ⟨[], rfl, .nil⟩

theorem HoldsAll.cons {v : Value} {h : Handle} {values : List Value} {handles : List Handle}
    (hv : b.Holds v h) (hvs : b.HoldsAll values handles) :
    b.HoldsAll (v :: values) (h :: handles) := by
  obtain ⟨tree, htree, hunfolds⟩ := hv
  obtain ⟨trees, htrees, hall⟩ := hvs
  exact ⟨tree :: trees, by simp [Value.trees?, htree, htrees], .cons hunfolds hall⟩

theorem Holds.extend (he : a.Extends b) {v : Value} {h : Handle} (hv : a.Holds v h) :
    b.Holds v h := by
  obtain ⟨tree, htree, hunfolds⟩ := hv
  exact ⟨tree, htree, hunfolds.extend he⟩

theorem HoldsAll.extend (he : a.Extends b) {values : List Value} {handles : List Handle}
    (hvs : a.HoldsAll values handles) : b.HoldsAll values handles := by
  obtain ⟨trees, htrees, hall⟩ := hvs
  exact ⟨trees, htrees, hall.extend he⟩

theorem Holds.array {items : List Value} {handles : List Handle} {h : Handle}
    (hget : b.get h = .ok (.array handles)) (hall : b.HoldsAll items handles) :
    b.Holds (.array items) h := by
  obtain ⟨trees, htrees, hunfolds⟩ := hall
  exact ⟨.array trees, by rw [Value.tree?, htrees, Option.map_some], .array hget hunfolds⟩

theorem Holds.object {entries : List (String × Value)} {handles : List Handle} {h : Handle}
    (hlength : handles.length = entries.length)
    (hget : b.get h = .ok (.object ((entries.map Prod.fst).zip handles)))
    (hall : b.HoldsAll (entries.map Prod.snd) handles) : b.Holds (.map entries) h := by
  obtain ⟨trees, htrees, hunfolds⟩ := hall
  have hkeys : ((entries.map Prod.fst).zip handles).map Prod.fst = entries.map Prod.fst :=
    List.map_fst_zip (by simp [hlength])
  have hparts : ((entries.map Prod.fst).zip handles).map Prod.snd = handles :=
    List.map_snd_zip (by simp [hlength])
  have hobject := Unfolds.object hget (by rw [hparts]; exact hunfolds)
  rw [hkeys] at hobject
  exact ⟨_, by rw [Value.tree?, Value.properties?_eq_zip _ _ htrees, Option.map_some], hobject⟩

/-! ## Building in step with the nodes -/

/-- From `n` nodes on, of at most `most`, a region with these roots has been added to `a`, and a
node visited for each slot. -/
structure Built (a : Arena) (n most : Nat) (new : List HostValue) (roots : List Handle)
    (s : Visit Arena) : Prop where
  host : s.host = a.addAll new
  visited : s.visited = n + new.length
  visited_le : s.visited ≤ most
  grown : Grown a.slots.size new roots

/-- A value has been built, in the last slot. -/
def Made (a : Arena) (n most : Nat) (v : Value) (h : Handle) (s : Visit Arena) : Prop :=
  ∃ below w, Built a n most (below ++ [w]) [h] s ∧ h = handleAt (a.slots.size + below.length) ∧
    (s.host.slots.size ≤ 2 ^ 32 → s.host.Holds v h)

theorem Made.visited_le {n most : Nat} {v : Value} {h : Handle} {s : Visit Arena}
    (hv : Made a n most v h s) : s.visited ≤ most := by
  obtain ⟨_, _, hbuilt, _⟩ := hv
  exact hbuilt.visited_le

/-- Values have been built, one after the other. -/
def MadeAll (a : Arena) (n most : Nat) (values : List Value) (handles : List Handle)
    (s : Visit Arena) : Prop :=
  handles.length = values.length ∧ ∃ new, Built a n most new handles s ∧
    (s.host.slots.size ≤ 2 ^ 32 → s.host.HoldsAll values handles)

/-- Building ended early, with `levels` levels left.  No more slots were added than nodes allowed,
and if the count is at its end, all nodes but one on each level have a slot.  What was built so far
are trees that nothing refers to. -/
def Stopped (a : Arena) (n most levels : Nat) (e : Abort ConversionError) (host : Arena) : Prop :=
  ∃ new, host = a.addAll new ∧ n + new.length ≤ most ∧
    (∀ detail, e = .panic detail → 2 ^ 64 ≤ n + new.length + levels) ∧
    ∃ roots, Grown a.slots.size new roots

section Build

variable {n most levels : Nat}

theorem create_apply (w : HostValue) (a : Arena) :
    HostRuntime.create w a = .ok (handleAt a.slots.size) (a.addAll [w]) := by
  have halloc : HostRuntime.create w a = .ok (a.alloc w).1 (a.alloc w).2 := rfl
  rw [halloc, alloc_eq]

/-- A whole is pushed on top of its parts. -/
theorem made_create {v : Value} {w : HostValue} {new : List HostValue} {roots : List Handle}
    {s : Visit Arena} (hs : Built a (n + 1) most new roots s) (hw : w.parts = roots)
    (hholds : (a.addAll (new ++ [w])).slots.size ≤ 2 ^ 32 →
      (a.addAll (new ++ [w])).Holds v (handleAt (a.slots.size + new.length))) :
    Walk.Follows (.ok s.visited) (Made a n most v) (Stopped a n most levels)
      (Walk.onHost (HostRuntime.create w) s) := by
  obtain ⟨host, m⟩ := s
  obtain ⟨rfl, rfl, hle, hgrown⟩ := hs
  rw [Walk.onHost_of_ok (create_apply w _), size_addAll, addAll_addAll]
  refine ⟨rfl, new, w, ⟨rfl, ?_, hle, hgrown.push hw⟩, rfl, hholds⟩
  simp only [List.length_append, List.length_singleton]
  omega

theorem Stopped.after {new : List HostValue} {roots : List Handle} {e : Abort ConversionError}
    {host : Arena} (hnew : Grown a.slots.size new roots)
    (h : Stopped (a.addAll new) (n + new.length) most levels e host) :
    Stopped a n most levels e host := by
  obtain ⟨more, rfl, hle, hpanic, roots', hmore⟩ := h
  rw [size_addAll] at hmore
  refine ⟨new ++ more, addAll_addAll .., ?_, fun detail he => ?_, _, hnew.append hmore⟩
  · rw [List.length_append]
    omega
  · have hend := hpanic detail he
    rw [List.length_append]
    omega

theorem Stopped.above {e : Abort ConversionError} {host : Arena}
    (h : Stopped a (n + 1) most levels e host) : Stopped a n most (levels + 1) e host := by
  obtain ⟨new, rfl, hle, hpanic, hgrown⟩ := h
  refine ⟨new, rfl, by omega, fun detail he => ?_, hgrown⟩
  have hend := hpanic detail he
  omega

theorem MadeAll.cons {v : Value} {h : Handle} {values : List Value} {handles : List Handle}
    {s s' : Visit Arena} (hv : Made a n most v h s)
    (hvs : MadeAll s.host s.visited most values handles s') :
    MadeAll a n most (v :: values) (h :: handles) s' := by
  obtain ⟨below, w, hbuilt, _, hholds⟩ := hv
  obtain ⟨hlength, new, hbuilt', hholds'⟩ := hvs
  generalize below ++ [w] = first at hbuilt
  have hhost : s'.host = s.host.addAll new := hbuilt'.host
  refine ⟨by simp [hlength], first ++ new, ⟨?_, ?_, hbuilt'.visited_le, ?_⟩, fun hsize => ?_⟩
  · rw [hhost, hbuilt.host, addAll_addAll]
  · rw [hbuilt'.visited, hbuilt.visited, List.length_append, Nat.add_assoc]
  · have hgrown := hbuilt'.grown
    rw [hbuilt.host, size_addAll] at hgrown
    exact hbuilt.grown.append hgrown
  · have hsmaller : s.host.slots.size ≤ 2 ^ 32 := by
      rw [hhost, size_addAll] at hsize
      omega
    refine .cons (Holds.extend ?_ (hholds hsmaller)) (hholds' hsize)
    rw [hhost]
    exact extends_addAll _ _

theorem madeAll_each {step : Value → Walk Arena Handle}
    (hstep : ∀ {a n} v, n ≤ most → Walk.Follows (survey Value.parts Value.fault? most levels v n)
      (Made a n most v) (Stopped a n most levels) (step v ⟨a, n⟩)) (items : List Value)
    (hn : n ≤ most) :
    Walk.Follows (surveyAll Value.parts Value.fault? most levels items n)
      (MadeAll a n most items) (Stopped a n most levels) (Walk.each step items ⟨a, n⟩) := by
  induction items generalizing a n with
  | nil =>
    exact ⟨rfl, rfl, [], ⟨(addAll_nil a).symm, rfl, hn, .nil _⟩, fun _ => .nil⟩
  | cons v rest ih =>
    refine Walk.Follows.each_cons (s := ⟨a, n⟩) (hstep v hn) fun h s hv => ?_
    have hrest := ih (a := s.host) (n := s.visited) hv.visited_le
    refine hrest.mono (fun hs s' hall => .cons hv hall) fun e host' hstop => ?_
    obtain ⟨below, w, ⟨hhost, hvisited, _, hgrown⟩, _, _⟩ := hv
    rw [hhost, hvisited] at hstop
    exact hstop.after hgrown

theorem stopped_of_visit {e : Abort ConversionError} (hn : n ≤ most)
    (hpanic : ∀ detail, e = .panic detail → n + 1 = 2 ^ 64) :
    Stopped a n most (levels + 1) e a := by
  refine ⟨[], (addAll_nil a).symm, hn, fun detail he => ?_, [], .nil _⟩
  have hend := hpanic detail he
  rw [List.length_nil]
  omega

/-- Parts stand for the same once there is a whole. -/
theorem holdsAll_below {new : List HostValue} {handles : List Handle} {items : List Value}
    {s : Visit Arena} (hbuilt : Built a (n + 1) most new handles s)
    (hholds : s.host.slots.size ≤ 2 ^ 32 → s.host.HoldsAll items handles) {w : HostValue}
    (hsize : (a.addAll (new ++ [w])).slots.size ≤ 2 ^ 32) :
    (a.addAll (new ++ [w])).HoldsAll items handles := by
  rw [← addAll_addAll, ← hbuilt.host] at hsize ⊢
  rw [size_addAll] at hsize
  exact (hholds (by omega)).extend (extends_addAll _ _)

/-- A value without parts is built in one slot. -/
theorem made_leaf {v : Value} {w : HostValue} (hm : n + 1 ≤ most) (hw : w.parts = [])
    (hleaf : w.leaf?.isSome) (htree : v.tree? = w.leaf?) :
    Walk.Follows (.ok (n + 1)) (Made a n most v) (Stopped a n most levels)
      (Walk.onHost (HostRuntime.create w) ⟨a, n + 1⟩) := by
  have hbuilt : Built a (n + 1) most [] [] ⟨a, n + 1⟩ := ⟨(addAll_nil a).symm, rfl, hm, .nil _⟩
  refine made_create hbuilt hw fun hsize => ?_
  obtain ⟨tree, hsome⟩ := Option.isSome_iff_exists.mp hleaf
  exact ⟨tree, htree.trans hsome, .leaf (get_addAll_new rfl hsize) hsome⟩

/-- A value is built in step with the survey of its nodes. -/
theorem made_exportNode (v : Value) (hn : n ≤ most) :
    Walk.Follows (survey Value.parts Value.fault? most levels v n) (Made a n most v)
      (Stopped a n most levels) (exportNode most levels v ⟨a, n⟩) := by
  induction levels generalizing a n v with
  | zero => exact ⟨rfl, [], (addAll_nil a).symm, hn, nofun, [], .nil _⟩
  | succ levels ih =>
    unfold exportNode
    refine Walk.Follows.visit (fun e hpanic => stopped_of_visit hn hpanic) fun hm => ?_
    have hitems : ∀ items, Walk.Follows
        (surveyAll Value.parts Value.fault? most levels items (n + 1))
        (MadeAll a (n + 1) most items) (Stopped a n most (levels + 1))
        (Walk.each (exportNode most levels) items ⟨a, n + 1⟩) := fun items =>
      (madeAll_each ih items hm).mono (fun _ _ h => h) fun _ _ h => h.above
    cases v with
    | array items =>
      refine (hitems items).bind_still fun handles s hs => ?_
      obtain ⟨_, new, hbuilt, hholds⟩ := hs
      refine made_create hbuilt rfl fun hsize => ?_
      have hget := get_addAll_new List.getElem?_concat_length hsize
      exact .array hget (holdsAll_below hbuilt hholds hsize)
    | map entries =>
      dsimp only
      rw [Walk.eachEntry_eq, bind_map_left]
      refine (hitems (entries.map Prod.snd)).bind_still fun handles s hs => ?_
      obtain ⟨hlength, new, hbuilt, hholds⟩ := hs
      rw [List.length_map] at hlength
      refine made_create hbuilt (List.map_snd_zip (by simp [hlength])) fun hsize => ?_
      have hget := get_addAll_new List.getElem?_concat_length hsize
      exact .object hlength hget (holdsAll_below hbuilt hholds hsize)
    | ptr address => exact ⟨rfl, (stopped_of_visit hn nofun)⟩
    | s8 x => exact made_leaf hm rfl rfl (by simp [Value.tree?, HostValue.leaf?])
    | s16 x => exact made_leaf hm rfl rfl (by simp [Value.tree?, HostValue.leaf?])
    | s32 x => exact made_leaf hm rfl rfl (by simp [Value.tree?, HostValue.leaf?])
    | _ => exact made_leaf hm rfl rfl rfl

end Build

/-! ## Whole values -/

theorem fault?_eq_none_iff {v : Value} : v.fault? = none ↔ ∀ address, v ≠ .ptr address := by
  cases v <;> simp [Value.fault?]

/-- The nodes of a value are counted by its survey. -/
theorem length_nodes {most m : Nat} {v : Value}
    (h : survey Value.parts Value.fault? most (maxDepth + 1) v 0 = .ok m) : v.nodes.length = m := by
  obtain ⟨hclean, hend⟩ := survey_root_ok h
  rw [Value.visited_eq, List.getElem?_eq_none_iff] at hend
  refine Nat.le_antisymm hend ?_
  by_contra hlt
  obtain ⟨node, hnode, _⟩ := hclean v.nodes.length (Nat.not_le.mp hlt)
  rw [Value.visited_eq, List.getElem?_eq_none (Nat.le_refl _)] at hnode
  cases hnode

/-- **Exactly the value**: a value is built if it has no more nodes than allowed, none is too deep
and none is a pointer.  Then one slot is added for each node, parts before wholes, the handle is
that of the last slot, and it unfolds to the value.  Otherwise the error is that of the first node
that offends, by its depth, else by its number, else by what it is, and no more slots are added than
nodes are allowed.  Nothing else in the arena changes.  Assumed is only that the slots all have
handles in the end. -/
theorem toHost_exact (limits : Limits) (v : Value) (a : Arena)
    (hsize : (Action.final (toHost limits v) a).slots.size < 2 ^ 32) :
    ((∃ h b, toHost limits v a = .ok h b) ↔
      v.nodes.length ≤ limits.maxNodes.toNat ∧
        ∀ depth u, (depth, u) ∈ v.nodes → depth ≤ maxDepth ∧ ∀ address, u ≠ .ptr address) ∧
    (∀ h b, toHost limits v a = .ok h b → ∃ new tree, b = a.addAll new ∧
      new.length = v.nodes.length ∧ Grown a.slots.size new [h] ∧
      h.slot.toNat + 1 = b.slots.size ∧ v.tree? = some tree ∧ b.Unfolds h tree) ∧
    (∀ abort b, toHost limits v a = .error abort b → ∃ new, b = a.addAll new ∧
      new.length ≤ limits.maxNodes.toNat ∧
      ∃ n node e, v.nodes[n]? = some node ∧ abort = .error e ∧
        offence? Value.fault? limits.maxNodes.toNat n node = some e ∧
        ∀ i < n, ∃ earlier, v.nodes[i]? = some earlier ∧
          offence? Value.fault? limits.maxNodes.toNat i earlier = none) := by
  have hmade : Walk.Follows
      (survey Value.parts Value.fault? limits.maxNodes.toNat (maxDepth + 1) v 0)
      (Made a 0 limits.maxNodes.toNat v) (Stopped a 0 limits.maxNodes.toNat (maxDepth + 1))
      (exportNode limits.maxNodes.toNat (maxDepth + 1) v ⟨a, 0⟩) :=
    made_exportNode v (Nat.zero_le _)
  have hcount : ∀ detail, survey Value.parts Value.fault? limits.maxNodes.toNat (maxDepth + 1) v 0 ≠
      .error (.panic detail) := by
    intro detail hpanic
    cases hv : toHost limits v a with
    | ok h b =>
      obtain ⟨m, hm, _⟩ := hmade.of_start_ok hv
      cases hm.symm.trans hpanic
    | error abort b =>
      obtain ⟨habort, new, rfl, _, hend, _⟩ := hmade.of_start_error hv
      have hlong := hend detail (Except.error.inj (habort.symm.trans hpanic))
      rw [Action.final_of_error hv, size_addAll] at hsize
      simp only [maxDepth] at hlong
      omega
  refine ⟨?_, fun h b hv => ?_, fun abort b hv => ?_⟩
  · have hfine := survey_root_ok_iff hcount
    simp only [Prod.forall, fault?_eq_none_iff, Value.visited_eq,
      List.getElem?_eq_none_iff] at hfine
    rw [toHost, hmade.start_ok_iff, hfine]
    refine and_congr_right fun _ => ⟨fun h depth u hmem => ?_, fun h n depth u hn => ?_⟩
    · obtain ⟨n, hn⟩ := List.mem_iff_getElem?.mp hmem
      exact h n depth u hn
    · exact h depth u (List.mem_of_getElem? hn)
  · obtain ⟨m, hm, below, w, ⟨hhost, hvisited, _, hgrown⟩, rfl, hholds⟩ := hmade.of_start_ok hv
    rw [Action.final_of_ok hv] at hsize
    obtain ⟨tree, htree, hunfolds⟩ := hholds (Nat.le_of_lt hsize)
    refine ⟨below ++ [w], tree, hhost, ?_, hgrown, ?_, htree, hunfolds⟩
    · rw [length_nodes hm]
      simpa using hvisited.symm
    · simp only at hhost
      rw [hhost, size_addAll, List.length_append, List.length_singleton] at hsize ⊢
      rw [slot_handleAt (by omega), Nat.add_assoc]
  · obtain ⟨hs, new, rfl, hle, _⟩ := hmade.of_start_error hv
    refine ⟨new, rfl, by omega, ?_⟩
    cases abort with
    | panic detail => exact absurd hs (hcount detail)
    | error e =>
      obtain ⟨n, node, hclean, hnode, ho⟩ := survey_root_error hs
      simp only [CleanUpTo, Value.visited_eq] at hclean hnode
      exact ⟨n, node, e, hnode, rfl, ho, hclean⟩

/-- A map with an array of two in it takes four slots behind the one there was. -/
theorem toHost_exact_nested :
    let v : Value := .map [("k", .array [.s8 5, .null])]
    let a : Arena := { slots := #[.symbol] }
    (Action.final (toHost {} v) a).slots.size < 2 ^ 32 ∧
      ∃ h b, toHost {} v a = .ok h b ∧ h.slot.toNat = 4 := by
  intro v a
  have hsize : (Action.final (toHost {} v) a).slots.size < 2 ^ 32 := by decide
  obtain ⟨hiff, hok, _⟩ := toHost_exact {} v a hsize
  have hnodes : v.nodes =
      [(0, v), (1, .array [.s8 5, .null]), (2, .s8 5), (2, .null)] := by rfl
  have hbuilt : ∃ h b, toHost {} v a = .ok h b := by
    refine hiff.mpr ⟨by rw [hnodes]; decide, fun depth u hu => ?_⟩
    rw [hnodes] at hu
    simp only [List.mem_cons, Prod.mk.injEq, List.not_mem_nil, or_false] at hu
    rcases hu with ⟨rfl, rfl⟩ | ⟨rfl, rfl⟩ | ⟨rfl, rfl⟩ | ⟨rfl, rfl⟩ <;> exact ⟨by decide, nofun⟩
  obtain ⟨h, b, hv⟩ := hbuilt
  obtain ⟨new, tree, rfl, hlength, _, hlast, _⟩ := hok h b hv
  rw [size_addAll, hlength, hnodes] at hlast
  exact ⟨hsize, h, _, hv, Nat.succ.inj hlast⟩

end Arena

end ForeignCall
