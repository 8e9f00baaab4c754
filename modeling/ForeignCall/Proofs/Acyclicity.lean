import ForeignCall.Proofs.Atomicity
import ForeignCall.Proofs.Invocation
import ForeignCall.Proofs.JsonTrees

/-!
# ForeignCall.Proofs.Acyclicity

Whatever is done with a host, values are only added, parts before wholes.

`Arena.Rises a b` — `b` is `a` with values behind its own, each of which refers
to slots before its own.  Where every value of `a` does so (`a.WellFounded`)
every value of `b` does, too, and then nothing contains itself: each handle has
a JSON view, and the view of a handle of `a` in `b` is the one that it had.

JSON is built item by item, and an engine's value likewise; one that is given
up halfway leaves finished trees without a root.  The bridge asks for nothing
else, so an entry point rises however it ends (`closed_rises`), and so does any
sequence of calls with new values in between.
-/

namespace ForeignCall

open Bridge Marshal

namespace Arena

variable {a b c : Arena}

/-! ## Values on top of each other -/

/-- From slot `base` on, each value refers to slots before its own. -/
def Stacked (base : Nat) (new : List HostValue) : Prop :=
  ∀ i v, new[i]? = some v → ∀ part ∈ v.parts, part.slot.toNat < base + i

/-- Values were added, each of which refers to slots before its own. -/
def Rises (a b : Arena) : Prop :=
  ∃ new : List HostValue, b.slots = a.slots ++ new.toArray ∧ Stacked a.slots.size new

/-- All handles have a value. -/
def Within (a : Arena) (handles : List Handle) : Prop :=
  ∀ h ∈ handles, h.slot.toNat < a.slots.size

theorem rises_of_slots_eq (h : b.slots = a.slots) : a.Rises b :=
  ⟨[], by simp [h], fun i v hv => by cases hv⟩

theorem Rises.refl (a : Arena) : a.Rises a := rises_of_slots_eq rfl

theorem Stacked.append {base : Nat} {new more : List HostValue} (h : Stacked base new)
    (h' : Stacked (base + new.length) more) : Stacked base (new ++ more) := by
  intro i v hv part hpart
  by_cases hi : i < new.length
  · rw [List.getElem?_append_left hi] at hv
    exact h i v hv part hpart
  · rw [List.getElem?_append_right (Nat.not_lt.mp hi)] at hv
    have hbelow := h' _ v hv part hpart
    omega

theorem Rises.trans (hab : a.Rises b) (hbc : b.Rises c) : a.Rises c := by
  obtain ⟨new, hb, hnew⟩ := hab
  obtain ⟨more, hc, hmore⟩ := hbc
  have hsize : b.slots.size = a.slots.size + new.length := by simp [hb]
  rw [hsize] at hmore
  exact ⟨new ++ more, by simp [hc, hb], hnew.append hmore⟩

theorem Extends.size_le (h : a.Extends b) : a.slots.size ≤ b.slots.size := by
  by_contra hless
  have hlast := h b.slots.size _ (Array.getElem?_eq_getElem (Nat.not_le.mp hless))
  rw [Array.getElem?_eq_none (Nat.le_refl _)] at hlast
  cases hlast

theorem Rises.size_le (h : a.Rises b) : a.slots.size ≤ b.slots.size := by
  obtain ⟨new, hb, -⟩ := h
  simp [hb]

theorem Rises.slots_old (h : a.Rises b) {i : Nat} (hi : i < a.slots.size) :
    b.slots[i]? = a.slots[i]? := by
  obtain ⟨new, hb, -⟩ := h
  rw [hb, Array.getElem?_append_left hi]

/-- Where each value refers to earlier slots, values put on top do so too. -/
theorem Rises.wellFounded (h : a.Rises b) (ha : a.WellFounded) : b.WellFounded := by
  obtain ⟨new, hb, hnew⟩ := h
  intro i v hv part hpart
  rw [hb] at hv
  by_cases hi : i < a.slots.size
  · rw [Array.getElem?_append_left hi] at hv
    exact ha i v hv part hpart
  · rw [Array.getElem?_append_right (Nat.not_lt.mp hi), List.getElem?_toArray] at hv
    have hbelow := hnew _ v hv part hpart
    omega

/-! ## New values -/

theorem slot_handleAt_le (i : Nat) : (handleAt i).slot.toNat ≤ i :=
  Nat.mod_le i _

theorem rises_alloc {v : HostValue} (h : a.Within v.parts) : a.Rises (a.alloc v).2 := by
  refine ⟨[v], by simp [alloc_eq, addAll], fun i w hw part hpart => ?_⟩
  rw [List.getElem?_singleton] at hw
  split at hw
  · cases hw
    exact Nat.lt_add_right i (h part hpart)
  · cases hw

/-- Trees that were built refer only to what was built before. -/
theorem Grown.stacked {base : Nat} {new : List HostValue} {roots : List Handle}
    (h : Grown base new roots) : Stacked base new := by
  intro i v hv part hpart
  obtain ⟨j, hj, rfl⟩ := h.earlier i v hv part hpart
  exact Nat.lt_of_le_of_lt (slot_handleAt_le _) (by omega)

theorem Grown.rises {new : List HostValue} {roots : List Handle}
    (h : Grown a.slots.size new roots) : a.Rises (a.addAll new) :=
  ⟨new, rfl, h.stacked⟩

/-- JSON is built parts before wholes. -/
theorem rises_ofJson (a : Arena) (json : Json) : a.Rises (a.ofJson json).2 := by
  obtain ⟨⟨new, hnew, hgrown⟩, -⟩ := planted_ofJson a json
  rw [hnew]
  exact hgrown.rises

/-- A string that is made of another value is a new one, or there is none. -/
theorem rises_of_coerce {h : Handle} {result : Handle × Arena} (hc : a.coerce h = .ok result) :
    a.Rises result.2 := by
  rcases coerce_cases hc with hsame | ⟨text, hnew⟩
  · exact hsame ▸ .refl a
  · exact hnew ▸ rises_alloc nofun

theorem rises_coerceToString (h : Handle) :
    Action.Moves Rises (HostRuntime.coerceToString h : Action Arena HostError Handle) := by
  intro a
  simp only [Action.final, HostRuntime.coerceToString]
  cases hc : a.coerce h with
  | ok result => exact rises_of_coerce hc
  | error e => exact .refl a

/-- However a value is converted, it is built parts before wholes, as far as it is. -/
theorem rises_toHost (limits : Limits) (v : Value) : Action.Moves Rises (toHost limits v) := by
  intro a
  cases hv : toHost limits v a with
  | ok h b =>
    obtain ⟨_, _, below, w, ⟨rfl, _, _, hgrown⟩, _, _⟩ :=
      (made_exportNode v (Nat.zero_le _)).of_start_ok hv
    rw [Action.final_of_ok hv]
    exact hgrown.rises
  | error abort b =>
    obtain ⟨_, new, rfl, _, _, roots, hgrown⟩ :=
      (made_exportNode v (Nat.zero_le _)).of_start_error hv
    rw [Action.final_of_error hv]
    exact hgrown.rises

/-! ## No way around -/

/-- Nothing contains itself where each value refers to earlier slots. -/
theorem WellFounded.isSome_toJsonWithin (ha : a.WellFounded) (h : Handle) :
    ∃ levels, (a.toJsonWithin levels h).isSome = true := by
  suffices hbelow : ∀ n (h : Handle), h.slot.toNat < n →
      (a.toJsonWithin (n + 1) h).isSome = true from ⟨_, hbelow _ h (Nat.lt_succ_self _)⟩
  intro n
  induction n with
  | zero => exact fun h hh => absurd hh (Nat.not_lt_zero _)
  | succ n ih =>
    intro h hh
    cases hv : a.slots[h.slot.toNat]? with
    | none => rw [toJsonWithin_missing hv]; rfl
    | some v =>
      rw [toJsonWithin_slot hv, Option.isSome_map, isSome_mapM]
      intro part hpart
      exact ih part (Nat.lt_of_lt_of_le (ha _ v hv part hpart) (Nat.le_of_lt_succ hh))

/-- Values on top do not show in the views of what was there. -/
theorem Rises.toJsonWithin_eq (hab : a.Rises b) (ha : a.WellFounded) (levels : Nat) {h : Handle}
    (hh : h.slot.toNat < a.slots.size) : b.toJsonWithin levels h = a.toJsonWithin levels h := by
  induction levels generalizing h with
  | zero => rfl
  | succ levels ih =>
    have hv : a.slots[h.slot.toNat]? = some a.slots[h.slot.toNat] := Array.getElem?_eq_getElem hh
    have hparts : ∀ part ∈ a.slots[h.slot.toNat].parts,
        b.toJsonWithin levels part = a.toJsonWithin levels part := fun part hpart =>
      ih (Nat.lt_trans (ha _ _ hv part hpart) hh)
    rw [toJsonWithin_slot hv, toJsonWithin_slot ((hab.slots_old hh).trans hv)]
    exact congrArg _ (mapM_congr hparts)

end Arena

/-! ## Operations -/

namespace Bridge

variable {α ε : Type}

theorem rises_asked {action : Action Arena ε α} (h : Asked action) :
    Action.Moves Arena.Rises action := by
  cases h with
  | query h =>
    cases h with
    | coerceToString h => exact Arena.rises_coerceToString h
    | _ => exact Action.Moves.look .refl _
  | create text => exact fun a => Arena.rises_alloc nofun
  | toValue limits h =>
    intro a
    cases hv : toValue limits h a with
    | ok v b => rw [Action.final_of_ok hv, toValue_frame hv]; exact .refl a
    | error e b => rw [Action.final_of_error hv, toValue_frame_error hv]; exact .refl a
  | toHost limits v => exact Arena.rises_toHost limits v

/-- Whatever a module runs puts values on top of those that the host has. -/
theorem closed_rises [Memory] : @Closed _ Arena _ fun _ _ =>
    Action.Moves fun w v : World Arena => w.host.Rises v.host :=
  closed_host .refl .trans rises_asked

end Bridge

/-! ## Sites -/

namespace Site

/-- A call puts values on top of those that the host has, however it ends. -/
theorem rises_call [Memory] (s : Site Arena) (name : String) (args : List Handle) :
    s.host.Rises (s.call name args).2.host := by
  have hrun (entry : Export) : s.host.Rises (Action.final (s.module.run args entry) s.world).host :=
    closed_rises.run s.module args entry s.world
  rcases call_cases s name args with ⟨-, hcall⟩ | ⟨entry, -, ⟨value, w, hok, hcall⟩ |
    ⟨abort, w, herror, hcall⟩⟩
  · rw [hcall]
    exact Arena.rises_of_slots_eq rfl
  · rw [hcall]
    exact Action.final_of_ok hok ▸ hrun entry
  · have hrises := hrun entry
    rw [Action.final_of_error herror] at hrises
    rw [hcall]
    exact hrises.trans (Arena.rises_of_slots_eq rfl)

/-- What is done at a site from outside, one thing at a time. -/
inductive Turn [Memory] : Site Arena → Site Arena → Prop where
  /-- JSON is built. -/
  | build (s : Site Arena) (json : Json) : Turn s { s with host := (s.host.ofJson json).2 }
  /-- A value is made, of values that are there. -/
  | create (s : Site Arena) (v : HostValue) : s.host.Within v.parts →
      Turn s { s with host := (s.host.alloc v).2 }
  /-- A string is made of a value, unless that fails. -/
  | coerce (s : Site Arena) (h : Handle) :
      Turn s { s with host := Action.final (HostRuntime.coerceToString h) s.host }
  /-- The newest error is taken. -/
  | takeError (s : Site Arena) : Turn s { s with host := s.host.takeError.2 }
  /-- An entry point is called, or one that there is not. -/
  | call (s : Site Arena) (name : String) (args : List Handle) : Turn s (s.call name args).2

variable {s t : Site Arena}

theorem Turn.rises [Memory] (h : Turn s t) : s.host.Rises t.host := by
  cases h with
  | build json => exact Arena.rises_ofJson s.host json
  | create v hparts => exact Arena.rises_alloc hparts
  | coerce h => exact Arena.rises_coerceToString h s.host
  | takeError => exact Arena.rises_of_slots_eq rfl
  | call name args => exact s.rises_call name args

theorem rises_run [Memory] (h : Relation.ReflTransGen Turn s t) : s.host.Rises t.host := by
  induction h with
  | refl => exact .refl s.host
  | tail _ hturn ih => exact ih.trans hturn.rises

/-- **Nothing contains itself**: whatever is done at a site where each value refers to earlier
slots, the values that were there are left as they were and those that are added refer to slots
before their own.  Then each handle has a JSON view, which is seen however many more levels than
there are slots are looked into, and that of a handle that had a value before is what it was. -/
theorem acyclic_run [Memory] (hs : s.host.WellFounded) (hrun : Relation.ReflTransGen Turn s t) :
    s.host.Rises t.host ∧ t.host.WellFounded ∧
    (∀ h, ∃ json, t.host.toJson? h = some json ∧
      ∀ levels, t.host.slots.size < levels → t.host.toJsonWithin levels h = some json) ∧
    ∀ h, h.slot.toNat < s.host.slots.size → t.host.toJson? h = s.host.toJson? h := by
  have hrises := rises_run hrun
  have ht := hrises.wellFounded hs
  refine ⟨hrises, ht, fun h => ?_, fun h hh => Option.ext fun json => ?_⟩
  · obtain ⟨levels, hsome⟩ := ht.isSome_toJsonWithin h
    obtain ⟨json, hview⟩ := Option.isSome_iff_exists.mp hsome
    have hjson := Arena.toJson?_eq_some_iff.mpr ⟨levels, hview⟩
    exact ⟨json, hjson, fun more hmore => Arena.toJsonWithin_mono hmore hjson⟩
  · simp only [Arena.toJson?_eq_some_iff, hrises.toJsonWithin_eq hs _ hh]

/-- An array that was built looks the same after a function broke down that was called with it. -/
theorem acyclic_run_built :
    let s : Site Arena :=
      { brittle with host := (({} : Arena).ofJson (.array [.string "boom", .array [.null]])).2 }
    let t : Site Arena := (s.call "invoke" [⟨0⟩, ⟨3⟩]).2
    s.host.WellFounded ∧ Relation.ReflTransGen Turn s t ∧
      t.host.toJson? ⟨3⟩ = some (.array [.string "boom", .array [.null]]) := by
  intro s t
  have hempty : ({} : Arena).WellFounded := fun i v hv => by cases hv
  have hs : s.host.WellFounded := (Arena.rises_ofJson {} _).wellFounded hempty
  have hrun : Relation.ReflTransGen Turn s t := .single (.call s "invoke" [⟨0⟩, ⟨3⟩])
  obtain ⟨-, -, -, hold⟩ := acyclic_run hs hrun
  exact ⟨hs, hrun, (hold ⟨3⟩ (by decide)).trans rfl⟩

end Site

end ForeignCall
