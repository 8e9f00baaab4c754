import ForeignCall.Proofs.Holders

/-!
# ForeignCall.Proofs.Lifecycle

The lifecycle of policies over whole runs.

A run keeps the agreement of a bench with its roll, since each step does.  So
after any history the holders of a stream are the policies that were created
over it and have not let go (`Bench.orderly_run`).  On the way:

* letting go — destroying, dropping, clearing — changes nothing about a stream
  but its holders (`Untouched`);
* no step takes octets out of a stream or alters them (`Kept`);
* a policy that has let go refuses every write and flush.
-/

namespace ForeignCall

namespace Log

namespace Bench

/-! ## Runs -/

/-- The bench after a run of steps. -/
abbrev after (b : Bench) (steps : List Step) : Bench :=
  Run.after step b steps

/-- The steps of a run, each with its answer. -/
abbrev history (b : Bench) (steps : List Step) : List (Step × Answer) :=
  Run.history step b steps

/-- **Agreement along a run.** -/
theorem Accounts.run {b : Bench} {r : Roll} (h : b.Accounts r) (steps : List Step) :
    (b.after steps).Accounts
      ((b.history steps).foldl (fun r entry => r.record entry.1 entry.2) r) :=
  Run.agrees_after (fun _ _ s hagrees => hagrees.step s) h steps

/-- A bench where nothing has happened: there are streams, which nobody holds. -/
theorem Accounts.fresh (registry : Registry) {streams : Streams}
    (h : ∀ s ∈ streams, s.holders = 0) : ({ registry, streams } : Bench).Accounts {} where
  size := rfl
  fits n p hp := by simp at hp
  loggers := rfl
  attached l id := by simp [attachedTo, Roll.attached]
  holders _ s hs := h s (Array.mem_of_getElem? hs)

/-! ## What happens to the streams -/

/-- Destroying, dropping or clearing policies. -/
def Step.Releases : Step → Prop
  | .destroy _ | .drop _ | .clear _ => True
  | _ => False

/-- Streams that differ in their holders at most. -/
def Untouched (streams later : Streams) : Prop :=
  ∀ (id : Nat) (s : Stream), streams[id]? = some s →
    ∃ holders, later[id]? = some (s.heldBy holders)

theorem Untouched.refl (streams : Streams) : Untouched streams streams :=
  fun _ s hs => ⟨s.holders, hs⟩

theorem untouched_of_map {streams later : Streams} {f : Nat → Stream → Nat}
    (h : ∀ id : Nat, later[id]? = streams[id]?.map fun s => s.heldBy (f id s)) :
    Untouched streams later :=
  fun id s hs => ⟨f id s, by rw [h, hs]; rfl⟩

/-- Letting go writes and flushes nothing. -/
theorem untouched_of_releases (b : Bench) {s : Step} (h : s.Releases) :
    Untouched b.streams (b.step s).2.streams := by
  cases s <;> try exact h.elim
  case destroy n =>
    simp only [step]
    cases b.policy? n with
    | none => exact .refl _
    | some p => exact untouched_of_map (Streams.getElem?_destroy p b.streams)
  case drop n =>
    simp only [step]
    cases b.policy? n with
    | none => exact .refl _
    | some p => exact untouched_of_map (Streams.getElem?_destroy p b.streams)
  case clear l =>
    simp only [step]
    cases b.loggers[l]? with
    | none => exact .refl _
    | some logger => exact untouched_of_map (Streams.getElem?_clear logger b.streams)

/-- Streams that still have what they had. -/
def Kept (streams later : Streams) : Prop :=
  ∀ (id : Nat) (s : Stream), streams[id]? = some s →
    ∃ t, later[id]? = some t ∧ s.content.toList <+: t.content.toList

theorem Untouched.kept {streams later : Streams} (h : Untouched streams later) :
    Kept streams later := fun id s hs =>
  let ⟨_, ht⟩ := h id s hs
  ⟨_, ht, List.prefix_rfl⟩

theorem kept_of_gains {streams later : Streams} (h : streams.Gains later) : Kept streams later :=
  fun id s hs =>
    let ⟨t, ht, hst⟩ := h.each id s hs
    ⟨t, ht, hst.content⟩

/-- No step takes anything out of a stream or changes it. -/
theorem kept_step (b : Bench) (s : Step) : Kept b.streams (b.step s).2.streams := by
  have hrefl : Kept b.streams b.streams := (Untouched.refl _).kept
  have hpolicy {n : Nat} {act : Policy → Streams → Except LogError Unit × Streams}
      (hact : ∀ p streams, Streams.Gains streams (act p streams).2) :
      Kept b.streams (b.onPolicy n act).2.streams := by
    obtain ⟨streams, hgains, hstep⟩ := b.onPolicy_gains n hact
    rw [hstep]
    exact kept_of_gains hgains
  have hlogger {l : Nat} {act : Logger → Streams → Except LogError Unit × Streams}
      (hact : ∀ l streams, Streams.Gains streams (act l streams).2) :
      Kept b.streams (b.onLogger l act).2.streams := by
    obtain ⟨streams, hgains, hstep⟩ := b.onLogger_gains l hact
    rw [hstep]
    exact kept_of_gains hgains
  cases s with
  | register | contains | registry | logger | setMinLevel => exact hrefl
  | create tag data =>
    rcases b.step_create_cases tag data with ⟨e, -, hstep⟩ | ⟨backend, -, hstep⟩
    · rw [hstep]
      exact hrefl
    · rw [hstep]
      exact (untouched_of_map (Streams.getElem?_hold b.streams backend.stream)).kept
  | wrap tag id => exact (untouched_of_map (Streams.getElem?_hold b.streams id)).kept
  | write n bytes => exact hpolicy fun p streams => p.gains_write streams bytes
  | flush n => exact hpolicy Policy.gains_flush
  | destroy n => exact (b.untouched_of_releases (s := .destroy n) trivial).kept
  | drop n => exact (b.untouched_of_releases (s := .drop n) trivial).kept
  | clear l => exact (b.untouched_of_releases (s := .clear l) trivial).kept
  | policy n =>
    simp only [step]
    cases b.policy? n with
    | none => exact hrefl
    | some p => exact hrefl
  | poison id =>
    intro i s hs
    simp only [step, Array.getElem?_modify, hs]
    split_ifs
    · exact ⟨_, rfl, List.prefix_rfl⟩
    · exact ⟨s, rfl, List.prefix_rfl⟩
  | attach l n =>
    simp only [step]
    cases b.policy? n with
    | none => exact hrefl
    | some p =>
      cases b.loggers[l]? with
      | none => exact hrefl
      | some logger => exact hrefl
  | log l level target message =>
    exact hlogger fun logger streams => logger.gains_log level target message streams
  | flushLogger l => exact hlogger Logger.gains_flush
  | state l =>
    simp only [step]
    cases b.loggers[l]? with
    | none => exact hrefl
    | some logger => exact hrefl

/-! ## Destroyed policies -/

namespace Accounts

variable {b : Bench} {r : Roll} {n : Nat} {p : Issued}

/-- What is under the number of a policy that holds nothing any more: the policy without a backend,
or nothing. -/
theorem policy_of_released (h : b.Accounts r) (hp : r.issued[n]? = some p) (hheld : p.held = none) :
    b.policy? n = if p.place = .own then some ⟨p.tag, none⟩ else none := by
  have hfits := h.fits n p hp
  unfold Issued.Fits at hfits
  split at hfits
  · next hplace =>
    obtain ⟨⟨tag, backend⟩, hslot, htag, hbackend⟩ := hfits
    rw [hheld, Option.map_eq_none_iff] at hbackend
    rw [if_pos hplace, hslot]
    exact congrArg some (Policy.mk.injEq .. ▸ ⟨htag, hbackend⟩)
  · next hplace => rw [hfits, if_neg (by simp [hplace])]
  · next hplace => rw [hfits, if_neg (by simp [hplace])]

end Accounts

/-- What can be relied on in a bench with a given roll, whatever comes next. -/
structure Orderly (b : Bench) (r : Roll) : Prop where
  /-- The backends that hold a stream are those on the roll. -/
  holders : ∀ (id : Nat) (s : Stream), b.streams[id]? = some s → s.holders = r.live id
  /-- A policy that cannot be created leaves nothing behind. -/
  create_failed : ∀ tag data e, (b.step (.create tag data)).1 = .failed e →
    (e = .unknownTag tag ∨ ∃ factory, Entries.find? tag b.registry.factories = some factory ∧
      e = .invalidCtor factory.tag) ∧ (b.step (.create tag data)).2 = b
  /-- Destroying what was let go of changes nothing. -/
  destroy_again : ∀ (n : Nat) (p : Issued), r.issued[n]? = some p → p.held = none →
    (b.step (.destroy n)).2 = b
  /-- A destroyed policy refuses, under its tag, to write and to flush. -/
  refused : ∀ (n : Nat) (p : Issued), r.issued[n]? = some p → p.place = .own → p.held = none →
    (∀ bytes, b.step (.write n bytes) = (.failed (.uninitialized p.tag), b)) ∧
      b.step (.flush n) = (.failed (.uninitialized p.tag), b)
  /-- No step removes or alters what is in a stream. -/
  kept : ∀ s, Kept b.streams (b.step s).2.streams
  /-- Letting go writes and flushes nothing. -/
  released : ∀ s : Step, s.Releases → Untouched b.streams (b.step s).2.streams

theorem Accounts.orderly {b : Bench} {r : Roll} (h : b.Accounts r) : b.Orderly r where
  holders := h.holders
  create_failed tag data e he := by
    rcases b.step_create_cases tag data with ⟨e', he', hstep⟩ | ⟨backend, -, hstep⟩
    · rw [hstep] at he ⊢
      obtain rfl : e' = e := Answer.failed.inj he
      exact ⟨he', rfl⟩
    · rw [hstep] at he
      exact Answer.noConfusion he
  destroy_again n p hp hheld := by
    have hslot := h.policy_of_released hp hheld
    simp only [Bench.step]
    split_ifs at hslot
    · rw [hslot]
      obtain ⟨hn, hget⟩ := Array.getElem?_eq_some_iff.mp (Option.join_eq_some_iff.mp hslot)
      simp only [Policy.destroy, Array.setIfInBounds, hn, dif_pos, ← hget, Array.set_getElem_self]
    · rw [hslot]
  refused n p hp hplace hheld := by
    have hslot := h.policy_of_released hp hheld
    rw [if_pos hplace] at hslot
    exact ⟨fun bytes => by simp only [Bench.step, Bench.onPolicy, hslot]; rfl,
      by simp only [Bench.step, Bench.onPolicy, hslot]; rfl⟩
  kept := b.kept_step
  released _ := b.untouched_of_releases

/-- **Lifecycle of policies.**  However policies are created, destroyed, dropped, attached and
cleared, after every step a stream has exactly the holders that the history so far leaves it, and
destroyed policies stay inert, wherever they are. -/
theorem orderly_run (registry : Registry) (streams : Streams)
    (hfresh : ∀ s ∈ streams, s.holders = 0)
    (steps : List Step) :
    let start : Bench := { registry, streams }
    (∀ (i : Nat) (answer : Answer) (later : Streams),
      (start.run steps)[i]? = some (answer, later) →
        ∀ (id : Nat) (s : Stream), later[id]? = some s →
          s.holders = (Roll.ofHistory ((start.history steps).take (i + 1))).live id) ∧
    (start.after steps).Orderly (Roll.ofHistory (start.history steps)) ∧
    ∀ p : Policy, p.isInitialized = false → ∀ (streams : Streams) (bytes : List UInt8),
      p.write streams bytes = (.error (.uninitialized p.tag), streams) ∧
      p.flush streams = (.error (.uninitialized p.tag), streams) ∧
      p.destroy streams = (p, streams) := by
  intro start
  have hfrom (steps : List Step) :
      (start.after steps).Accounts (Roll.ofHistory (start.history steps)) :=
    (Accounts.fresh registry hfresh).run steps
  refine ⟨fun i answer later hrun id s hs => ?_, (hfrom steps).orderly,
    fun p hp streams bytes => ?_⟩
  · rw [Run.getElem?_run, Option.map_eq_some_iff] at hrun
    obtain ⟨_, -, hlater⟩ := hrun
    obtain ⟨-, rfl⟩ := Prod.mk.inj hlater
    rw [← Run.history_take]
    exact (hfrom _).holders id s hs
  · obtain ⟨tag, _ | backend⟩ := p
    · exact ⟨rfl, rfl, rfl⟩
    · exact Bool.noConfusion hp

/-- Of two policies over a stream one is destroyed and one attached, and a third is not created:
one backend still holds the stream. -/
theorem orderly_run_one_left :
    let start : Bench := { registry := .withDefaults, streams := #[{}] }
    let steps : List Step := [.logger none, .create stdioTag (.stdio 0), .wrap "own" 0,
      .create stdioTag .foreign, .attach 0 0, .destroy 1]
    ∀ s, (start.after steps).streams[0]? = some s → s.holders = 1 := by
  intro start steps s hs
  have h := (orderly_run .withDefaults #[{}] (by simp) steps).2.1.holders 0 s hs
  rw [h]
  decide

end Bench

end Log

end ForeignCall
