import ForeignCall.Proofs.Action
import ForeignCall.Proofs.Survey

/-!
# ForeignCall.Proofs.Walk

A walk over values in step with a survey of their nodes.

`Follows` relates what a walk ends with to what a survey ends with: both come
through with the same count, or both end early in the same way.  What else is
known of the result and of the host is carried along.  The rules below take the
walk and the survey one step further together.
-/

namespace ForeignCall

namespace Marshal

namespace Walk

open Survey

variable {σ α β γ : Type}

/-- A walk comes through as the survey does, with `done` of its result and what is visited, or it
ends early as the survey does, with `stopped` of how it does and the host. -/
def Follows (walked : Except (Abort ConversionError) Nat) (done : β → Visit σ → Prop)
    (stopped : Abort ConversionError → σ → Prop) :
    EStateM.Result (Abort ConversionError) (Visit σ) β → Prop
  | .ok b s => walked = .ok s.visited ∧ done b s
  | .error e s => walked = .error e ∧ stopped e s.host

variable {done : β → Visit σ → Prop} {stopped : Abort ConversionError → σ → Prop}

theorem Follows.mono {done' : β → Visit σ → Prop}
    {stopped' : Abort ConversionError → σ → Prop} {walked : Except (Abort ConversionError) Nat}
    {result : EStateM.Result (Abort ConversionError) (Visit σ) β}
    (h : Follows walked done' stopped' result) (hdone : ∀ b s, done' b s → done b s)
    (hstop : ∀ e host, stopped' e host → stopped e host) : Follows walked done stopped result := by
  cases result with
  | ok b s => exact ⟨h.1, hdone b s h.2⟩
  | error e s => exact ⟨h.1, hstop e s.host h.2⟩

theorem Follows.bind {done' : γ → Visit σ → Prop} {walked : Except (Abort ConversionError) Nat}
    {further : Nat → Except (Abort ConversionError) Nat} {walk : Walk σ γ} {next : γ → Walk σ β}
    {s : Visit σ} (h : Follows walked done' stopped (walk s))
    (hnext : ∀ c s', done' c s' → Follows (further s'.visited) done stopped (next c s')) :
    Follows (walked >>= further) done stopped ((walk >>= next) s) := by
  cases hw : walk s with
  | ok c s' =>
    rw [hw] at h
    rw [Action.bind_of_ok hw, h.1]
    exact hnext c s' h.2
  | error e s' =>
    rw [hw] at h
    rw [Action.bind_of_error hw, h.1]
    exact ⟨rfl, h.2⟩

/-- What follows a walk may visit nothing more. -/
theorem Follows.bind_still {done' : γ → Visit σ → Prop}
    {walked : Except (Abort ConversionError) Nat} {walk : Walk σ γ} {next : γ → Walk σ β}
    {s : Visit σ} (h : Follows walked done' stopped (walk s))
    (hnext : ∀ c s', done' c s' → Follows (.ok s'.visited) done stopped (next c s')) :
    Follows walked done stopped ((walk >>= next) s) := by
  have hb : Follows (walked >>= Except.ok) done stopped ((walk >>= next) s) := h.bind hnext
  cases walked with
  | ok m => exact hb
  | error e => exact hb

/-- A node is visited by both, and then its kind decides. -/
theorem Follows.visit {parts : α → List α} {fault? : α → Option ConversionError} {most levels : Nat}
    {x : α} {next : Walk σ β} {host : σ} {n : Nat}
    (hstop : ∀ e, (∀ detail, e = .panic detail → n + 1 = 2 ^ 64) → stopped e host)
    (hnext : n + 1 ≤ most → Follows
      (barring (fault? x) (surveyAll parts fault? most levels (parts x) (n + 1))) done stopped
      (next ⟨host, n + 1⟩)) :
    Follows (survey parts fault? most (levels + 1) x n) done stopped
      ((Walk.visit most >>= fun _ => next) ⟨host, n⟩) := by
  rw [survey]
  by_cases hend : n + 1 = 2 ^ 64
  · have hv : Walk.visit most (⟨host, n⟩ : Visit σ) =
        .error (.panic (some "attempt to add with overflow")) ⟨host, n⟩ := if_pos hend
    rw [if_pos hend, Action.bind_of_error hv]
    exact ⟨rfl, hstop _ fun _ _ => hend⟩
  · by_cases hm : n + 1 ≤ most
    · have hv : Walk.visit most (⟨host, n⟩ : Visit σ) = .ok () ⟨host, n + 1⟩ :=
        (if_neg hend).trans (if_pos hm)
      rw [if_neg hend, if_pos hm, Action.bind_of_ok hv]
      exact hnext hm
    · have hv : Walk.visit most (⟨host, n⟩ : Visit σ) =
          .error (.error (.tooManyNodes most)) ⟨host, n + 1⟩ :=
        (if_neg hend).trans (if_neg hm)
      rw [if_neg hend, if_neg hm, Action.bind_of_error hv]
      exact ⟨rfl, hstop _ fun _ he => by cases he⟩

/-! ## Lists -/

section Lists

variable {parts : α → List α} {fault? : α → Option ConversionError} {most levels : Nat}
  {step : α → Walk σ γ} {done : List γ → Visit σ → Prop}

theorem each_cons (step : α → Walk σ β) (item : α) (rest : List α) :
    Walk.each step (item :: rest) =
      step item >>= fun first => (first :: ·) <$> Walk.each step rest := by
  simp only [Walk.each, map_eq_pure_bind]

theorem Follows.each_cons {done' : γ → Visit σ → Prop} {x : α} {xs : List α} {s : Visit σ}
    (hfirst : Follows (survey parts fault? most levels x s.visited) done' stopped (step x s))
    (hrest : ∀ c s', done' c s' → Follows (surveyAll parts fault? most levels xs s'.visited)
      (fun cs => done (c :: cs)) stopped (Walk.each step xs s')) :
    Follows (surveyAll parts fault? most levels (x :: xs) s.visited) done stopped
      (Walk.each step (x :: xs) s) := by
  rw [surveyAll_cons, Walk.each_cons]
  refine hfirst.bind fun c s' hc => ?_
  rw [map_eq_pure_bind]
  exact (hrest c s' hc).bind_still fun cs s'' hcs => ⟨rfl, hcs⟩

/-- Entries are walked over as their items are; the keys only stand by. -/
theorem eachEntry_eq (step : α → Walk σ β) (entries : List (String × α)) :
    Walk.eachEntry step entries =
      (entries.map Prod.fst).zip <$> Walk.each step (entries.map Prod.snd) := by
  induction entries with
  | nil => rfl
  | cons entry rest ih => simp [Walk.eachEntry, Walk.each, ih]

end Lists

/-! ## Requests to the host -/

theorem onHost_of_ok {action : Action σ HostError α} {host host' : σ} {a : α}
    (h : action host = .ok a host') (n : Nat) :
    Walk.onHost action ⟨host, n⟩ = .ok a ⟨host', n⟩ := by
  simp only [Walk.onHost, h]

theorem onHost_of_error {action : Action σ HostError α} {host host' : σ} {e : Abort HostError}
    (h : action host = .error e host') (n : Nat) :
    Walk.onHost action ⟨host, n⟩ = .error (e.map .host) ⟨host', n⟩ := by
  simp only [Walk.onHost, h]

/-! ## Whole walks -/

theorem Follows.of_start_ok {walked : Except (Abort ConversionError) Nat} {walk : Walk σ β}
    {host host' : σ} {b : β} (h : Follows walked done stopped (walk ⟨host, 0⟩))
    (hs : walk.start host = .ok b host') : ∃ m, walked = .ok m ∧ done b ⟨host', m⟩ := by
  unfold Walk.start at hs
  split at hs
  · next hw =>
    rw [hw] at h
    cases hs
    exact ⟨_, h⟩
  · cases hs

theorem Follows.of_start_error {walked : Except (Abort ConversionError) Nat} {walk : Walk σ β}
    {host host' : σ} {e : Abort ConversionError}
    (h : Follows walked done stopped (walk ⟨host, 0⟩)) (hs : walk.start host = .error e host') :
    walked = .error e ∧ stopped e host' := by
  unfold Walk.start at hs
  split at hs
  · cases hs
  · next hw =>
    rw [hw] at h
    cases hs
    exact h

/-- A walk comes through if the survey does. -/
theorem Follows.start_ok_iff {walked : Except (Abort ConversionError) Nat} {walk : Walk σ β}
    {host : σ} (h : Follows walked done stopped (walk ⟨host, 0⟩)) :
    (∃ b host', walk.start host = .ok b host') ↔ ∃ m, walked = .ok m := by
  constructor
  · rintro ⟨b, host', hs⟩
    obtain ⟨m, hm, _⟩ := h.of_start_ok hs
    exact ⟨m, hm⟩
  · rintro ⟨m, hm⟩
    cases hs : walk.start host with
    | ok b host' => exact ⟨b, host', rfl⟩
    | error e host' =>
      obtain ⟨he, _⟩ := h.of_start_error hs
      cases hm.symm.trans he

end Walk

end Marshal

end ForeignCall
