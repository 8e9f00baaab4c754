import ForeignCall.Action

/-!
# ForeignCall.Proofs.Action

Running actions one after another.  Once it is known how the first of two
actions ends, a sequence of both is one step further; these are the steps.

A relation that is kept from state to state is kept by a sequence if it is kept
by the actions (`Moves`).
-/

namespace ForeignCall

namespace Action

variable {σ ε α β : Type}

/-- The state in which an action ends, however it ends. -/
def final (action : Action σ ε α) (s : σ) : σ :=
  match action s with
  | .ok _ s => s
  | .error _ s => s

theorem final_of_ok {action : Action σ ε α} {s s' : σ} {a : α} (h : action s = .ok a s') :
    final action s = s' := by
  rw [final, h]

theorem final_of_error {action : Action σ ε α} {s s' : σ} {e : Abort ε}
    (h : action s = .error e s') : final action s = s' := by
  rw [final, h]

/-- The same end, in a changed state. -/
def endIn (f : σ → σ) : EStateM.Result (Abort ε) σ α → EStateM.Result (Abort ε) σ α
  | .ok a s => .ok a (f s)
  | .error e s => .error e (f s)

/-! ## Sequences -/

theorem bind_of_ok {action : Action σ ε α} {next : α → Action σ ε β} {s s' : σ} {a : α}
    (h : action s = .ok a s') : (action >>= next) s = next a s' := by
  simp only [bind, EStateM.bind, h]

theorem bind_of_error {action : Action σ ε α} {next : α → Action σ ε β} {s s' : σ} {e : Abort ε}
    (h : action s = .error e s') : (action >>= next) s = .error e s' := by
  simp only [bind, EStateM.bind, h]

theorem final_bind_of_ok {action : Action σ ε α} {next : α → Action σ ε β} {s s' : σ} {a : α}
    (h : action s = .ok a s') : final (action >>= next) s = final (next a) s' := by
  rw [final, bind_of_ok h, final]

theorem map_of_ok {action : Action σ ε α} {f : α → β} {s s' : σ} {a : α}
    (h : action s = .ok a s') : (f <$> action) s = .ok (f a) s' := by
  simp only [Functor.map, EStateM.map, h]

theorem map_of_error {action : Action σ ε α} {f : α → β} {s s' : σ} {e : Abort ε}
    (h : action s = .error e s') : (f <$> action) s = .error e s' := by
  simp only [Functor.map, EStateM.map, h]

/-! ## Single steps -/

@[simp] theorem pure_apply (a : α) (s : σ) : (pure a : Action σ ε α) s = .ok a s := rfl

@[simp] theorem fail_apply (e : ε) (s : σ) :
    (fail e : Action σ ε α) s = .error (.error e) s := rfl

@[simp] theorem panic_apply (detail : Option String) (s : σ) :
    (panic detail : Action σ ε α) s = .error (.panic detail) s := rfl

theorem look_of_ok {f : σ → Except ε α} {s : σ} {a : α} (h : f s = .ok a) :
    look f s = .ok a s := by
  simp only [look, h]

theorem look_of_error {f : σ → Except ε α} {s : σ} {e : ε} (h : f s = .error e) :
    look f s = .error (.error e) s := by
  simp only [look, h]

/-! ## Moves -/

/-- However an action ends, it has moved the state along a relation. -/
def Moves (R : σ → σ → Prop) (action : Action σ ε α) : Prop :=
  ∀ s, R s (final action s)

theorem Moves.bind {R : σ → σ → Prop} (trans : ∀ {s t u}, R s t → R t u → R s u)
    {action : Action σ ε α} {next : α → Action σ ε β} (h : Moves R action)
    (hnext : ∀ a, Moves R (next a)) : Moves R (action >>= next) := by
  intro s
  have hfirst := h s
  cases hs : action s with
  | ok a t =>
    rw [final_of_ok hs] at hfirst
    rw [final_bind_of_ok hs]
    exact trans hfirst (hnext a t)
  | error e t =>
    rw [final_of_error hs] at hfirst
    rw [final_of_error (bind_of_error hs)]
    exact hfirst

theorem Moves.map {R : σ → σ → Prop} {action : Action σ ε α} (h : Moves R action) (f : α → β) :
    Moves R (f <$> action) := by
  intro s
  have hs := h s
  simp only [final, Functor.map, EStateM.map] at hs ⊢
  cases hr : action s <;> simpa only [hr] using hs

/-- To look something up changes nothing. -/
theorem Moves.look {R : σ → σ → Prop} (refl : ∀ s, R s s) (f : σ → Except ε α) :
    Moves R (look f) := by
  intro s
  unfold final Action.look
  cases f s <;> exact refl s

end Action

end ForeignCall
