/-!
# ForeignCall.Run

Runs of anything that takes steps.

A step takes a state to an answer and a later state:

```
step  :  State → Step → Answer × State
```

All that is said of runs follows from the step.  `after` is the state that
steps lead to, `answers` what they answer, `run` the answers with what is seen
of the states they leave, and `history` the steps with their answers.
-/

namespace ForeignCall

namespace Run

variable {State Step Answer Seen Record : Type} (step : State → Step → Answer × State)

/-- The state that steps lead to. -/
def after (s : State) (steps : List Step) : State :=
  steps.foldl (fun s i => (step s i).2) s

/-- The answers to steps. -/
def answers (s : State) : List Step → List Answer
  | [] => []
  | i :: rest =>
    let (answer, s) := step s i
    answer :: answers s rest

/-- The step as it is watched: with its answer comes what is seen of the state it leaves. -/
def watched (see : State → Seen) (s : State) (i : Step) : (Answer × Seen) × State :=
  let (answer, s) := step s i
  ((answer, see s), s)

/-- The answers to steps, each with what is seen of the state it leaves. -/
def run (see : State → Seen) (s : State) (steps : List Step) : List (Answer × Seen) :=
  answers (watched step see) s steps

/-- Steps, each with its answer. -/
def history (s : State) (steps : List Step) : List (Step × Answer) :=
  steps.zip (answers step s steps)

/-! ## One step and the rest -/

variable {step}

theorem after_cons (s : State) (i : Step) (rest : List Step) :
    after step s (i :: rest) = after step (step s i).2 rest := rfl

theorem run_cons {see : State → Seen} (s : State) (i : Step) (rest : List Step) :
    run step see s (i :: rest) =
      ((step s i).1, see (step s i).2) :: run step see (step s i).2 rest := rfl

theorem history_cons (s : State) (i : Step) (rest : List Step) :
    history step s (i :: rest) = (i, (step s i).1) :: history step (step s i).2 rest := rfl

theorem after_append (s : State) (before rest : List Step) :
    after step s (before ++ rest) = after step (after step s before) rest :=
  List.foldl_append

theorem after_take_succ {steps : List Step} {n : Nat} {i : Step} (s : State)
    (h : steps[n]? = some i) :
    after step s (steps.take (n + 1)) = (step (after step s (steps.take n)) i).2 := by
  rw [List.take_add_one, h, after_append]
  rfl

/-- A run answers to a step as the step does by itself, from where the ones before have led. -/
theorem getElem?_answers (s : State) (steps : List Step) (n : Nat) :
    (answers step s steps)[n]? =
      steps[n]?.map fun i => (step (after step s (steps.take n)) i).1 := by
  induction steps generalizing s n with
  | nil => rfl
  | cons i rest ih =>
    cases n with
    | zero => rfl
    | succ n => exact ih (step s i).2 n

/-- What is seen after a step is seen of the state that the steps so far have led to. -/
theorem getElem?_run {see : State → Seen} (s : State) (steps : List Step) (n : Nat) :
    (run step see s steps)[n]? = steps[n]?.map fun i =>
      ((step (after step s (steps.take n)) i).1, see (after step s (steps.take (n + 1)))) := by
  rw [run, getElem?_answers]
  cases h : steps[n]? with
  | none => rfl
  | some i =>
    rw [Option.map_some, Option.map_some, after_take_succ s h]
    rfl

/-- A run shows of a step what the step does by itself, from where the ones before have led. -/
theorem getElem?_run_append {see : State → Seen} (s : State) (before rest : List Step) (i : Step) :
    (run step see s (before ++ i :: rest))[before.length]? =
      some ((step (after step s before) i).1, see (step (after step s before) i).2) := by
  have hi : (before ++ i :: rest)[before.length]? = some i := by simp
  rw [getElem?_run, hi, Option.map_some, after_take_succ s hi, List.take_left]

theorem history_take (s : State) (steps : List Step) (n : Nat) :
    history step s (steps.take n) = (history step s steps).take n := by
  induction steps generalizing s n with
  | nil => simp [history]
  | cons i rest ih =>
    cases n with
    | zero => rfl
    | succ n => exact congrArg _ (ih (step s i).2 n)

/-! ## What steps keep -/

/-- What each of the steps keeps holds of the state they lead to. -/
theorem after_induction {motive : State → Prop} {s : State} {steps : List Step} (h : motive s)
    (hstep : ∀ s, ∀ i ∈ steps, motive s → motive (step s i).2) :
    motive (after step s steps) := by
  induction steps generalizing s with
  | nil => exact h
  | cons i rest ih =>
    exact ih (hstep s i List.mem_cons_self h) fun s j hj => hstep s j (List.mem_cons_of_mem _ hj)

/-- A state agrees with what is on record as long as each step and its answer are recorded. -/
theorem agrees_after {Agrees : State → Record → Prop} {record : Record → Step → Answer → Record}
    (hstep : ∀ s r i, Agrees s r → Agrees (step s i).2 (record r i (step s i).1))
    {s : State} {r : Record} (h : Agrees s r) (steps : List Step) :
    Agrees (after step s steps)
      ((history step s steps).foldl (fun r entry => record r entry.1 entry.2) r) := by
  induction steps generalizing s r with
  | nil => exact h
  | cons i rest ih => exact ih (hstep s r i h)

end Run

end ForeignCall
