import ForeignCall.Log.Logger

/-!
# ForeignCall.Proofs.FanOut

What a logger does with its policies.

The policies take turns in the order of their attachment, each once, and each
finds the streams as the turns before have left them (`turns`): policies over
one stream take its room and its failures from each other.  What is reported is
how the first turn that failed has failed.  This holds of anything that is done
with each policy (`fansOut_attempt`), so of writing a record and of flushing
(`fansOut_log_flush`).
-/

namespace ForeignCall

namespace Log

namespace Logger

section
variable (act : Policy → Streams → Except LogError Unit × Streams)

/-- The streams when policies have taken their turns. -/
def turns (policies : List Policy) (streams : Streams) : Streams :=
  policies.foldl (fun streams p => (act p streams).2) streams

/-- What came of the turn at a place, on the streams that the turns before have left. -/
def outcome? (policies : List Policy) (streams : Streams) (i : Nat) :
    Option (Except LogError Unit) :=
  policies[i]?.map fun p => (act p (turns act (policies.take i) streams)).1

/-- Every policy takes one turn, whatever came of those before, and the first failure is the
result. -/
structure FansOut (policies : List Policy) (streams : Streams) (result : Except LogError Unit)
    (later : Streams) : Prop where
  effect : later = turns act policies streams
  ok_iff : result = .ok () ↔
    ∀ i outcome, outcome? act policies streams i = some outcome → outcome = .ok ()
  error_iff : ∀ e, result = .error e ↔ ∃ i, outcome? act policies streams i = some (.error e) ∧
    ∀ j < i, outcome? act policies streams j = some (.ok ())

variable {act}

@[simp] theorem outcome?_nil (streams : Streams) (i : Nat) : outcome? act [] streams i = none := rfl

@[simp] theorem outcome?_cons_zero (p : Policy) (rest : List Policy) (streams : Streams) :
    outcome? act (p :: rest) streams 0 = some (act p streams).1 := rfl

@[simp] theorem outcome?_cons_succ (p : Policy) (rest : List Policy) (streams : Streams) (i : Nat) :
    outcome? act (p :: rest) streams (i + 1) = outcome? act rest (act p streams).2 i := rfl

variable {p : Policy} {rest : List Policy} {streams next later : Streams}
  {result : Except LogError Unit} {e : LogError}

@[simp] theorem turns_cons : turns act (p :: rest) streams = turns act rest (act p streams).2 := rfl

/-- A turn that comes through, in front of others. -/
theorem FansOut.cons_ok (hp : act p streams = (.ok (), next))
    (h : FansOut act rest next result later) : FansOut act (p :: rest) streams result later where
  effect := by rw [turns_cons, hp, h.effect]
  ok_iff := by
    rw [h.ok_iff]
    constructor
    · intro hall i outcome hi
      cases i with
      | zero => simpa [hp, eq_comm] using hi
      | succ i => exact hall i outcome (by rwa [outcome?_cons_succ, hp] at hi)
    · intro hall i outcome hi
      exact hall (i + 1) outcome (by rwa [outcome?_cons_succ, hp])
  error_iff e := by
    rw [h.error_iff]
    constructor
    · rintro ⟨i, hi, hbefore⟩
      refine ⟨i + 1, by rwa [outcome?_cons_succ, hp], fun j hj => ?_⟩
      cases j with
      | zero => rw [outcome?_cons_zero, hp]
      | succ j =>
        rw [outcome?_cons_succ, hp]
        exact hbefore j (Nat.lt_of_succ_lt_succ hj)
    · rintro ⟨i, hi, hbefore⟩
      cases i with
      | zero => simp [hp] at hi
      | succ i =>
        refine ⟨i, by rwa [outcome?_cons_succ, hp] at hi, fun j hj => ?_⟩
        simpa [hp] using hbefore (j + 1) (Nat.succ_lt_succ hj)

/-- A turn that fails, in front of others: it is the first that does. -/
theorem FansOut.cons_error (hp : act p streams = (.error e, next))
    (h : FansOut act rest next result later) :
    FansOut act (p :: rest) streams (.error e) later where
  effect := by rw [turns_cons, hp, h.effect]
  ok_iff := by
    refine ⟨nofun, fun hall => ?_⟩
    exact hall 0 (.error e) (by rw [outcome?_cons_zero, hp])
  error_iff e' := by
    constructor
    · rintro ⟨⟩
      exact ⟨0, by rw [outcome?_cons_zero, hp], fun j hj => absurd hj (Nat.not_lt_zero j)⟩
    · rintro ⟨i, hi, hbefore⟩
      cases i with
      | zero => simpa [hp] using hi
      | succ i => simpa [hp] using hbefore 0 (Nat.succ_pos i)

/-- Attempting what policies do is letting them take turns. -/
theorem fansOut_attempt (policies : List Policy) (streams : Streams) :
    FansOut act policies streams (attempt act policies streams).1
      (attempt act policies streams).2 := by
  induction policies generalizing streams with
  | nil => exact ⟨rfl, by simp [attempt], by simp [attempt]⟩
  | cons p rest ih =>
    rcases hp : act p streams with ⟨_ | _, next⟩
    case ok =>
      simp only [attempt, hp]
      exact .cons_ok hp (ih next)
    case error e =>
      simp only [attempt, hp]
      exact .cons_error hp (ih next)

end

/-- **Fan-out of a logger.**  A record that is severe enough goes to every policy, as one record in
turn, and one that is not goes nowhere; flushing goes to every policy in any case.  Whatever fails
on the way, all have their turn, and the first failure is reported. -/
theorem fansOut_log_flush (logger : Logger) (level : Level) (target message : String)
    (streams : Streams) :
    (if level.rank < logger.minLevel.rank then
      logger.log level target message streams = (.ok (), streams)
    else
      FansOut (fun p streams => p.write streams (record level target message)) logger.policies
        streams (logger.log level target message streams).1
        (logger.log level target message streams).2) ∧
    FansOut Policy.flush logger.policies streams (logger.flush streams).1
      (logger.flush streams).2 := by
  refine ⟨?_, fansOut_attempt _ _⟩
  split
  · next hlow => exact if_pos hlow
  · next hhigh =>
    rw [log, if_neg hhigh]
    exact fansOut_attempt _ _

/-- The first policy is destroyed, and the stream of the second cannot be flushed: the third is
flushed all the same, and the first failure is the one reported. -/
example :
    let flushed := flush { policies :=
      [⟨"a", none⟩, ⟨"b", some (.stdio 0)⟩, ⟨"c", some (.stdio 1)⟩] }
      #[{ flushError := some "x" }, {}]
    flushed.1 = .error (.uninitialized "a") ∧ flushed.2[1]?.map (·.flushes) = some 1 :=
  ⟨rfl, rfl⟩

end Logger

end Log

end ForeignCall
