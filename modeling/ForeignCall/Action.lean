/-!
# ForeignCall.Action

Programs that change a state and may end early.

An action ends with a result, with an error, or with a panic: the breakdown of
some code it called.  The state is kept in all three cases, so that what an
action did before it ended early remains visible.
-/

namespace ForeignCall

/-- How an action ends early. -/
inductive Abort (ε : Type) where
  | error (e : ε)
  /-- A breakdown, with a text if it came with one. -/
  | panic (detail : Option String)
deriving DecidableEq, Repr

/-- The same end, seen as another kind of error. -/
def Abort.map {ε ε' : Type} (f : ε → ε') : Abort ε → Abort ε'
  | .error e => .error (f e)
  | .panic detail => .panic detail

/-- A program over the state `σ`. -/
abbrev Action (σ ε α : Type) := EStateM (Abort ε) σ α

namespace Action

variable {σ ε ε' α : Type}

/-- End with an error. -/
def fail (e : ε) : Action σ ε α := throw (.error e)

/-- Break down. -/
def panic (detail : Option String) : Action σ ε α := throw (.panic detail)

/-- Look something up in the state. -/
def look (f : σ → Except ε α) : Action σ ε α := fun s =>
  match f s with
  | .ok a => .ok a s
  | .error e => .error (.error e) s

/-- A result that is already known. -/
def ofExcept (r : Except ε α) : Action σ ε α := look fun _ => r

/-- See errors as errors of another kind. -/
def mapError (f : ε → ε') (action : Action σ ε α) : Action σ ε' α := fun s =>
  match action s with
  | .ok a s => .ok a s
  | .error abort s => .error (abort.map f) s

end Action

end ForeignCall
