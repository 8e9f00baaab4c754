import ForeignCall.Engine

/-!
# ForeignCall.Engine.Stock

Functions of few words, for engines that are put together by hand: each
answers in one way whatever it is asked, or reports what it was asked.
-/

namespace ForeignCall

namespace Engine

/-- A ready-made function. -/
inductive Stock where
  /-- Always this value. -/
  | constant (v : Value)
  /-- Never a value. -/
  | nothing
  /-- Always this failure. -/
  | failure (message : String)
  /-- Always a breakdown. -/
  | panic (detail : Option String)
  /-- The array of the arguments. -/
  | collect
  /-- The array of the names of the arguments' kinds. -/
  | kinds
  /-- The number of calls so far, this one included. -/
  | count

/-- The answer to arguments, after earlier calls. -/
def Stock.behaviour : Stock → List (List Value) → List Value → Reply
  | .constant v, _, _ => .value v
  | .nothing, _, _ => .nothing
  | .failure message, _, _ => .failure message
  | .panic detail, _, _ => .panic detail
  | .collect, _, args => .value (.array args)
  | .kinds, _, args => .value (.array (args.map fun v => .string v.kind.name))
  | .count, history, _ => .value (.s32 (Int32.ofInt (history.length + 1)))

/-- Register ready-made functions, in order. -/
def registerAll (e : Engine) (functions : List (String × Stock)) : Engine :=
  functions.foldl (fun e f => e.register f.1 f.2.behaviour) e

end Engine

end ForeignCall
