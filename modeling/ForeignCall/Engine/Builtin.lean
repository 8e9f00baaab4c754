import ForeignCall.Engine

/-!
# ForeignCall.Engine.Builtin

The functions every engine comes with: `add`, `concat` and `echo`.

`add` of integers alone is an integer, added up from left to right and refused
as soon as a partial sum leaves 64 signed bits.  With any other argument it is
a double, added up from left to right as well.
-/

namespace ForeignCall

namespace Builtin

/-- One more term, unless the sum does not fit 64 signed bits. -/
def addChecked (sum n : Int64) : Option Int64 :=
  let exact := sum.toInt + n.toInt
  if -2 ^ 63 ≤ exact ∧ exact < 2 ^ 63 then some (Int64.ofInt exact) else none

/-- The sum of integers, from left to right. -/
def sumChecked (sum : Int64) : List Int64 → Option Int64
  | [] => some sum
  | n :: rest => (addChecked sum n).bind fun sum => sumChecked sum rest

/-- The sum of numbers in doubles, from left to right; or the first kind that is no number. -/
def sumDoubles (sum : Binary64) : List Value → Except ValueKind Binary64
  | [] => .ok sum
  | v :: rest => match v.toBinary64? with
    | some x => sumDoubles (sum.add x) rest
    | none => .error v.kind

/-- The sum of numbers. -/
def add (args : List Value) : Reply :=
  match args.mapM Value.toInt64? with
  | some integers =>
    match sumChecked 0 integers with
    | some sum => .value (.s64 sum)
    | none => .failure "integer overflow"
  | none =>
    match sumDoubles (.zero false) args with
    | .ok sum => .value (.f64 sum)
    | .error kind => .failure ("add: expected number, got " ++ kind.name)

/-- The texts of strings, or the first kind that is no string. -/
def texts : List Value → Except ValueKind (List String)
  | [] => .ok []
  | v :: rest => match v.toString? with
    | some s => (texts rest).map (s :: ·)
    | none => .error v.kind

/-- The concatenation of strings. -/
def concat (args : List Value) : Reply :=
  match texts args with
  | .ok parts => .value (.string (String.join parts))
  | .error kind => .failure ("concat: expected string, got " ++ kind.name)

/-- The first argument. -/
def echo (args : List Value) : Reply :=
  match args with
  | first :: _ => .value first
  | [] => .nothing

end Builtin

namespace Engine

/-- Register the built-in functions. -/
def registerBuiltins (e : Engine) : Engine :=
  ((e.register "add" fun _ => Builtin.add).register "concat" fun _ => Builtin.concat).register
    "echo" fun _ => Builtin.echo

/-- An engine with the built-in functions. -/
def withBuiltins : Engine := registerBuiltins {}

end Engine

end ForeignCall
