import ForeignCall.Number.Binary64

/-!
# ForeignCall.Number.Binary32

Single precision numbers as their 32 bits, and their exact widening to double
precision.
-/

namespace ForeignCall

/-- A single precision number. -/
structure Binary32 where
  /-- Sign, exponent and fraction bits. -/
  bits : UInt32
deriving DecidableEq, Repr, Inhabited

namespace Binary32

/-- The sign bit. -/
def negative (x : Binary32) : Bool :=
  2 ^ 31 ≤ x.bits.toNat

/-- The eight exponent bits. -/
def exponentField (x : Binary32) : Nat :=
  x.bits.toNat / 2 ^ 23 % 2 ^ 8

/-- The 23 fraction bits. -/
def fraction (x : Binary32) : Nat :=
  x.bits.toNat % 2 ^ 23

/-- The value of the word. -/
def datum (x : Binary32) : Datum :=
  if x.exponentField = 255 then
    if x.fraction = 0 then .infinite x.negative else .nan
  else if x.exponentField = 0 then .finite x.negative x.fraction (-149)
  else .finite x.negative (2 ^ 23 + x.fraction) ((x.exponentField : Int) - 150)

/-- Not a number. -/
def isNaN (x : Binary32) : Bool :=
  x.exponentField = 255 && x.fraction ≠ 0

/-- Zero of either sign. -/
def isZero (x : Binary32) : Bool :=
  x.exponentField = 0 && x.fraction = 0

/-- Equality of numbers, as for double precision. -/
def equal (x y : Binary32) : Bool :=
  !x.isNaN && !y.isNaN && (x.bits = y.bits || (x.isZero && y.isZero))

/-- The same number in double precision, whose grid is finer everywhere. -/
def toBinary64 (x : Binary32) : Binary64 :=
  match x.datum with
  | .nan => .nan
  | .infinite s => .infinity s
  | .finite s m e => .nearestScaled s m e

end Binary32

end ForeignCall
