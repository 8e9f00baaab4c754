import ForeignCall.Number.Rounding

/-!
# ForeignCall.Number.Binary64

Double precision numbers as their 64 bits.

A word has a sign, eleven exponent bits and 52 fraction bits; `datum` reads
these as a value `± mantissa · 2 ^ exponent`.  Every operation that rounds
takes the exact result, as a fraction of natural numbers, to `nearest`: the
grid of doubles around a value is that of its binary magnitude, and never finer
than 2^-1074.

`nearest` packs a rounded mantissa by adding it to the exponent bits: a
mantissa that rounds up to 2^53 carries into the exponent, and one below 2^52
on the finest grid leaves the exponent bits zero, which is how subnormal
numbers are written.
-/

namespace ForeignCall

/-- A double precision number. -/
structure Binary64 where
  /-- Sign, exponent and fraction bits. -/
  bits : UInt64
deriving DecidableEq, Repr, Inhabited

/-- What a floating point word stands for. -/
inductive Datum where
  /-- Not a number. -/
  | nan
  /-- An infinity. -/
  | infinite (negative : Bool)
  /-- `mantissa · 2 ^ exponent`, with a sign that zero has too. -/
  | finite (negative : Bool) (mantissa : Nat) (exponent : Int)
deriving DecidableEq, Repr

namespace Binary64

/-! ## Fields -/

/-- The sign bit. -/
def negative (x : Binary64) : Bool :=
  2 ^ 63 ≤ x.bits.toNat

/-- The eleven exponent bits. -/
def exponentField (x : Binary64) : Nat :=
  x.bits.toNat / 2 ^ 52 % 2 ^ 11

/-- The 52 fraction bits. -/
def fraction (x : Binary64) : Nat :=
  x.bits.toNat % 2 ^ 52

/-- The value of the word.  Exponent bits all one are kept for infinities and for what is not a
number; exponent bits all zero drop the leading one of the mantissa. -/
def datum (x : Binary64) : Datum :=
  if x.exponentField = 2047 then
    if x.fraction = 0 then .infinite x.negative else .nan
  else if x.exponentField = 0 then .finite x.negative x.fraction (-1074)
  else .finite x.negative (2 ^ 52 + x.fraction) ((x.exponentField : Int) - 1075)

/-- The word with a given sign and given bits below the sign. -/
def ofMagnitude (negative : Bool) (magnitude : Nat) : Binary64 :=
  ⟨UInt64.ofNat ((if negative then 2 ^ 63 else 0) + magnitude)⟩

/-- The bits of infinity below the sign. -/
def infinityBits : Nat := 2047 * 2 ^ 52

def nan : Binary64 := ⟨0x7FF8000000000000⟩

def infinity (negative : Bool) : Binary64 := ofMagnitude negative infinityBits

def zero (negative : Bool) : Binary64 := ofMagnitude negative 0

/-- Not a number. -/
def isNaN (x : Binary64) : Bool :=
  x.exponentField = 2047 && x.fraction ≠ 0

/-- Neither an infinity nor not a number. -/
def isFinite (x : Binary64) : Bool :=
  x.exponentField ≠ 2047

/-- Zero of either sign. -/
def isZero (x : Binary64) : Bool :=
  x.exponentField = 0 && x.fraction = 0

/-- The same number with the other sign. -/
def neg (x : Binary64) : Binary64 :=
  ⟨x.bits ^^^ 0x8000000000000000⟩

/-- Equality of numbers: zeros of both signs are equal, and what is not a number differs from
everything. -/
def equal (x y : Binary64) : Bool :=
  !x.isNaN && !y.isNaN && (x.bits = y.bits || (x.isZero && y.isZero))

/-! ## Rounding -/

/-- The double nearest to `± num / den`; of two equally near ones the one with an even mantissa.
What is half a unit or more above the greatest double becomes an infinity. -/
def nearest (negative : Bool) (num den : Nat) : Binary64 :=
  if num = 0 then zero negative
  else
    let q := max (Rounding.floorLog2 num den - 52) (-1074)
    let mantissa := Rounding.onGrid num den q
    ofMagnitude negative (min ((q + 1074).toNat * 2 ^ 52 + mantissa) infinityBits)

/-- The double nearest to `± mantissa · 2 ^ exponent`. -/
def nearestScaled (negative : Bool) (mantissa : Nat) (exponent : Int) : Binary64 :=
  nearest negative (mantissa * 2 ^ exponent.toNat) (2 ^ (-exponent).toNat)

/-- The double nearest to a natural number. -/
def ofNat (n : Nat) : Binary64 :=
  nearest false n 1

/-- The double nearest to an integer. -/
def ofInt (i : Int) : Binary64 :=
  nearest (decide (i < 0)) i.natAbs 1

/-! ## Arithmetic -/

/-- `± mantissa · 2 ^ exponent` as an integer multiple of `2 ^ grid`, for `grid ≤ exponent`. -/
def alignedTo (grid : Int) (negative : Bool) (mantissa : Nat) (exponent : Int) : Int :=
  let magnitude : Int := (mantissa * 2 ^ (exponent - grid).toNat : Nat)
  if negative then -magnitude else magnitude

/-- The sum, rounded.  An exact zero is negative only if both terms are. -/
def add (x y : Binary64) : Binary64 :=
  match x.datum, y.datum with
  | .nan, _ | _, .nan => nan
  | .infinite s, .infinite t => if s = t then infinity s else nan
  | .infinite s, _ | _, .infinite s => infinity s
  | .finite s m e, .finite t n f =>
    let grid := min e f
    let sum := alignedTo grid s m e + alignedTo grid t n f
    if sum = 0 then zero (s && t) else nearestScaled (decide (sum < 0)) sum.natAbs grid

/-- The product of two finite numbers, rounded; `nan` if one is not finite. -/
def mulFinite (x y : Binary64) : Binary64 :=
  match x.datum, y.datum with
  | .finite s m e, .finite t n f => nearestScaled (s != t) (m * n) (e + f)
  | _, _ => nan

/-- The quotient of a finite number by a finite one that is not zero, rounded; `nan` otherwise. -/
def divFinite (x y : Binary64) : Binary64 :=
  match x.datum, y.datum with
  | .finite s m e, .finite t n f =>
    if n = 0 then nan
    else nearest (s != t) (m * 2 ^ (e - f).toNat) (n * 2 ^ (f - e).toNat)
  | _, _ => nan

/-! ## Integral numbers -/

/-- The exact value, if it is an integer. -/
def exactInt? (x : Binary64) : Option Int :=
  match x.datum with
  | .finite s m e =>
    let divisor := 2 ^ (-e).toNat
    if m % divisor = 0 then
      let magnitude : Int := (m * 2 ^ e.toNat / divisor : Nat)
      some (if s then -magnitude else magnitude)
    else none
  | _ => none

end Binary64

end ForeignCall
