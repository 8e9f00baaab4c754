import ForeignCall.Number.Binary32

/-!
# ForeignCall.Number.Shortest

The shortest decimal that reads back as a given floating point number.

The decimals that read back as `m · 2 ^ e` are those of an interval around it:
halfway to the neighbour on each side, the ends included exactly if `m` is even
(a reader sends a halfway point to the even mantissa).  Below a power of two
the neighbour is half as far.  Among the decimals with the fewest digits in the
interval the one nearest to the number is chosen; of two equally near ones a
`Tie` decides.

All comparisons are between natural numbers: a scaled value and the interval
are brought to one denominator.
-/

namespace ForeignCall

/-- A decimal `significand · 10 ^ exponent`. -/
structure Decimal where
  significand : Nat
  exponent : Int
deriving DecidableEq, Repr

/-- Which of two equally near decimals is taken. -/
inductive Tie where
  | toEven
  | upward
deriving DecidableEq, Repr

namespace Shortest

/-- An interval around a value, all over one denominator. -/
structure Interval where
  low : Nat
  value : Nat
  high : Nat
  den : Nat
  /-- Whether the ends belong to it. -/
  closed : Bool
deriving Repr

/-- The decimals that read back as `mantissa · 2 ^ exponent`; `narrowBelow` says that the
neighbour below is only half a unit away. -/
def interval (mantissa : Nat) (exponent : Int) (narrowBelow : Bool) : Interval :=
  let scale := 2 ^ (exponent - 2).toNat
  { low := (4 * mantissa - (if narrowBelow then 1 else 2)) * scale
    value := 4 * mantissa * scale
    high := (4 * mantissa + 2) * scale
    den := 2 ^ (2 - exponent).toNat
    closed := mantissa % 2 = 0 }

/-- Number of decimal digits of a positive number. -/
def digitCount (n : Nat) : Nat :=
  (Nat.toDigits 10 n).length

/-- The greatest `p` with `10 ^ p ≤ num / den`, for positive `num` and `den`. -/
def floorLog10 (num den : Nat) : Int :=
  if den ≤ num then (digitCount (num / den) : Int) - 1
  else -(digitCount ((den - 1) / num) : Int)

/-- The interval in units of `10 ^ k`. -/
def Interval.inUnits (i : Interval) (k : Int) : Interval :=
  let up := 10 ^ (-k).toNat
  { i with
    low := i.low * up, value := i.value * up, high := i.high * up, den := i.den * 10 ^ k.toNat }

/-- Whether an integer lies in the interval. -/
def Interval.holds (i : Interval) (n : Nat) : Bool :=
  if i.closed then i.low ≤ n * i.den && n * i.den ≤ i.high
  else i.low < n * i.den && n * i.den < i.high

/-- The integer of the interval nearest to its value, if the two neighbours of the value are not
both outside. -/
def Interval.nearest? (i : Interval) (tie : Tie) : Option Nat :=
  let below := i.value / i.den
  let above := below + 1
  match i.holds below, i.holds above with
  | false, false => none
  | true, false => some below
  | false, true => some above
  | true, true =>
    let toBelow := i.value - below * i.den
    let toAbove := above * i.den - i.value
    if toBelow < toAbove then some below
    else if toAbove < toBelow then some above
    else match tie with
      | .toEven => some (if below % 2 = 0 then below else above)
      | .upward => some above

/-- Drop trailing zeros of a significand. -/
def trim : Nat → Decimal → Decimal
  | 0, d => d
  | fuel + 1, d =>
    if d.significand ≠ 0 ∧ d.significand % 10 = 0 then
      trim fuel ⟨d.significand / 10, d.exponent + 1⟩
    else d

/-- Try grids of more and more digits, starting at the power of ten `k`. -/
def search (i : Interval) (tie : Tie) : Nat → Int → Decimal
  | 0, k => ⟨(i.inUnits k).value / (i.inUnits k).den, k⟩
  | grids + 1, k =>
    match (i.inUnits k).nearest? tie with
    | some n => ⟨n, k⟩
    | none => search i tie grids (k - 1)

/-- The shortest decimal for `mantissa · 2 ^ exponent`.  Seventeen digits always suffice for
double precision. -/
def decimal (tie : Tie) (mantissa : Nat) (exponent : Int) (narrowBelow : Bool) : Decimal :=
  if mantissa = 0 then ⟨0, 0⟩
  else
    let i := interval mantissa exponent narrowBelow
    trim 20 (search i tie 17 (floorLog10 i.value i.den))

/-- The shortest decimal for the magnitude of a finite double. -/
def ofBinary64 (tie : Tie) (x : Binary64) : Decimal :=
  match x.datum with
  | .finite _ m e => decimal tie m e (m = 2 ^ 52 && e ≠ -1074)
  | _ => ⟨0, 0⟩

/-- The shortest decimal for the magnitude of a finite single precision number. -/
def ofBinary32 (tie : Tie) (x : Binary32) : Decimal :=
  match x.datum with
  | .finite _ m e => decimal tie m e (m = 2 ^ 23 && e ≠ -149)
  | _ => ⟨0, 0⟩

end Shortest

end ForeignCall
