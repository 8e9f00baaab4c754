import ForeignCall.Number.Shortest

/-!
# ForeignCall.Number.Layout

Writing a decimal out.  A `Layout` says from which size on a number is written
with an exponent, whether a whole number keeps a fraction `.0`, and whether an
exponent shows a plus sign.
-/

namespace ForeignCall

/-- Decisions on how a decimal is written. -/
structure Layout where
  /-- Positional notation needs a leading digit of at least this power of ten (`none`: any). -/
  positionalFrom : Option Int
  /-- Positional notation needs a leading digit below this power of ten (`none`: any). -/
  positionalBelow : Option Int
  /-- A whole number in positional notation ends in `.0`. -/
  keepsFraction : Bool
  /-- An exponent that is not negative has a plus sign. -/
  plusSign : Bool
deriving DecidableEq, Repr

namespace Layout

/-- A digit string with a point after `whole` of its digits. -/
def positional (layout : Layout) (digits : List Char) (exponent : Int) : String :=
  let tail (fraction : List Char) : String :=
    if fraction.isEmpty then (if layout.keepsFraction then ".0" else "")
    else "." ++ String.ofList fraction
  if 0 ≤ exponent then
    String.ofList (digits ++ List.replicate exponent.toNat '0') ++ tail []
  else
    let places := (-exponent).toNat
    if places < digits.length then
      String.ofList (digits.take (digits.length - places)) ++
        tail (digits.drop (digits.length - places))
    else
      "0" ++ tail (List.replicate (places - digits.length) '0' ++ digits)

/-- One digit, a fraction if there are more, and the exponent. -/
def scientific (layout : Layout) (digits : List Char) (leading : Int) : String :=
  let fraction := digits.drop 1
  String.ofList (digits.take 1) ++
    (if fraction.isEmpty then "" else "." ++ String.ofList fraction) ++ "e" ++
    (if leading < 0 then "-" else if layout.plusSign then "+" else "") ++ toString leading.natAbs

/-- The text of a decimal. -/
def magnitude (layout : Layout) (d : Decimal) : String :=
  if d.significand = 0 then (if layout.keepsFraction then "0.0" else "0")
  else
    let digits := Nat.toDigits 10 d.significand
    let leading : Int := (digits.length : Int) - 1 + d.exponent
    let tooSmall := match layout.positionalFrom with
      | some least => decide (leading < least)
      | none => false
    let tooLarge := match layout.positionalBelow with
      | some bound => decide (bound ≤ leading)
      | none => false
    if tooSmall || tooLarge then scientific layout digits leading
    else positional layout digits d.exponent

/-- The text of a decimal with a sign. -/
def signed (layout : Layout) (negative : Bool) (d : Decimal) : String :=
  (if negative then "-" else "") ++ magnitude layout d

end Layout

end ForeignCall
