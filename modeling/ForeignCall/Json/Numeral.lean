import ForeignCall.Json

/-!
# ForeignCall.Json.Numeral

Reading a JSON number.

A numeral without fraction and exponent is an integer if it fits one, except
that `-0` is the double of that sign.  Every other numeral is a double, found
from a significand of at most 64 bits and a power of ten:

1. digits are taken into the significand as long as it stays below 2^64;
2. a digit of the whole part that does not fit only raises the power of ten,
   and so do all that follow it; from the first digit of the fraction that does
   not fit on, the rest of the fraction has no influence;
3. the significand is rounded to a double, which is then multiplied or divided
   by the double nearest to the power of ten, once if the power is at most 308,
   and otherwise by 10^308 first.

Hence the result can be a neighbour of the double nearest to the numeral.  A
numeral too large for a double is refused; one too small is zero.
-/

namespace ForeignCall

namespace Json

/-- Why a text is no JSON value. -/
inductive Fault where
  /-- The text ends inside a value, or before it. -/
  | endOfText
  /-- A character that cannot stand where it does, or a number out of range. -/
  | malformed
deriving DecidableEq, Repr

/-- The wording of a refusal. -/
def Fault.message : Fault → String
  | .endOfText => "the text ends inside a value"
  | .malformed => "the text is malformed"

namespace Numeral

/-- The value of a decimal digit. -/
def digitValue (c : Char) : Nat :=
  c.toNat - '0'.toNat

/-- Take digits into a significand while it stays below 2^64; also says how many were taken. -/
def absorb (significand : Nat) : List Char → Nat × Nat
  | [] => (significand, 0)
  | c :: rest =>
    let next := significand * 10 + digitValue c
    if next < 2 ^ 64 then
      let (result, taken) := absorb next rest
      (result, taken + 1)
    else (significand, 0)

/-- The number that digits spell. -/
def decimalValue (digits : List Char) : Nat :=
  digits.foldl (fun n c => n * 10 + digitValue c) 0

/-- The double nearest to a power of ten. -/
def powerOfTen (e : Nat) : Binary64 :=
  .nearest false (10 ^ e) 1

/-- Scale a significand by a power of ten in doubles; `none` if it leaves their range. -/
def scale (significand : Nat) (exponent : Int) : Option Binary64 :=
  let x := Binary64.ofNat significand
  if 308 < exponent then (if x.isZero then some x else none)
  else if 0 ≤ exponent then
    let product := x.mulFinite (powerOfTen exponent.toNat)
    if product.isFinite then some product else none
  else if -308 ≤ exponent then some (x.divFinite (powerOfTen (-exponent).toNat))
  else if -616 ≤ exponent then
    some ((x.divFinite (powerOfTen 308)).divFinite (powerOfTen (-exponent - 308).toNat))
  else some (.zero false)

/-- A double with a sign, as a number. -/
def real (negative : Bool) (x : Binary64) : Except Fault Number :=
  let signed := if negative then x.neg else x
  if finite : signed.isFinite = true then .ok (.real signed finite) else .error .malformed

/-- A significand and a power of ten, as a number. -/
def scaled (negative : Bool) (significand : Nat) (exponent : Int) : Except Fault Number :=
  match scale significand exponent with
  | some x => real negative x
  | none => .error .malformed

/-- A numeral without fraction and exponent whose digits all fit the significand. -/
def whole (negative : Bool) (significand : Nat) : Except Fault Number :=
  let n : Int := if negative then -(significand : Int) else significand
  if negative && significand = 0 then real true (.zero false)
  else if fits : -2 ^ 63 ≤ n ∧ n < 2 ^ 64 then .ok (.integer n fits.1 fits.2)
  else real negative (.ofNat significand)

/-- The text is over, or goes on with something that is no digit. -/
def missingDigit (text : List Char) : Fault :=
  if text.isEmpty then .endOfText else .malformed

/-- Digits after an exponent mark and its sign.  An exponent above 2^31 - 1 is out of range unless
it makes the number small or the number is zero. -/
def exponentDigits (negative : Bool) (significand : Nat) (exponent : Int) (down : Bool)
    (text : List Char) : Except Fault (Number × List Char) := do
  let digits := text.takeWhile Char.isDigit
  let rest := text.dropWhile Char.isDigit
  if digits.isEmpty then throw (missingDigit text)
  let value := decimalValue digits
  if 2 ^ 31 ≤ value then
    if !down && significand ≠ 0 then throw .malformed
    return (← real negative (.zero false), rest)
  let total := if down then exponent - value else exponent + value
  return (← scaled negative significand total, rest)

/-- What follows the digits of a number: an exponent or nothing. -/
def afterDigits (negative : Bool) (significand : Nat) (exponent : Int) (text : List Char) :
    Except Fault (Number × List Char) :=
  match text with
  | 'e' :: rest | 'E' :: rest =>
    match rest with
    | '+' :: rest => exponentDigits negative significand exponent false rest
    | '-' :: rest => exponentDigits negative significand exponent true rest
    | rest => exponentDigits negative significand exponent false rest
  | text => return (← scaled negative significand exponent, text)

/-- A fraction, after its point. -/
def fraction (negative : Bool) (significand : Nat) (exponent : Int) (text : List Char) :
    Except Fault (Number × List Char) := do
  let digits := text.takeWhile Char.isDigit
  let rest := text.dropWhile Char.isDigit
  if digits.isEmpty then throw (missingDigit text)
  let (significand, taken) := absorb significand digits
  afterDigits negative significand (exponent - taken) rest

/-- A number, after its sign. -/
def read (negative : Bool) (text : List Char) : Except Fault (Number × List Char) := do
  let digits := text.takeWhile Char.isDigit
  let rest := text.dropWhile Char.isDigit
  if digits.isEmpty then throw (missingDigit text)
  if digits.head? = some '0' ∧ 1 < digits.length then throw .malformed
  let (significand, taken) := absorb 0 digits
  let dropped := digits.length - taken
  match rest with
  | '.' :: rest => fraction negative significand dropped rest
  | 'e' :: _ | 'E' :: _ => afterDigits negative significand dropped rest
  | rest =>
    if dropped = 0 then return (← whole negative significand, rest)
    else return (← scaled negative significand dropped, rest)

end Numeral

end Json

end ForeignCall
