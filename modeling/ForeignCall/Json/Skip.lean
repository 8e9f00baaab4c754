import ForeignCall.Json.Reader

/-!
# ForeignCall.Json.Skip

Reading past a JSON value that nobody asked for.

The grammar is the reader's, with three differences, because nothing is built:
containers may nest to any depth, a number may be of any size, and the numbers
of escaped characters are not paired up.  A number that breaks off is always
malformed, also where the text ends.
-/

namespace ForeignCall

namespace Json

namespace Skip

/-- Digits of a fraction or exponent, at least one. -/
def someDigits (text : List Char) : Except Fault (List Char) :=
  match text with
  | c :: rest => if c.isDigit then .ok (rest.dropWhile Char.isDigit) else .error .malformed
  | [] => .error .malformed

/-- An exponent or nothing. -/
def exponent (text : List Char) : Except Fault (List Char) :=
  match text with
  | 'e' :: rest | 'E' :: rest =>
    match rest with
    | '+' :: rest | '-' :: rest => someDigits rest
    | rest => someDigits rest
  | text => .ok text

/-- A number, after its sign. -/
def number (text : List Char) : Except Fault (List Char) := do
  let digits := text.takeWhile Char.isDigit
  let rest := text.dropWhile Char.isDigit
  if digits.isEmpty then throw .malformed
  if digits.head? = some '0' ∧ 1 < digits.length then throw .malformed
  match rest with
  | '.' :: rest => exponent (← someDigits rest)
  | rest => exponent rest

/-- The rest of a string.  `fuel` bounds the number of its characters. -/
def string : Nat → List Char → Except Fault (List Char)
  | 0, _ => .error .endOfText
  | _ + 1, [] => .error .endOfText
  | fuel + 1, c :: rest =>
    if c = '"' then .ok rest
    else if c = '\\' then
      match rest with
      | [] => .error .endOfText
      | 'u' :: rest => do
        let (_, rest) ← Reader.hexUnit rest
        string fuel rest
      | c :: rest =>
        if (Reader.escaped? c).isSome then string fuel rest else .error .malformed
    else if c.toNat < 0x20 then .error .malformed
    else string fuel rest

mutual

/-- A value.  Every call takes one unit of `fuel`. -/
def value : Nat → List Char → Except Fault (List Char)
  | 0, _ => .error .endOfText
  | fuel + 1, text =>
    match Reader.skipBlank text with
    | [] => .error .endOfText
    | 'n' :: rest => Reader.literal "ull".toList rest
    | 't' :: rest => Reader.literal "rue".toList rest
    | 'f' :: rest => Reader.literal "alse".toList rest
    | '"' :: rest => string (rest.length + 1) rest
    | '[' :: rest => items fuel true rest
    | '{' :: rest => fields fuel true rest
    | '-' :: rest => number rest
    | c :: rest => if c.isDigit then number (c :: rest) else .error .malformed

/-- The items of an array, up to its closing bracket. -/
def items : Nat → Bool → List Char → Except Fault (List Char)
  | 0, _, _ => .error .endOfText
  | fuel + 1, first, text =>
    match Reader.skipBlank text with
    | [] => .error .endOfText
    | ']' :: rest => .ok rest
    | c :: rest => do
      let start ← Reader.separated first ']' c rest
      items fuel false (← value fuel start)

/-- The fields of an object, up to its closing brace. -/
def fields : Nat → Bool → List Char → Except Fault (List Char)
  | 0, _, _ => .error .endOfText
  | fuel + 1, first, text =>
    match Reader.skipBlank text with
    | [] => .error .endOfText
    | '}' :: rest => .ok rest
    | c :: rest => do
      match ← Reader.separated first '}' c rest with
      | '"' :: rest =>
        let rest ← string (rest.length + 1) rest
        let rest ← Reader.colon rest
        fields fuel false (← value fuel rest)
      | _ => throw .malformed

end

end Skip

/-- The text after a value. -/
def skip (text : List Char) : Except Fault (List Char) :=
  Skip.value (2 * text.length + 2) text

end Json

end ForeignCall
