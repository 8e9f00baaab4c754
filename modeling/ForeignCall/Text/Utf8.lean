/-!
# ForeignCall.Text.Utf8

UTF-8 as lists of octets: the octets of a text, reading octets back as a text,
and cutting a text so that it fits a given room.

Reading is strict: no overlong forms, no surrogates, nothing above U+10FFFF.
The ranges that exclude these are ranges of the *second* octet, which depend on
the first one; `opening` is that table.  A refusal says how many octets before
it were good and how many octets of the offending sequence could still have
begun a character.
-/

namespace ForeignCall

namespace Utf8

/-! ## Writing -/

/-- The octets of a text. -/
def octets (text : String) : List UInt8 :=
  text.toList.flatMap String.utf8EncodeChar

/-- How many octets a text has. -/
def size (text : String) : Nat :=
  (octets text).length

/-! ## Reading -/

/-- A sequence of several octets that has begun. -/
structure Sequence where
  /-- Octets read so far. -/
  seen : Nat
  /-- Octets still to come. -/
  missing : Nat
  /-- Least value of the next octet. -/
  low : UInt8
  /-- Greatest value of the next octet. -/
  high : UInt8
  /-- The code point bits read so far. -/
  code : Nat
deriving DecidableEq, Repr

/-- What an octet above 0x7F opens, if it can open a sequence at all. -/
def opening (octet : UInt8) : Option Sequence :=
  let code := octet.toNat
  if octet < 0xC2 then none
  else if octet < 0xE0 then some ⟨1, 1, 0x80, 0xBF, code - 0xC0⟩
  else if octet = 0xE0 then some ⟨1, 2, 0xA0, 0xBF, code - 0xE0⟩
  else if octet = 0xED then some ⟨1, 2, 0x80, 0x9F, code - 0xE0⟩
  else if octet < 0xF0 then some ⟨1, 2, 0x80, 0xBF, code - 0xE0⟩
  else if octet = 0xF0 then some ⟨1, 3, 0x90, 0xBF, code - 0xF0⟩
  else if octet < 0xF4 then some ⟨1, 3, 0x80, 0xBF, code - 0xF0⟩
  else if octet = 0xF4 then some ⟨1, 3, 0x80, 0x8F, code - 0xF0⟩
  else none

/-- Why octets are no text. -/
structure Malformed where
  /-- Length of the longest good beginning. -/
  validUpTo : Nat
  /-- Length of the sequence that is ruled out, or `none` if the octets end inside one. -/
  length : Option Nat
deriving DecidableEq, Repr

/-- The wording of a refusal. -/
def Malformed.message (fault : Malformed) : String :=
  match fault.length with
  | some length => s!"invalid utf-8 sequence of {length} bytes from index {fault.validUpTo}"
  | none => s!"incomplete utf-8 byte sequence from index {fault.validUpTo}"

/-- Read on, with `valid` octets read as whole characters and perhaps a sequence begun. -/
def decodeFrom (valid : Nat) : Option Sequence → List UInt8 → Except Malformed (List Char)
  | none, [] => .ok []
  | some _, [] => .error ⟨valid, none⟩
  | none, octet :: rest =>
    if octet < 0x80 then (Char.ofNat octet.toNat :: ·) <$> decodeFrom (valid + 1) none rest
    else match opening octet with
      | none => .error ⟨valid, some 1⟩
      | some begun => decodeFrom valid (some begun) rest
  | some begun, octet :: rest =>
    if octet < begun.low ∨ begun.high < octet then .error ⟨valid, some begun.seen⟩
    else
      let code := begun.code * 64 + (octet.toNat - 0x80)
      if begun.missing ≤ 1 then
        (Char.ofNat code :: ·) <$> decodeFrom (valid + begun.seen + 1) none rest
      else
        decodeFrom valid (some ⟨begun.seen + 1, begun.missing - 1, 0x80, 0xBF, code⟩) rest

/-- The text that octets spell. -/
def decode (bytes : List UInt8) : Except Malformed String :=
  String.ofList <$> decodeFrom 0 none bytes

/-! ## Cutting -/

/-- The longest beginning of a text whose octets fit into `room`. -/
def fitting (room : Nat) : List Char → List Char
  | [] => []
  | c :: rest => if c.utf8Size ≤ room then c :: fitting (room - c.utf8Size) rest else []

/-- The octets of the longest beginning of a text that fits into `room`; no character is split. -/
def cut (room : Nat) (text : String) : List UInt8 :=
  (fitting room text.toList).flatMap String.utf8EncodeChar

end Utf8

end ForeignCall
