import ForeignCall.Text.Printable
import ForeignCall.Text.Utf8

/-!
# ForeignCall.Text.Quoted

Texts and octets between double quotes, as the library shows them to a reader
when it describes its own state.  Two rules are in use:

1. `text` escapes the double quote, the backslash and the characters that
   cannot be shown as themselves (`ForeignCall.Text.Printable`); tab, line feed,
   carriage return and NUL have letters of their own, the others are written
   `\u{…}` in hexadecimal;
2. `native` shows octets that need not be a text: the single quote is escaped
   too, and ASCII control characters and octets that are not part of a
   well-formed character are written `\xNN`.
-/

namespace ForeignCall

namespace Quoted

/-- One lower-case hexadecimal digit. -/
def hexDigit (n : Nat) : Char :=
  Nat.digitChar (n % 16)

/-- A number in lower-case hexadecimal, without leading zeros. -/
def hex (n : Nat) : String :=
  String.ofList (Nat.toDigits 16 n)

/-- An octet as two hexadecimal digits. -/
def hexOctet (octet : UInt8) : String :=
  String.ofList [hexDigit (octet.toNat / 16), hexDigit octet.toNat]

/-- A character by its number. -/
def byNumber (c : Char) : String :=
  "\\u\x7b" ++ hex c.toNat ++ "\x7d"

/-- How a character is written in a quoted text. -/
def textChar (c : Char) : String :=
  if c = '"' then "\\\""
  else if c = '\\' then "\\\\"
  else if c = '\n' then "\\n"
  else if c = '\t' then "\\t"
  else if c = '\r' then "\\r"
  else if c = '\x00' then "\\0"
  else if Printable.isHidden c then byNumber c
  else String.singleton c

/-- A text between double quotes. -/
def text (s : String) : String :=
  "\"" ++ String.join (s.toList.map textChar) ++ "\""

/-- How a character is written among quoted octets. -/
def nativeChar (c : Char) : String :=
  if c = '"' then "\\\""
  else if c = '\'' then "\\'"
  else if c = '\\' then "\\\\"
  else if c = '\n' then "\\n"
  else if c = '\t' then "\\t"
  else if c = '\r' then "\\r"
  else if c.toNat < 0x20 || c.toNat = 0x7F then "\\x" ++ hexOctet c.toNat.toUInt8
  else if Printable.isHidden c then byNumber c
  else String.singleton c

/-- Octets, of which each run that is well-formed is shown as text and each other octet by its
number.  `fuel` bounds the number of runs. -/
def nativeBody : Nat → List UInt8 → String
  | 0, _ => ""
  | fuel + 1, bytes =>
    let shown (s : String) : String := String.join (s.toList.map nativeChar)
    match Utf8.decode bytes with
    | .ok s => shown s
    | .error fault =>
      let good := match Utf8.decode (bytes.take fault.validUpTo) with
        | .ok s => shown s
        | .error _ => ""
      let width := fault.length.getD (bytes.length - fault.validUpTo)
      let bad := (bytes.drop fault.validUpTo).take width
      good ++ String.join (bad.map fun octet => "\\x" ++ hexOctet octet) ++
        nativeBody fuel (bytes.drop (fault.validUpTo + width))

/-- Octets between double quotes. -/
def native (bytes : List UInt8) : String :=
  "\"" ++ nativeBody (bytes.length + 1) bytes ++ "\""

/-- A bracketed list of already written items. -/
def list (items : List String) : String :=
  "[" ++ ", ".intercalate items ++ "]"

end Quoted

end ForeignCall
