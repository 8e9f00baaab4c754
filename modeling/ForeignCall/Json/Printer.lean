import ForeignCall.Json
import ForeignCall.Number.Layout
import ForeignCall.Text.Quoted

/-!
# ForeignCall.Json.Printer

JSON text: `compact` without any blanks, `pretty` with an indentation of two
spaces.  Strings escape the double quote, the backslash and U+0000 to U+001F,
and nothing else.
-/

namespace ForeignCall

namespace Json

namespace Printer

/-- Doubles are positional from 10^-5 up to below 10^16, and never look like integers. -/
def layout : Layout := ⟨some (-5), some 16, true, true⟩

/-- The text of a number. -/
def number : Number → String
  | .integer n _ _ => toString n
  | .real x _ => layout.signed x.negative (Shortest.ofBinary64 .toEven x)

/-- How a character is written in a string. -/
def character (c : Char) : String :=
  if c = '"' then "\\\""
  else if c = '\\' then "\\\\"
  else if c = '\n' then "\\n"
  else if c = '\t' then "\\t"
  else if c = '\r' then "\\r"
  else if c = '\x08' then "\\b"
  else if c = '\x0c' then "\\f"
  else if c.toNat < 0x20 then "\\u00" ++ Quoted.hexOctet c.toNat.toUInt8
  else String.singleton c

/-- The text of a string. -/
def string (s : String) : String :=
  "\"" ++ String.join (s.toList.map character) ++ "\""

mutual

/-- The text of a value without blanks. -/
def compact : Json → String
  | .null => "null"
  | .bool b => if b then "true" else "false"
  | .number n => number n
  | .string s => string s
  | .array items => "[" ++ ",".intercalate (compactItems items) ++ "]"
  | .object fields => "\x7b" ++ ",".intercalate (compactFields fields) ++ "\x7d"

/-- The texts of the items of an array. -/
def compactItems : List Json → List String
  | [] => []
  | item :: rest => compact item :: compactItems rest

/-- The texts of the fields of an object. -/
def compactFields : List (String × Json) → List String
  | [] => []
  | (key, item) :: rest => (string key ++ ":" ++ compact item) :: compactFields rest

end

/-- The line break before an item at a depth. -/
def newline (depth : Nat) : String :=
  "\n" ++ String.ofList (List.replicate (2 * depth) ' ')

/-- Items between brackets, each on a line of its own. -/
def block (depth : Nat) (opening closing : String) (items : List String) : String :=
  if items.isEmpty then opening ++ closing
  else
    opening ++ newline (depth + 1) ++ ("," ++ newline (depth + 1)).intercalate items ++
      newline depth ++ closing

mutual

/-- The indented text of a value at a depth. -/
def pretty (depth : Nat) : Json → String
  | .array items => block depth "[" "]" (prettyItems (depth + 1) items)
  | .object fields => block depth "\x7b" "\x7d" (prettyFields (depth + 1) fields)
  | .null => "null"
  | .bool b => if b then "true" else "false"
  | .number n => number n
  | .string s => string s

/-- The indented texts of the items of an array. -/
def prettyItems (depth : Nat) : List Json → List String
  | [] => []
  | item :: rest => pretty depth item :: prettyItems depth rest

/-- The indented texts of the fields of an object. -/
def prettyFields (depth : Nat) : List (String × Json) → List String
  | [] => []
  | (key, item) :: rest => (string key ++ ": " ++ pretty depth item) :: prettyFields depth rest

end

end Printer

/-- JSON text without blanks. -/
def compact (json : Json) : String :=
  Printer.compact json

/-- JSON text indented by two spaces. -/
def pretty (json : Json) : String :=
  Printer.pretty 0 json

end Json

end ForeignCall
