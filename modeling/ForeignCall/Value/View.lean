import ForeignCall.Value
import ForeignCall.Json
import ForeignCall.Number.Layout
import ForeignCall.Text.Quoted

/-!
# ForeignCall.Value.View

Values seen as JSON, JSON read as values, and values written out for a reader
with their kinds.

As JSON, integers of all widths are integers, floating point numbers are
doubles, and those that are not finite are null.  Functions and pointers are
strings in angle brackets.  Reading takes integers that fit 64 signed bits as
`s64` and every other number as `f64`.
-/

namespace ForeignCall

namespace Value

/-! ## To JSON -/

mutual

/-- The JSON view of a value. -/
def toJson : Value → Json
  | .null => .null
  | .bool b => .bool b
  | .s8 n => .ofInt64 n.toInt64
  | .s16 n => .ofInt64 n.toInt64
  | .s32 n => .ofInt64 n.toInt64
  | .s64 n => .ofInt64 n
  | .f32 x => .ofBinary64 x.toBinary64
  | .f64 x => .ofBinary64 x
  | .string s => .string s
  | .array items => .array (toJsonItems items)
  | .map entries => .object (toJsonFields entries)
  | .function name => .string ("<function " ++ name ++ ">")
  | .ptr address => .string ("<ptr 0x" ++ Quoted.hex address.toNat ++ ">")

/-- The JSON views of items. -/
def toJsonItems : List Value → List Json
  | [] => []
  | item :: rest => toJson item :: toJsonItems rest

/-- The JSON views of entries. -/
def toJsonFields : List (String × Value) → List (String × Json)
  | [] => []
  | (key, item) :: rest => (key, toJson item) :: toJsonFields rest

end

/-! ## From JSON -/

/-- A JSON number as a value. -/
def ofNumber (n : Json.Number) : Value :=
  match n.toInt64? with
  | some i => .s64 i
  | none => .f64 n.toBinary64

mutual

/-- The value that JSON stands for. -/
def ofJson : Json → Value
  | .null => .null
  | .bool b => .bool b
  | .number n => ofNumber n
  | .string s => .string s
  | .array items => .array (ofJsonItems items)
  | .object fields => .map (ofJsonFields fields)

/-- The values of items. -/
def ofJsonItems : List Json → List Value
  | [] => []
  | item :: rest => ofJson item :: ofJsonItems rest

/-- The values of fields. -/
def ofJsonFields : List (String × Json) → List (String × Value)
  | [] => []
  | (key, item) :: rest => (key, ofJson item) :: ofJsonFields rest

end

/-! ## Written with kinds -/

/-- Doubles are positional from 10^-4 up to below 10^16; an exponent has no plus sign. -/
def layout : Layout := ⟨some (-4), some 16, true, false⟩

/-- A floating point number, written out. -/
def describeFloat (datum : Datum) (shortest : Decimal) : String :=
  match datum with
  | .nan => "NaN"
  | .infinite negative => if negative then "-inf" else "inf"
  | .finite negative _ _ => layout.signed negative shortest

mutual

/-- A value with its kind. -/
def describe : Value → String
  | .null => "Null"
  | .bool b => "Bool(" ++ (if b then "true" else "false") ++ ")"
  | .s8 n => "S8(" ++ toString n.toInt ++ ")"
  | .s16 n => "S16(" ++ toString n.toInt ++ ")"
  | .s32 n => "S32(" ++ toString n.toInt ++ ")"
  | .s64 n => "S64(" ++ toString n.toInt ++ ")"
  | .f32 x => "F32(" ++ describeFloat x.datum (Shortest.ofBinary32 .upward x) ++ ")"
  | .f64 x => "F64(" ++ describeFloat x.datum (Shortest.ofBinary64 .upward x) ++ ")"
  | .string s => "String(" ++ Quoted.text s ++ ")"
  | .array items => "Array(" ++ Quoted.list (describeItems items) ++ ")"
  | .map entries => "Map(\x7b" ++ ", ".intercalate (describeEntries entries) ++ "\x7d)"
  | .function name => "Function(FunctionRef \x7b name: " ++ Quoted.text name ++ " \x7d)"
  | .ptr address => "Ptr(" ++ toString address.toNat ++ ")"

/-- Items with their kinds. -/
def describeItems : List Value → List String
  | [] => []
  | item :: rest => describe item :: describeItems rest

/-- Entries with their kinds. -/
def describeEntries : List (String × Value) → List String
  | [] => []
  | (key, item) :: rest => (Quoted.text key ++ ": " ++ describe item) :: describeEntries rest

end

/-- An owned value, written out. -/
def describeOwned (v : Value) : String :=
  "GenericValue(" ++ describe v ++ ")"

end Value

end ForeignCall
