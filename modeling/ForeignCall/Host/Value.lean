import ForeignCall.Number.Binary64

/-!
# ForeignCall.Host.Value

The values of the host's side of a call, one level deep: arrays and objects
refer to their parts by handle.  An object keeps its properties in the order
in which they were given, repeated keys included.
-/

namespace ForeignCall

/-- A reference to a value of the host. -/
structure Handle where
  slot : UInt32
deriving DecidableEq, Repr, Inhabited

/-- The kind of a host value. -/
inductive HostKind where
  | undefined
  | null
  | boolean
  | number
  | bigint
  | string
  | array
  | object
  | function
  | symbol
deriving DecidableEq, Repr

/-- The name of a kind. -/
def HostKind.name : HostKind → String
  | .undefined => "undefined"
  | .null => "null"
  | .boolean => "boolean"
  | .number => "number"
  | .bigint => "bigint"
  | .string => "string"
  | .array => "array"
  | .object => "object"
  | .function => "function"
  | .symbol => "symbol"

/-- A host value. -/
inductive HostValue where
  | undefined
  | null
  | boolean (b : Bool)
  | number (x : Binary64)
  | bigint (n : Int64)
  | string (s : String)
  | array (items : List Handle)
  | object (properties : List (String × Handle))
  | function (name : String)
  | symbol
deriving DecidableEq, Repr, Inhabited

namespace HostValue

/-- The kind of a value. -/
def kind : HostValue → HostKind
  | .undefined => .undefined
  | .null => .null
  | .boolean _ => .boolean
  | .number _ => .number
  | .bigint _ => .bigint
  | .string _ => .string
  | .array _ => .array
  | .object _ => .object
  | .function _ => .function
  | .symbol => .symbol

/-- Undefined or null. -/
def isNullish : HostValue → Bool
  | .undefined | .null => true
  | _ => false

/-- The handles a value refers to. -/
def parts : HostValue → List Handle
  | .array items => items
  | .object properties => properties.map Prod.snd
  | _ => []

end HostValue

/-- Why a request to the host failed. -/
inductive HostError where
  /-- There is no such value. -/
  | stale (h : Handle)
  | notString (kind : HostKind)
  | notArray (kind : HostKind)
  | outOfBounds (index : Nat)
  /-- Arrays within arrays beyond what the host writes out. -/
  | arraysTooDeep
  /-- A symbol has no text. -/
  | symbolText
  /-- The caller announced more arguments than there are. -/
  | missingArgument (index : Nat)
  /-- Whatever else the host reports. -/
  | reported (text : String)
deriving DecidableEq, Repr

namespace HostError

/-- What went wrong. -/
def cause : HostError → String
  | .stale h => s!"stale handle {h.slot.toNat}"
  | .notString kind => "expected string, got " ++ kind.name
  | .notArray kind => "expected array, got " ++ kind.name
  | .outOfBounds index => s!"index {index} out of bounds"
  | .arraysTooDeep => "array nesting too deep"
  | .symbolText => "cannot convert a symbol to a string"
  | .missingArgument index => s!"missing argument {index}"
  | .reported text => text

/-- The wording of a failed request. -/
def message (e : HostError) : String :=
  "host runtime error: " ++ e.cause

end HostError

end ForeignCall
