import ForeignCall.Json.Skip
import ForeignCall.Limits

/-!
# ForeignCall.Config

Reading a configuration from JSON text.

A configuration is a record with the one field `limits`, and that is a record
of four numbers.  A record is written as an object, whose fields may come in
any order, be left out, and stand among fields with other names; or as an array
of its fields in their order, of which the last ones may be left out.  What is
left out keeps its default.

The text is read from left to right and the first fault counts.  A fault is
`mistyped` where JSON itself is well-formed so far: a value of the wrong kind
(reported as soon as the kind is certain, after the value if it is a scalar),
a number that is no natural number below 2^64, or a field given twice
(reported at its second key).
-/

namespace ForeignCall

/-- What a bridge is configured with. -/
structure Config where
  limits : Limits := {}
deriving DecidableEq, Repr, Inhabited

namespace Config

/-- Why a text is no configuration. -/
inductive Fault where
  | endOfText
  | malformed
  | mistyped
deriving DecidableEq, Repr

/-- The wording of a refusal. -/
def Fault.message : Fault → String
  | .endOfText => Json.Fault.message .endOfText
  | .malformed => Json.Fault.message .malformed
  | .mistyped => "a value is of the wrong type"

/-- A fault of the JSON text. -/
def Fault.ofJson : Json.Fault → Fault
  | .endOfText => .endOfText
  | .malformed => .malformed

/-- Pass on the faults of the JSON text. -/
def json {α : Type} (result : Except Json.Fault α) : Except Fault α :=
  result.mapError Fault.ofJson

/-! ## Values of the wrong kind -/

/-- A value that starts here and is not of the kind asked for. -/
def wrongKind (text : List Char) : Fault :=
  let after {α : Type} (result : Except Json.Fault α) : Fault :=
    match result with
    | .ok _ => .mistyped
    | .error fault => .ofJson fault
  match text with
  | 'n' :: rest => after (Json.Reader.literal "ull".toList rest)
  | 't' :: rest => after (Json.Reader.literal "rue".toList rest)
  | 'f' :: rest => after (Json.Reader.literal "alse".toList rest)
  | '"' :: rest => after (Json.Reader.string rest)
  | '-' :: rest => after (Json.Numeral.read true rest)
  | '[' :: _ | '{' :: _ => .mistyped
  | c :: rest => if c.isDigit then after (Json.Numeral.read false (c :: rest)) else .malformed
  | [] => .endOfText

/-! ## Numbers -/

/-- A number as a bound. -/
def bound (n : Json.Number) : Except Fault UInt64 :=
  match n with
  | .integer n _ _ => if 0 ≤ n then .ok (UInt64.ofNat n.toNat) else .error .mistyped
  | .real _ _ => .error .mistyped

/-- A bound. -/
def readBound (text : List Char) : Except Fault (UInt64 × List Char) := do
  match Json.Reader.skipBlank text with
  | [] => throw .endOfText
  | '-' :: rest =>
    let (n, rest) ← json (Json.Numeral.read true rest)
    return (← bound n, rest)
  | c :: rest =>
    if c.isDigit then
      let (n, rest) ← json (Json.Numeral.read false (c :: rest))
      return (← bound n, rest)
    else throw (wrongKind (c :: rest))

/-! ## Records -/

/-- One field of a record that is being read: its name, whether it has been given, and how its
value is read into the record. -/
structure Field (σ : Type) where
  name : String
  given : σ → Bool
  read : σ → List Char → Except Fault (σ × List Char)

/-- The members of an object, up to its closing brace.  `fuel` bounds their number. -/
def members {σ : Type} (known : List (Field σ)) :
    Nat → Bool → σ → List Char → Except Fault (σ × List Char)
  | 0, _, _, _ => .error .endOfText
  | fuel + 1, first, record, text =>
    match Json.Reader.skipBlank text with
    | [] => .error .endOfText
    | '}' :: rest => .ok (record, rest)
    | c :: rest => do
      let start ← json (Json.Reader.separated first '}' c rest)
      let (key, rest) ← json (Json.Reader.fieldKey start)
      match known.find? (·.name = key) with
      | some field =>
        if field.given record then throw .mistyped
        let rest ← json (Json.Reader.colon rest)
        let (record, rest) ← field.read record rest
        members known fuel false record rest
      | none =>
        let rest ← json (Json.Reader.colon rest)
        members known fuel false record (← json (Json.skip rest))

/-- The closing bracket of an array with an element for each field. -/
def closing (text : List Char) : Except Fault (List Char) :=
  match Json.Reader.skipBlank text with
  | [] => .error .endOfText
  | ']' :: rest => .ok rest
  | _ => .error .malformed

/-- The elements of an array, one for each field, up to its closing bracket. -/
def elements {σ : Type} :
    List (Field σ) → Bool → σ → List Char → Except Fault (σ × List Char)
  | [], _, record, text => do return (record, ← closing text)
  | field :: more, first, record, text =>
    match Json.Reader.skipBlank text with
    | [] => .error .endOfText
    | ']' :: rest => .ok (record, rest)
    | c :: rest => do
      let start ← json (Json.Reader.separated first ']' c rest)
      let (record, rest) ← field.read record start
      elements more false record rest

/-- A record, as an object or an array. -/
def record {σ : Type} (known : List (Field σ)) (empty : σ) (text : List Char) :
    Except Fault (σ × List Char) :=
  match Json.Reader.skipBlank text with
  | [] => .error .endOfText
  | '[' :: rest => elements known true empty rest
  | '{' :: rest => members known (rest.length + 1) true empty rest
  | text => .error (wrongKind text)

/-! ## The configuration -/

/-- The bounds given so far. -/
structure GivenLimits where
  maxTagLen : Option UInt64 := none
  maxLoadPaths : Option UInt64 := none
  maxPathLen : Option UInt64 := none
  maxNodes : Option UInt64 := none
deriving DecidableEq, Repr

/-- The given bounds, and the defaults of the others. -/
def GivenLimits.complete (given : GivenLimits) : Limits :=
  let default : Limits := {}
  { maxTagLen := given.maxTagLen.getD default.maxTagLen
    maxLoadPaths := given.maxLoadPaths.getD default.maxLoadPaths
    maxPathLen := given.maxPathLen.getD default.maxPathLen
    maxNodes := given.maxNodes.getD default.maxNodes }

/-- A field that holds a bound. -/
def boundField (name : String) (get : GivenLimits → Option UInt64)
    (set : GivenLimits → UInt64 → GivenLimits) : Field GivenLimits where
  name := name
  given record := (get record).isSome
  read record text := do
    let (n, rest) ← readBound text
    return (set record n, rest)

/-- The fields of the limits, in their order. -/
def limitsFields : List (Field GivenLimits) :=
  [boundField "max_tag_len" (·.maxTagLen) fun r n => { r with maxTagLen := some n },
   boundField "max_load_paths" (·.maxLoadPaths) fun r n => { r with maxLoadPaths := some n },
   boundField "max_path_len" (·.maxPathLen) fun r n => { r with maxPathLen := some n },
   boundField "max_nodes" (·.maxNodes) fun r n => { r with maxNodes := some n }]

/-- The fields of a configuration. -/
def configFields : List (Field (Option Limits)) :=
  [{ name := "limits"
     given := Option.isSome
     read := fun _ text => do
      let (given, rest) ← record limitsFields {} text
      return (some given.complete, rest) }]

/-- The configuration that a whole text spells. -/
def read (text : String) : Except Fault Config := do
  let (limits, rest) ← record configFields none text.toList
  if (Json.Reader.skipBlank rest).isEmpty then return { limits := limits.getD {} }
  else throw .malformed

end Config

end ForeignCall
