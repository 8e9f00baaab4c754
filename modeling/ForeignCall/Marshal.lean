import ForeignCall.Host.Runtime
import ForeignCall.Limits
import ForeignCall.Text.Utf8
import ForeignCall.Value

/-!
# ForeignCall.Marshal

Values on their way between host and engine.

| host              | engine                                  |
|-------------------|-----------------------------------------|
| undefined, null   | `null`                                  |
| boolean           | `bool`                                  |
| number            | `f64` (from `s8`, `s16`, `s32`, `f32`)  |
| bigint            | `s64`                                   |
| string            | `string`                                |
| array             | `array`                                 |
| object            | `map`, the last property of each key    |
| function          | `function`                              |
| symbol            | none                                    |
| none              | `ptr`                                   |

Both directions walk the value in pre-order and stop at the first node that
cannot cross.  A node is refused for its depth first, then for the number of
nodes so far, then for its kind.  The host's values may be shared and may form
cycles, so it is the unfolded tree whose depth and nodes count; the depth bound
ends the walk on a cycle.  Neither direction changes what it reads.
-/

namespace ForeignCall

/-- Why a value cannot cross. -/
inductive ConversionError where
  | unsupportedHostKind (kind : HostKind)
  | unsupportedValueKind (kind : ValueKind)
  | tooDeep
  | tooManyNodes (most : Nat)
  /-- A native string would contain a NUL at this index. -/
  | interiorNul (index : Nat)
  | invalidUtf8 (fault : Utf8.Malformed)
  | host (e : HostError)
deriving DecidableEq, Repr

namespace Marshal

/-- The greatest depth of a node; the root has depth 0. -/
def maxDepth : Nat := 64

end Marshal

/-- The wording of a failed conversion. -/
def ConversionError.message : ConversionError → String
  | .unsupportedHostKind kind => "unsupported host value kind: " ++ kind.name
  | .unsupportedValueKind kind => "unsupported value kind: " ++ kind.name
  | .tooDeep => "value nesting exceeds " ++ toString Marshal.maxDepth ++ " levels"
  | .tooManyNodes most => s!"value has more than {most} nodes"
  | .interiorNul index => s!"string contains an interior NUL byte at {index}"
  | .invalidUtf8 fault => "invalid UTF-8: " ++ fault.message
  | .host e => e.message

namespace Marshal

/-- A host, and the nodes visited so far. -/
structure Visit (σ : Type) where
  host : σ
  visited : Nat

/-- A walk over the nodes of a value. -/
abbrev Walk (σ α : Type) := Action (Visit σ) ConversionError α

namespace Walk

variable {σ α β : Type}

/-- A request to the host. -/
def onHost (action : Action σ HostError α) : Walk σ α := fun ⟨host, visited⟩ =>
  match action host with
  | .ok a host => .ok a ⟨host, visited⟩
  | .error abort host => .error (abort.map .host) ⟨host, visited⟩

/-- Visit one more node, of at most `most`.  Nodes are counted in 64 bits, and it is a breakdown if
that is not enough. -/
def visit (most : Nat) : Walk σ Unit := fun ⟨host, visited⟩ =>
  if visited + 1 = 2 ^ 64 then .error (.panic (some "attempt to add with overflow")) ⟨host, visited⟩
  else if visited + 1 ≤ most then .ok () ⟨host, visited + 1⟩
  else .error (.error (.tooManyNodes most)) ⟨host, visited + 1⟩

/-- Walk over the items of a list, in order. -/
def each (step : α → Walk σ β) : List α → Walk σ (List β)
  | [] => pure []
  | item :: rest => do
    let first ← step item
    let others ← each step rest
    return first :: others

/-- Walk over the entries of a list, in order, keeping their keys. -/
def eachEntry (step : α → Walk σ β) : List (String × α) → Walk σ (List (String × β))
  | [] => pure []
  | (key, item) :: rest => do
    let first ← step item
    let others ← eachEntry step rest
    return (key, first) :: others

/-- Walk with nothing visited yet. -/
def start (walk : Walk σ α) : Action σ ConversionError α := fun host =>
  match walk ⟨host, 0⟩ with
  | .ok a ⟨host, _⟩ => .ok a host
  | .error abort ⟨host, _⟩ => .error abort host

end Walk

variable {σ : Type} [HostRuntime σ]

/-- The value of a handle, with `levels` levels left for it. -/
def importNode (most : Nat) : Nat → Handle → Walk σ Value.Canonical
  | 0, _ => Action.fail .tooDeep
  | levels + 1, h => do
    Walk.visit most
    match ← Walk.onHost (HostRuntime.classify h) with
    | .undefined => return ⟨.null, trivial⟩
    | .null => return ⟨.null, trivial⟩
    | .boolean b => return ⟨.bool b, trivial⟩
    | .number x => return ⟨.f64 x, trivial⟩
    | .bigint n => return ⟨.s64 n, trivial⟩
    | .string s => return ⟨.string s, trivial⟩
    | .array items => return .array (← Walk.each (importNode most levels) items)
    | .object properties => return .map (← Walk.eachEntry (importNode most levels) properties)
    | .function name => return ⟨.function name, trivial⟩
    | .symbol => Action.fail (.unsupportedHostKind .symbol)

/-- The host value of a value that has no parts. -/
def hostLeaf? : Value → Option HostValue
  | .null => some .null
  | .bool b => some (.boolean b)
  | .s64 n => some (.bigint n)
  | .string s => some (.string s)
  | .function name => some (.function name)
  | v => v.toBinary64?.map .number

/-- A new host value, parts before wholes, with `levels` levels left for it. -/
def exportNode (most : Nat) : Nat → Value → Walk σ Handle
  | 0, _ => Action.fail .tooDeep
  | levels + 1, v => do
    Walk.visit most
    match v with
    | .array items =>
      let handles ← Walk.each (exportNode most levels) items
      Walk.onHost (HostRuntime.create (.array handles))
    | .map entries =>
      let properties ← Walk.eachEntry (exportNode most levels) entries
      Walk.onHost (HostRuntime.create (.object properties))
    | v =>
      match hostLeaf? v with
      | some leaf => Walk.onHost (HostRuntime.create leaf)
      | none => Action.fail (.unsupportedValueKind v.kind)

/-- The value of a handle. -/
def toValue (limits : Limits) (h : Handle) : Action σ ConversionError Value.Canonical :=
  (importNode limits.maxNodes.toNat (maxDepth + 1) h).start

/-- A new host value. -/
def toHost (limits : Limits) (v : Value) : Action σ ConversionError Handle :=
  (exportNode limits.maxNodes.toNat (maxDepth + 1) v).start

end Marshal

end ForeignCall
