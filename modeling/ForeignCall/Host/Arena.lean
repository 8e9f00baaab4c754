import ForeignCall.Entries
import ForeignCall.Host.Runtime
import ForeignCall.Json
import ForeignCall.Number.Layout
import ForeignCall.Text.Utf8

/-!
# ForeignCall.Host.Arena

A host that keeps every value in an arena.

Slots are only ever added, and a handle is the number of a slot, as a 32-bit
word.  Values refer to each other by handle without any restriction, so that
they can be shared, form cycles, or be missing altogether (`stale`).  An arena
is well-founded when each value refers to earlier slots only; then every value
unfolds to a finite tree.
-/

namespace ForeignCall

/-- A host: its values and the errors raised in it, oldest first. -/
structure Arena where
  slots : Array HostValue := #[]
  errors : List String := []
deriving DecidableEq, Repr, Inhabited

namespace Arena

/-- Arrays within arrays that are written out as text. -/
def maxNesting : Nat := 64

/-! ## Slots -/

/-- The value of a handle. -/
def get (a : Arena) (h : Handle) : Except HostError HostValue :=
  match a.slots[h.slot.toNat]? with
  | some v => .ok v
  | none => .error (.stale h)

/-- The handle that the next value gets. -/
def nextHandle (a : Arena) : Handle :=
  ⟨UInt32.ofNat a.slots.size⟩

/-- Add a value. -/
def alloc (a : Arena) (v : HostValue) : Handle × Arena :=
  (a.nextHandle, { a with slots := a.slots.push v })

/-- Each value refers to earlier slots only. -/
def WellFounded (a : Arena) : Prop :=
  ∀ (i : Nat) (v : HostValue), a.slots[i]? = some v → ∀ h ∈ v.parts, h.slot.toNat < i

/-! ## Errors -/

/-- Raise an error. -/
def raise (a : Arena) (message : String) : Arena :=
  { a with errors := a.errors ++ [message] }

/-- Take the newest error. -/
def takeError (a : Arena) : Option String × Arena :=
  (a.errors.getLast?, { a with errors := a.errors.dropLast })

/-! ## JSON -/

mutual

/-- Build a JSON value, parts before wholes.  Every number becomes a double. -/
def ofJson (a : Arena) : Json → Handle × Arena
  | .null => a.alloc .null
  | .bool b => a.alloc (.boolean b)
  | .number n => a.alloc (.number n.toBinary64)
  | .string s => a.alloc (.string s)
  | .array items =>
    let (handles, a) := ofJsonItems a items
    a.alloc (.array handles)
  | .object fields =>
    let (properties, a) := ofJsonFields a fields
    a.alloc (.object properties)

/-- Build the items of an array, in order. -/
def ofJsonItems (a : Arena) : List Json → List Handle × Arena
  | [] => ([], a)
  | item :: rest =>
    let (h, a) := ofJson a item
    let (handles, a) := ofJsonItems a rest
    (h :: handles, a)

/-- Build the fields of an object, in order. -/
def ofJsonFields (a : Arena) : List (String × Json) → List (String × Handle) × Arena
  | [] => ([], a)
  | (key, item) :: rest =>
    let (h, a) := ofJson a item
    let (properties, a) := ofJsonFields a rest
    ((key, h) :: properties, a)

end

/-- The JSON view of a value, unfolded at most `levels` levels deep: `none` if that is not enough.
Missing values are null; functions and symbols are strings in angle brackets; of several
properties with one key the last counts. -/
def toJsonWithin (a : Arena) : Nat → Handle → Option Json
  | 0, _ => none
  | levels + 1, h =>
    match a.slots[h.slot.toNat]? with
    | none | some .undefined | some .null => some .null
    | some (.boolean b) => some (.bool b)
    | some (.number x) => some (.ofBinary64 x)
    | some (.bigint n) => some (.ofInt64 n)
    | some (.string s) => some (.string s)
    | some (.array items) => (items.mapM (toJsonWithin a levels)).map .array
    | some (.object properties) =>
      (properties.mapM fun p => (toJsonWithin a levels p.2).map fun json => (p.1, json)).map
        fun fields => .object (Entries.ofList fields)
    | some (.function name) => some (.string ("<function " ++ name ++ ">"))
    | some .symbol => some (.string "<symbol>")

/-- The JSON view of a value; `none` only if it contains itself. -/
def toJson? (a : Arena) (h : Handle) : Option Json :=
  a.toJsonWithin (a.slots.size + 1) h

/-! ## Text of values -/

/-- Numbers that are not whole are written out in full, however many zeros that takes. -/
def numberLayout : Layout := ⟨none, none, false, false⟩

/-- The text of a number.  Whole numbers below 10^21 are written as signed 64-bit integers, and
those that do not fit one as the nearest that does. -/
def numberText (x : Binary64) : String :=
  match x.datum with
  | .nan => "NaN"
  | .infinite negative => if negative then "-Infinity" else "Infinity"
  | .finite negative _ _ =>
    match x.exactInt? with
    | some i =>
      if i.natAbs < 10 ^ 21 then toString (max (-2 ^ 63) (min i (2 ^ 63 - 1)))
      else numberLayout.signed negative (Shortest.ofBinary64 .upward x)
    | none => numberLayout.signed negative (Shortest.ofBinary64 .upward x)

/-- The text of a value that is no array. -/
def plainText : HostValue → Except HostError String
  | .undefined => .ok "undefined"
  | .null => .ok "null"
  | .boolean b => .ok (if b then "true" else "false")
  | .number x => .ok (numberText x)
  | .bigint n => .ok (toString n.toInt)
  | .string s => .ok s
  | .array _ => .error .arraysTooDeep
  | .object _ => .ok "[object Object]"
  | .function name => .ok ("function " ++ name ++ "() \x7b [native code] \x7d")
  | .symbol => .error .symbolText

/-- The text of a value.  An array is the texts of its items between commas, where undefined and
null are empty; `levels` more arrays may be open. -/
def display (a : Arena) : Nat → Handle → Except HostError String
  | 0, h => do plainText (← a.get h)
  | levels + 1, h => do
    match ← a.get h with
    | .array items =>
      let texts ← items.mapM fun item => do
        if (← a.get item).isNullish then return "" else display a levels item
      return ",".intercalate texts
    | v => plainText v

/-- A string for a value: itself if it is a string, and otherwise a new one. -/
def coerce (a : Arena) (h : Handle) : Except HostError (Handle × Arena) := do
  match ← a.get h with
  | .string _ => return (h, a)
  | _ => return a.alloc (.string (← a.display (maxNesting + 1) h))

/-! ## Strings and arrays -/

/-- The text of a string. -/
def stringOf (a : Arena) (h : Handle) : Except HostError String := do
  match ← a.get h with
  | .string s => return s
  | v => throw (.notString v.kind)

/-- Number of octets of a string. -/
def utf8Len (a : Arena) (h : Handle) : Except HostError Nat := do
  return Utf8.size (← a.stringOf h)

/-- The octets of a string that fit into `size` octets beside a terminator, cut between
characters. -/
def readUtf8 (a : Arena) (h : Handle) (size : Nat) : Except HostError (List UInt8) := do
  let s ← a.stringOf h
  return if size = 0 then [] else Utf8.cut (size - 1) s

/-- Copy a string into a buffer, with a terminator: how many octets of it were copied, and the
buffer then.  Nothing is written to an empty buffer. -/
def readInto (a : Arena) (h : Handle) (buffer : List UInt8) :
    Except HostError (Nat × List UInt8) := do
  let octets ← a.readUtf8 h buffer.length
  return match buffer with
    | [] => (0, [])
    | _ :: _ => (octets.length, octets ++ 0 :: buffer.drop (octets.length + 1))

/-- The items of an array. -/
def itemsOf (a : Arena) (h : Handle) : Except HostError (List Handle) := do
  match ← a.get h with
  | .array items => return items
  | v => throw (.notArray v.kind)

/-- Number of items of an array, as a 32-bit word. -/
def arrayLen (a : Arena) (h : Handle) : Except HostError Nat := do
  return (← a.itemsOf h).length % 2 ^ 32

/-- An item of an array. -/
def arrayGet (a : Arena) (h : Handle) (index : Nat) : Except HostError Handle := do
  match (← a.itemsOf h)[index]? with
  | some item => return item
  | none => throw (.outOfBounds index)

/-! ## The host -/

instance : HostRuntime Arena where
  classify h := Action.look (·.get h)
  create v := fun a =>
    let (h, a) := a.alloc v
    .ok h a
  utf8Len h := Action.look (·.utf8Len h)
  readUtf8 h size := Action.look (·.readUtf8 h size)
  coerceToString h := fun a =>
    match a.coerce h with
    | .ok (h, a) => .ok h a
    | .error e => .error (.error e) a
  arrayLen h := Action.look (·.arrayLen h)
  arrayGet h index := Action.look (·.arrayGet h index)
  raise message a := a.raise message

end Arena

end ForeignCall
