import ForeignCall.Host.Arena
import ForeignCall.Json.Printer
import ForeignCall.Json.Reader

/-!
# ForeignCall.Host.Steps

What can be done to the values of an arena, one step at a time.

A step names values by their slots, or by counting back from the newest one;
the count starts from what is newest when the step begins.  A step that makes
several values counts anew before each of them, so that a value can refer to
the one made just before it, to itself, or to one that is still to come.
-/

namespace ForeignCall

namespace Arena

/-- Where a value is. -/
inductive Place where
  /-- The slot of this number. -/
  | slot (n : Nat)
  /-- Counted back from the newest value, which is 1. -/
  | back (n : Nat)
deriving DecidableEq, Repr

/-- The handle of a place. -/
def Place.handle (a : Arena) : Place → Handle
  | .slot n => ⟨UInt32.ofNat n⟩
  | .back n => ⟨UInt32.ofInt (a.slots.size - n)⟩

/-- A value that is to be made. -/
inductive Draft where
  /-- Anything but an array or an object. -/
  | plain (v : HostValue)
  | array (items : List Place)
  | object (properties : List (String × Place))

/-- The value of a draft. -/
def Draft.value (a : Arena) : Draft → HostValue
  | .plain v => v
  | .array items => .array (items.map (·.handle a))
  | .object properties => .object (properties.map fun p => (p.1, p.2.handle a))

/-- How the values of a chain hold the ones before them. -/
inductive Link where
  /-- As each of so many items of an array. -/
  | items (width : Nat)
  /-- As a property of an object. -/
  | property (key : String)
deriving DecidableEq, Repr

/-- A value that holds another. -/
def Link.around (link : Link) (h : Handle) : HostValue :=
  match link with
  | .items width => .array (List.replicate width h)
  | .property key => .object [(key, h)]

/-- What can be asked of an arena. -/
inductive Step where
  | create (drafts : List Draft)
  | createJson (text : String)
  | chain (start : Place) (link : Link) (length : Nat)
  | toJson (h : Place)
  | classify (h : Place)
  | utf8Len (h : Place)
  | readUtf8 (h : Place) (size : Nat)
  | coerce (h : Place)
  | arrayLen (h : Place)
  | arrayGet (h : Place) (index : Nat)
  | throw (message : String)
  | takeError
  | isEmpty

/-- The answer to a step. -/
inductive Answer where
  | nothing
  | failed (e : HostError)
  | badJson (fault : Json.Fault)
  | handle (h : Handle)
  | number (n : Nat)
  | truth (b : Bool)
  | text (s : String)
  | value (v : HostValue)
  /-- How many octets were copied into a buffer, and the buffer then. -/
  | buffer (count : Nat) (bytes : List UInt8)

/-- The answer that a result stands for. -/
def Answer.ofResult {α : Type} (see : α → Answer) : Except HostError α → Answer
  | .ok a => see a
  | .error e => .failed e

/-- Make values, in order; the handle of the last. -/
def createAll (a : Arena) : List Draft → Option Handle × Arena
  | [] => (none, a)
  | draft :: rest =>
    let v := draft.value a
    let (h, a) := a.alloc v
    match createAll a rest with
    | (some last, a) => (some last, a)
    | (none, a) => (some h, a)

/-- Make values each of which holds the one before; the handle of the last. -/
def chain (link : Link) : Nat → Handle → Arena → Handle × Arena
  | 0, h, a => (h, a)
  | n + 1, h, a =>
    let (h, a) := a.alloc (link.around h)
    chain link n h a

/-- What a buffer holds before it is written to. -/
def blankBuffer (size : Nat) : List UInt8 :=
  List.replicate size 0xFF

/-- One step. -/
def step (a : Arena) : Step → Answer × Arena
  | .create drafts =>
    match a.createAll drafts with
    | (some h, a) => (.handle h, a)
    | (none, a) => (.nothing, a)
  | .createJson text =>
    match Json.read text with
    | .ok json =>
      let (h, a) := a.ofJson json
      (.handle h, a)
    | .error fault => (.badJson fault, a)
  | .chain start link length =>
    let first := start.handle a
    let (h, a) := chain link length first a
    (.handle h, a)
  | .toJson h =>
    match a.toJson? (h.handle a) with
    | some json => (.text json.compact, a)
    | none => (.nothing, a)
  | .classify h => (.ofResult .value (a.get (h.handle a)), a)
  | .utf8Len h => (.ofResult .number (a.utf8Len (h.handle a)), a)
  | .readUtf8 h size =>
    (.ofResult (fun (n, bytes) => .buffer n bytes) (a.readInto (h.handle a) (blankBuffer size)), a)
  | .coerce h =>
    match a.coerce (h.handle a) with
    | .ok (h, a) => (.handle h, a)
    | .error e => (.failed e, a)
  | .arrayLen h => (.ofResult .number (a.arrayLen (h.handle a)), a)
  | .arrayGet h index => (.ofResult .handle (a.arrayGet (h.handle a) index), a)
  | .throw message => (.nothing, a.raise message)
  | .takeError =>
    match a.takeError with
    | (some message, a) => (.text message, a)
    | (none, a) => (.nothing, a)
  | .isEmpty => (.truth a.slots.isEmpty, a)

end Arena

end ForeignCall
