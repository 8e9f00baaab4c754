import ForeignCall.Allocation
import ForeignCall.Ledger
import ForeignCall.Run
import ForeignCall.Text.Quoted
import ForeignCall.Value.View

/-!
# ForeignCall.Ledger.Holdings

Ledgers together with the things they account for, each held under a number.

A ledger is reached through handles.  A handle is the number of its ledger and
nothing else, so a clone of a handle leads to the same accounts.  Each thing
keeps the token it was entered with, and is entered as released where that
token leads, whichever handle or allocator it is given up through.

Things are numbered in the order of their creation; a creation that fails takes
no number and makes no entry.  A thing is given up by dropping, destroying,
unwrapping or freeing it, and is gone then: its number stays empty.
-/

namespace ForeignCall

namespace Ledger

/-- A thing a ledger accounts for. -/
inductive Item where
  /-- The bare right to one entry. -/
  | token (r : Resource)
  /-- An owned value. -/
  | value (v : Value)
  /-- A native string: octets without NUL. -/
  | native (bytes : List UInt8)
  /-- An allocator. -/
  | allocator
  /-- A buffer. -/
  | buffer (bytes : Array UInt8)

/-- The resource a thing is entered under. -/
def Item.resource : Item → Resource
  | .token r => r
  | .value _ => .value
  | .native _ => .nativeString
  | .allocator => .allocator
  | .buffer _ => .buffer

/-- How a thing is written out; an allocator has no such form. -/
def Item.describe? : Item → Option String
  | .token r => some ("Token(" ++ r.name ++ ")")
  | .value v => some v.describeOwned
  | .native bytes => some (Quoted.native bytes)
  | .allocator => none
  | .buffer bytes => some ("AllocBuf \x7b len: " ++ toString bytes.size ++ " \x7d")

/-- The right to one entry of a ledger. -/
structure Token where
  ledger : Nat
  resource : Resource
deriving DecidableEq, Repr

/-- A thing that is held, and the ledger it was entered in.  The buffers of an allocator are
entered where the allocator was. -/
structure Held where
  item : Item
  ledger : Nat

/-- The token of a thing. -/
def Held.token (held : Held) : Token :=
  { ledger := held.ledger, resource := held.item.resource }

/-- Ledgers, the handles to them, and the things created so far; `none` for what has been given
up.  There is one ledger at first, with one handle. -/
structure Holdings where
  ledgers : Array Ledger := #[{}]
  /-- The ledger of each handle. -/
  handles : Array Nat := #[0]
  items : Array (Option Held) := #[]
deriving Inhabited

namespace Holdings

/-- What can be asked of holdings, through the first handle where no other is named. -/
inductive Step where
  | acquire (r : Resource) (handle : Nat := 0)
  | value (v : Value) (handle : Nat := 0)
  | native (bytes : List UInt8) (handle : Nat := 0)
  | allocator (handle : Nat := 0)
  | alloc (allocator length : Nat)
  | free (buffer allocator : Nat)
  | set (buffer index : Nat) (octet : UInt8)
  | read (item : Nat)
  | drop (item : Nat)
  | destroy (item : Nat)
  | intoValue (item : Nat)
  | live (r : Resource) (handle : Nat := 0)
  | describe (item : Option Nat) (handle : Nat := 0)
  /-- A new ledger, with a handle of its own. -/
  | ledger
  /-- Another handle to the ledger of a handle. -/
  | clone (handle : Nat)

/-- The answer to a step. -/
inductive Answer where
  | nothing
  /-- The thing is gone, or is of another kind. -/
  | noItem
  /-- The number of a new thing. -/
  | created (item : Nat)
  /-- A native string would contain a NUL at this index. -/
  | interiorNul (index : Nat)
  | allocationFailed
  | token (r : Resource)
  | ownedValue (v : Value)
  /-- The text of a native string (empty if its octets are no text), and its octets. -/
  | native (text : String) (bytes : List UInt8)
  | allocator
  | buffer (bytes : Array UInt8)
  | value (v : Value)
  | count (n : Nat)
  | text (s : String)

/-- A thing that is still held. -/
def held? (h : Holdings) (n : Nat) : Option Held :=
  (h.items[n]?).join

/-- The ledger that a handle leads to. -/
def ledger? (h : Holdings) (handle : Nat) : Option Ledger :=
  h.handles[handle]?.bind (h.ledgers[·]?)

/-- What is read through a handle. -/
def report (h : Holdings) (handle : Nat) : Ledger :=
  (h.ledger? handle).getD {}

/-- Enter a new thing in a ledger and hold it under the next number. -/
def create (h : Holdings) (ledger : Nat) (item : Item) : Answer × Holdings :=
  (.created h.items.size,
    { h with
      ledgers := h.ledgers.modify ledger (·.acquire item.resource)
      items := h.items.push (some ⟨item, ledger⟩) })

/-- Enter a new thing in the ledger of a handle. -/
def createThrough (h : Holdings) (handle : Nat) (item : Item) : Answer × Holdings :=
  match h.handles[handle]? with
  | some ledger => h.create ledger item
  | none => (.noItem, h)

/-- Give a thing up: its token releases it. -/
def giveUp (h : Holdings) (n : Nat) (token : Token) : Holdings :=
  { h with
    ledgers := h.ledgers.modify token.ledger (·.release token.resource)
    items := h.items.setIfInBounds n none }

/-- A native string, if its octets are free of NUL. -/
def native (h : Holdings) (bytes : List UInt8) (handle : Nat) : Answer × Holdings :=
  match bytes.findIdx? (· = 0) with
  | some index => (.interiorNul index, h)
  | none => h.createThrough handle (.native bytes)

/-- A buffer, in the ledger of an allocator. -/
def alloc [Memory] (h : Holdings) (allocator length : Nat) : Answer × Holdings :=
  match h.held? allocator with
  | some ⟨.allocator, ledger⟩ =>
    if Memory.grants length then
      h.create ledger (.buffer (Array.replicate length 0))
    else (.allocationFailed, h)
  | _ => (.noItem, h)

/-- Give a buffer up through an allocator, which need not be its own. -/
def free (h : Holdings) (buffer allocator : Nat) : Answer × Holdings :=
  match h.held? buffer, h.held? allocator with
  | some ⟨.buffer bytes, ledger⟩, some ⟨.allocator, _⟩ =>
    (.nothing, h.giveUp buffer (Held.token ⟨.buffer bytes, ledger⟩))
  | _, _ => (.noItem, h)

/-- Write an octet of a buffer. -/
def set (h : Holdings) (buffer index : Nat) (octet : UInt8) : Answer × Holdings :=
  match h.held? buffer with
  | some ⟨.buffer bytes, ledger⟩ =>
    let changed : Held := ⟨.buffer (bytes.setIfInBounds index octet), ledger⟩
    (.nothing, { h with items := h.items.setIfInBounds buffer (some changed) })
  | _ => (.noItem, h)

/-- The text that octets spell, or the empty text. -/
def textOrEmpty (bytes : List UInt8) : String :=
  match Utf8.decode bytes with
  | .ok s => s
  | .error _ => ""

/-- What a thing is. -/
def Answer.ofItem : Item → Answer
  | .token r => .token r
  | .value v => .ownedValue v
  | .native bytes => .native (textOrEmpty bytes) bytes
  | .allocator => .allocator
  | .buffer bytes => .buffer bytes

/-- What a thing is, while it is held. -/
def read (h : Holdings) (n : Nat) : Answer :=
  match h.held? n with
  | some held => .ofItem held.item
  | none => .noItem

/-- Give a thing up, whatever it is. -/
def drop (h : Holdings) (n : Nat) : Holdings :=
  match h.held? n with
  | some held => h.giveUp n held.token
  | none => h

/-- Give an owned value up with what it holds. -/
def destroy (h : Holdings) (n : Nat) : Answer × Holdings :=
  match h.held? n with
  | some ⟨.value v, ledger⟩ => (.nothing, h.giveUp n (Held.token ⟨.value v, ledger⟩))
  | _ => (.noItem, h)

/-- Give an owned value up and keep what it holds. -/
def intoValue (h : Holdings) (n : Nat) : Answer × Holdings :=
  match h.held? n with
  | some ⟨.value v, ledger⟩ => (.value v, h.giveUp n (Held.token ⟨.value v, ledger⟩))
  | _ => (.noItem, h)

/-- An answer that is read off the ledger of a handle. -/
def ofLedger (h : Holdings) (handle : Nat) (answer : Ledger → Answer) : Answer :=
  match h.ledger? handle with
  | some ledger => answer ledger
  | none => .noItem

/-- A thing written out. -/
def describeItem (h : Holdings) (n : Nat) : Answer :=
  match (h.held? n).bind (·.item.describe?) with
  | some text => .text text
  | none => .noItem

/-- A new ledger, and the first handle to it. -/
def addLedger (h : Holdings) : Holdings :=
  { h with
    ledgers := h.ledgers.push {}
    handles := h.handles.push h.ledgers.size }

/-- Another handle to the ledger that a handle leads to. -/
def clone (h : Holdings) (handle : Nat) : Answer × Holdings :=
  match h.handles[handle]? with
  | some ledger => (.nothing, { h with handles := h.handles.push ledger })
  | none => (.noItem, h)

/-- One step. -/
def step [Memory] (h : Holdings) : Step → Answer × Holdings
  | .acquire r handle => h.createThrough handle (.token r)
  | .value v handle => h.createThrough handle (.value v)
  | .native bytes handle => h.native bytes handle
  | .allocator handle => h.createThrough handle .allocator
  | .alloc allocator length => h.alloc allocator length
  | .free buffer allocator => h.free buffer allocator
  | .set buffer index octet => h.set buffer index octet
  | .read n => (h.read n, h)
  | .drop n => (.nothing, h.drop n)
  | .destroy n => h.destroy n
  | .intoValue n => h.intoValue n
  | .live r handle => (h.ofLedger handle fun ledger => .count (ledger.live r), h)
  | .describe none handle => (h.ofLedger handle fun ledger => .text ledger.describe, h)
  | .describe (some n) _ => (h.describeItem n, h)
  | .ledger => (.nothing, h.addLedger)
  | .clone handle => h.clone handle

/-- A run of steps: after each the answer, and what is read through the first handle. -/
abbrev run [Memory] (h : Holdings) (steps : List Step) : List (Answer × Ledger) :=
  Run.run step (·.report 0) h steps

end Holdings

end Ledger

end ForeignCall
