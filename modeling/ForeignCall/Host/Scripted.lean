import ForeignCall.Host.Arena

/-!
# ForeignCall.Host.Scripted

An arena that plays a given part when a call makes requests of it.

A fault waits for the n-th request of one kind and then makes it fail, break
down, or answer with another number; it happens once.  A string can be given
octets that need not be well-formed.  Neither concerns what is done to the
arena itself.
-/

namespace ForeignCall

namespace Host

/-- The kinds of requests. -/
inductive Primitive where
  | classify
  | create
  | utf8Len
  | readUtf8
  | coerceToString
  | arrayLen
  | arrayGet
deriving DecidableEq, Repr

/-- What a fault does. -/
inductive Effect where
  /-- The request fails with this text. -/
  | message (text : String)
  /-- The request, if its answer is a number, answers this. -/
  | answer (n : Nat)
  /-- The request breaks down with this text. -/
  | panic (text : String)
deriving DecidableEq, Repr

/-- A fault, and the requests until it happens. -/
structure Fault where
  primitive : Primitive
  countdown : Nat
  effect : Effect
deriving DecidableEq, Repr

/-- An arena and its part. -/
structure Scripted where
  arena : Arena := {}
  faults : List Fault := []
  /-- Octets that stand for a string. -/
  raw : List (Handle × List UInt8) := []
deriving Inhabited

namespace Scripted

/-- Plan a fault, in place of any other for the same kind of request. -/
def plan (s : Scripted) (fault : Fault) : Scripted :=
  { s with faults := fault :: s.faults.filter (·.primitive ≠ fault.primitive) }

/-- Let octets stand for a string. -/
def setRaw (s : Scripted) (h : Handle) (bytes : List UInt8) : Scripted :=
  { s with raw := (h, bytes) :: s.raw }

/-- The octets that stand for a string. -/
def raw? (s : Scripted) (h : Handle) : Option (List UInt8) :=
  (s.raw.find? (·.1 = h)).map (·.2)

/-- A request is made: the effect of the fault that happens now, if one does. -/
def request (s : Scripted) (p : Primitive) : Option Effect × Scripted :=
  match s.faults.find? (·.primitive = p) with
  | none => (none, s)
  | some fault =>
    let others := s.faults.filter (·.primitive ≠ p)
    if fault.countdown = 1 then (some fault.effect, { s with faults := others })
    else (none, { s with faults := { fault with countdown := fault.countdown - 1 } :: others })

/-- Make a request of the arena, unless a fault happens.  `number` reads an answer that a fault
gives. -/
def answering {α : Type} (p : Primitive) (number : Nat → Option α)
    (action : Action Scripted HostError α) : Action Scripted HostError α := fun s =>
  match s.request p with
  | (some (.message text), s) => .error (.error (.reported text)) s
  | (some (.panic text), s) => .error (.panic (some text)) s
  | (some (.answer n), s) => match number n with
    | some a => .ok a s
    | none => action s
  | (none, s) => action s

/-- An action of the arena. -/
def onArena {α : Type} (action : Action Arena HostError α) : Action Scripted HostError α :=
  fun ⟨arena, faults, raw⟩ =>
    match action arena with
    | .ok a arena => .ok a ⟨arena, faults, raw⟩
    | .error abort arena => .error abort ⟨arena, faults, raw⟩

/-- The octets of a string that has octets of its own, or what the arena says. -/
def octetsOr {α : Type} (h : Handle) (own : List UInt8 → α) (action : Action Arena HostError α) :
    Action Scripted HostError α := fun s =>
  match s.raw? h with
  | some bytes => .ok (own bytes) s
  | none => onArena action s

instance : HostRuntime Scripted where
  classify h := answering .classify (fun _ => none) (onArena (HostRuntime.classify h))
  create v := answering .create (fun _ => none) (onArena (HostRuntime.create v))
  utf8Len h := answering .utf8Len some (octetsOr h List.length (HostRuntime.utf8Len h))
  readUtf8 h size := answering .readUtf8 (fun _ => none)
    (octetsOr h (·.take (size - 1)) (HostRuntime.readUtf8 h size))
  coerceToString h := answering .coerceToString (fun _ => none)
    (onArena (HostRuntime.coerceToString h))
  arrayLen h := answering .arrayLen (fun n => some (n % 2 ^ 32)) (onArena (HostRuntime.arrayLen h))
  arrayGet h index := answering .arrayGet (fun _ => none) (onArena (HostRuntime.arrayGet h index))
  raise message s := { s with arena := s.arena.raise message }

end Scripted

end Host

end ForeignCall
