import ForeignCall.Entries
import ForeignCall.Log.Policy

/-!
# ForeignCall.Log.Registry

Which kind of backend each tag stands for.

A factory has a tag and decides which data it makes a backend of; what it does
not accept is invalid.  It is registered under its tag, in place of any earlier
one.  Creating a policy asks the factory that is registered at that moment;
policies keep the backend they were created with.
-/

namespace ForeignCall

namespace Log

/-- What a policy is to be built from. -/
inductive Construction where
  /-- A stream for the stdio backend. -/
  | stdio (stream : Nat)
  /-- A stream for a prefixed backend. -/
  | prefixed (stream : Nat)
  /-- Data that no factory accepts. -/
  | foreign
deriving DecidableEq, Repr

/-- The stream the data are about. -/
def Construction.stream? : Construction → Option Nat
  | .stdio id | .prefixed id => some id
  | .foreign => none

/-- The tag of the stdio backend. -/
def stdioTag : String := "stdio"

/-- A maker of backends for one tag. -/
structure Factory where
  tag : String
  /-- The backend it makes, if the data are of its kind. -/
  make : Construction → Option Backend
  /-- A backend holds the stream it was made for. -/
  stream_make : ∀ data backend, make data = some backend → data.stream? = some backend.stream

namespace Factory

/-- Makes stdio backends. -/
def stdio : Factory where
  tag := stdioTag
  make
    | .stdio id => some (.stdio id)
    | _ => none
  stream_make := by rintro (_ | _ | _) _ ⟨⟩; rfl

/-- Makes backends that write `lead` before each buffer. -/
def prefixed (tag : String) (lead : List UInt8) : Factory where
  tag := tag
  make
    | .prefixed id => some (.prefixed id lead)
    | _ => none
  stream_make := by rintro (_ | _ | _) _ ⟨⟩; rfl

/-- A backend from construction data, if they are of the right kind. -/
def build (factory : Factory) (data : Construction) : Except LogError Backend :=
  match factory.make data with
  | some backend => .ok backend
  | none => .error (.invalidCtor factory.tag)

end Factory

/-- The factories, by tag. -/
structure Registry where
  factories : List (String × Factory) := []
deriving Inhabited

namespace Registry

/-- Register a factory under its tag. -/
def register (registry : Registry) (factory : Factory) : Registry :=
  ⟨Entries.insert factory.tag factory registry.factories⟩

/-- The stdio factory alone. -/
def withDefaults : Registry :=
  Registry.register {} .stdio

/-- Whether a tag is registered. -/
def contains (registry : Registry) (tag : String) : Bool :=
  Entries.contains tag registry.factories

/-- Create a policy; a failure leaves nothing behind. -/
def create (registry : Registry) (tag : String) (data : Construction) (streams : Streams) :
    Except LogError Policy × Streams :=
  match Entries.find? tag registry.factories with
  | none => (.error (.unknownTag tag), streams)
  | some factory =>
    match factory.build data with
    | .error e => (.error e, streams)
    | .ok backend =>
      let (policy, streams) := Policy.ofBackend tag backend streams
      (.ok policy, streams)

/-- A registry, written out. -/
def describe (registry : Registry) : String :=
  "PolicyRegistry \x7b tags: " ++
    Quoted.list ((Entries.keys registry.factories).map Quoted.text) ++ " \x7d"

end Registry

end Log

end ForeignCall
