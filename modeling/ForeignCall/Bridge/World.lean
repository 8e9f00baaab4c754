import ForeignCall.Allocation
import ForeignCall.Bridge.Error

/-!
# ForeignCall.Bridge.World

Everything a bridge operation can reach: the host, the engine and the log
streams.

What an operation acquires it holds for the length of an inner action, and
releases at the end of it, however that ends (`holding`, `borrowing`).  So
every exit releases exactly what was acquired before it.
-/

namespace ForeignCall

namespace Bridge

/-- The host, the engine and the log streams. -/
structure World (σ : Type) where
  host : σ
  engine : Engine
  streams : Log.Streams

/-- A bridge operation. -/
abbrev Operation (σ α : Type) := Action (World σ) BridgeError α

namespace Operation

variable {σ α ε : Type}

/-- An action of the host, whose errors become errors of the operation. -/
def onHost (see : ε → BridgeError) (action : Action σ ε α) : Operation σ α :=
  fun ⟨host, engine, streams⟩ =>
    match action host with
    | .ok a host => .ok a ⟨host, engine, streams⟩
    | .error abort host => .error (abort.map see) ⟨host, engine, streams⟩

/-- A request to the engine. -/
def onEngine (request : Engine → Log.Streams → α × Engine × Log.Streams) : Operation σ α :=
  fun ⟨host, engine, streams⟩ =>
    let (a, engine, streams) := request engine streams
    .ok a ⟨host, engine, streams⟩

/-- Change the ledger. -/
def onLedger (w : World σ) (change : Ledger → Ledger) : World σ :=
  { w with engine := { w.engine with ledger := change w.engine.ledger } }

/-- Release a resource after an action, however it ends. -/
def borrowing (r : Resource) (body : Operation σ α) : Operation σ α := fun w =>
  match body w with
  | .ok a w => .ok a (onLedger w (·.release r))
  | .error abort w => .error abort (onLedger w (·.release r))

/-- Hold a resource during an action. -/
def holding (r : Resource) (body : Operation σ α) : Operation σ α := fun w =>
  borrowing r body (onLedger w (·.acquire r))

/-- Go on only if there is memory for so many octets. -/
def reserve [Memory] (what : Subject) (octets : Nat) : Operation σ Unit :=
  if Memory.grants octets then pure () else Action.fail (.allocation what)

/-- The size of a buffer for `length` octets and a terminator; it is a breakdown if there is
none. -/
def terminatedSize (length : Nat) : Operation σ Nat :=
  match Allocation.terminated? length with
  | some size => pure size
  | none => Action.panic (some "attempt to add with overflow")

end Operation

end Bridge

end ForeignCall
