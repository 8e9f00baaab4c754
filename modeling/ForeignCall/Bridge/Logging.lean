import ForeignCall.Bridge.World
import ForeignCall.Log.Registry

/-!
# ForeignCall.Bridge.Logging

Sending the engine's log to a stream.
-/

namespace ForeignCall

namespace Bridge

open Operation

variable {σ : Type}

/-- Create a policy over a stream. -/
def createPolicy (registry : Log.Registry) (stream : Nat) : Operation σ Log.Policy := do
  let created ← onEngine fun engine streams =>
    let (created, streams) := registry.create Log.stdioTag (.stdio stream) streams
    (created, engine, streams)
  (Action.ofExcept created).mapError .ofLog

/-- Let the engine log to a stream. -/
def enableLogging (registry : Log.Registry) (stream : Nat) : Operation σ Unit := do
  let policy ← createPolicy registry stream
  let attached ← onEngine fun engine streams => engine.attachLog policy streams
  (Action.ofExcept attached).mapError fun e => .callFailure (.logging e)

end Bridge

end ForeignCall
