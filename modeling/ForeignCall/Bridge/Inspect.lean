import ForeignCall.Bridge.World

/-!
# ForeignCall.Bridge.Inspect

The engine's description of itself, as a host string.

The engine answers with a buffer, which must not be empty.  The description is
what stands before the first NUL in it, or all of it, and must be a text.  The
buffer and its allocator are held until the host string exists.
-/

namespace ForeignCall

namespace Bridge

open Operation

variable [Memory] {σ : Type} [HostRuntime σ]

/-- The description in a buffer, as a host string. -/
def describe (buffer : List UInt8) : Operation σ Handle := do
  if buffer.isEmpty then Action.fail (.callFailure .noDescription)
  else
    let text ← (Action.ofExcept (Utf8.decode (buffer.takeWhile (· ≠ 0)))).mapError fun fault =>
      .conversion (.invalidUtf8 fault)
    onHost .host (HostRuntime.create (.string text))

/-- Describe the engine to the host. -/
def inspect : Operation σ Handle :=
  holding .allocator do
    match ← onEngine fun engine streams => (engine.selfDescribe, engine, streams) with
    | none => Action.fail (.callFailure .noDescription)
    | some buffer => holding .buffer (describe buffer)

end Bridge

end ForeignCall
