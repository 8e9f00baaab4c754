import ForeignCall.Action
import ForeignCall.Host.Value

/-!
# ForeignCall.Host.Runtime

What a call needs from a host.

Handles are borrowed for the duration of one call.  A request may fail, or
break down; raising an error in the host does neither.
-/

namespace ForeignCall

/-- The requests a host answers. -/
class HostRuntime (σ : Type) where
  /-- The value of a handle, one level deep. -/
  classify : Handle → Action σ HostError HostValue
  /-- A new value. -/
  create : HostValue → Action σ HostError Handle
  /-- Number of octets of a string, without a terminator. -/
  utf8Len : Handle → Action σ HostError Nat
  /-- The octets of a string that fit into a buffer of `size` octets beside a terminator. -/
  readUtf8 : Handle → (size : Nat) → Action σ HostError (List UInt8)
  /-- A string for any value, by the host's own rules. -/
  coerceToString : Handle → Action σ HostError Handle
  /-- Number of items of an array. -/
  arrayLen : Handle → Action σ HostError Nat
  /-- An item of an array. -/
  arrayGet : Handle → (index : Nat) → Action σ HostError Handle
  /-- Raise an error in the host. -/
  raise : String → σ → σ

end ForeignCall
