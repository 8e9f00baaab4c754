/-!
# ForeignCall.Limits

The bounds on what a call may bring across.
-/

namespace ForeignCall

/-- Bounds on tags, paths and values; each is a 64-bit number. -/
structure Limits where
  /-- Longest language tag, in octets. -/
  maxTagLen : UInt64 := 17
  /-- Most paths of one load. -/
  maxLoadPaths : UInt64 := 256
  /-- Longest path, in octets. -/
  maxPathLen : UInt64 := 4096
  /-- Most nodes of one value on its way across. -/
  maxNodes : UInt64 := 1000000
deriving DecidableEq, Repr, Inhabited

namespace Limits

/-- No bound of the first is greater than that of the second. -/
def Le (a b : Limits) : Prop :=
  a.maxTagLen ≤ b.maxTagLen ∧ a.maxLoadPaths ≤ b.maxLoadPaths ∧
    a.maxPathLen ≤ b.maxPathLen ∧ a.maxNodes ≤ b.maxNodes

instance : LE Limits := ⟨Le⟩

end Limits

end ForeignCall
