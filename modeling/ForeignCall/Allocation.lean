import ForeignCall.Arithmetic

/-!
# ForeignCall.Allocation

How much memory one allocation can have.

Which requests are met is up to the process, and a parameter here (`Memory`).
A reservation that is not met fails in an orderly way.  A buffer of fixed size
that is larger than 2^63 - 1 octets is no size at all, and asking for it ends
the call as a panic.  Sizes are 64-bit numbers, so the longest length of all has
no room for a terminator after it.
-/

namespace ForeignCall

namespace Allocation

/-- The most octets that are a valid size at all. -/
def maxSize : Nat := 2 ^ 63 - 1

/-- The size of a buffer for `length` octets and a terminator, if it is a 64-bit number. -/
def terminated? (length : Nat) : Option Nat :=
  if length + 1 < 2 ^ 64 then some (length + 1) else none

end Allocation

/-- The memory of a process, which meets a request or not by its size alone, at any time alike. -/
class Memory where
  /-- Whether a request for so many octets is met. -/
  grants : Nat → Bool
  /-- A request for nothing always is. -/
  grants_zero : grants 0
  /-- What is no valid size is not there. -/
  le_maxSize_of_grants {octets : Nat} : grants octets → octets ≤ Allocation.maxSize

namespace Memory

theorem lt_of_grants [Memory] {octets : Nat} (h : grants octets) : octets < 2 ^ 64 := by
  have hvalid := le_maxSize_of_grants h
  rw [Allocation.maxSize] at hvalid
  omega

/-- No request for at most so many octets fails. -/
def Spans [Memory] (octets : Nat) : Prop :=
  ∀ n ≤ octets, grants n

theorem Spans.mono [Memory] {octets fewer : Nat} (h : Spans octets) (hle : fewer ≤ octets) :
    Spans fewer :=
  fun n hn => h n (Nat.le_trans hn hle)

/-- What programs run with: any request that an address space of 47 bits has room for is met. -/
instance (priority := low) addressSpace : Memory where
  grants octets := octets ≤ 2 ^ 47
  grants_zero := by decide
  le_maxSize_of_grants h := by
    rw [decide_eq_true_eq] at h
    rw [Allocation.maxSize]
    omega

/-- An address space spans every number of octets that it has room for. -/
theorem addressSpace_spans {octets : Nat} (h : octets ≤ 2 ^ 47) : Spans octets :=
  fun _ hn => decide_eq_true (Nat.le_trans hn h)

end Memory

end ForeignCall
