import ForeignCall.Arithmetic

/-!
# ForeignCall.Number.Rounding

Rounding an exact fraction of natural numbers: to the nearest integer
(`divNearest`, a half goes to the even neighbour), and to the nearest point of
a binary grid (`onGrid`).  `floorLog2` finds the binary order of magnitude that
fixes the grid.
-/

namespace ForeignCall

namespace Rounding

/-- The integer nearest to `num / den`; of two equally near ones the even one. -/
def divNearest (num den : Nat) : Nat :=
  let below := num / den
  let rest := num % den
  if 2 * rest < den then below
  else if 2 * rest = den ∧ below % 2 = 0 then below
  else below + 1

/-- Whether `2 ^ e ≤ num / den`. -/
def powLe (e : Int) (num den : Nat) : Bool :=
  2 ^ e.toNat * den ≤ num * 2 ^ (-e).toNat

/-- The greatest `e` with `2 ^ e ≤ num / den`, for positive `num` and `den`: the difference of
the two magnitudes, or one less. -/
def floorLog2 (num den : Nat) : Int :=
  let e : Int := (num.log2 : Int) - (den.log2 : Int)
  if powLe e num den then e else e - 1

/-- The integer nearest to `num / den / 2 ^ q`. -/
def onGrid (num den : Nat) (q : Int) : Nat :=
  divNearest (num * 2 ^ (-q).toNat) (den * 2 ^ q.toNat)

/-! ## Nearest -/

/-- The nearest integer is never more than half a unit away. -/
theorem divNearest_within_half (num den : Nat) (h : 0 < den) :
    2 * (divNearest num den * den) ≤ 2 * num + den ∧
      2 * num ≤ 2 * (divNearest num den * den) + den := by
  have split := Nat.div_add_mod num den
  have small := Nat.mod_lt num h
  rw [Nat.mul_comm] at split
  unfold divNearest
  simp only
  split
  · omega
  · split
    · omega
    · rw [Nat.add_mul, Nat.one_mul]; omega

/-- A quotient without remainder is its own nearest integer. -/
@[simp] theorem divNearest_mul_right (n den : Nat) (h : 0 < den) :
    divNearest (n * den) den = n := by
  simp [divNearest, Nat.mul_div_cancel _ h, h]

end Rounding

end ForeignCall
