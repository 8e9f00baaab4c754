import Mathlib.Algebra.Order.Field.Rat
import Mathlib.Tactic.FieldSimp
import Mathlib.Tactic.Ring
import ForeignCall.Number.Binary32

/-!
# ForeignCall.Proofs.Exactness

Numbers that double precision holds as they are.

Words stand for the same number (`Datum.Same`) when they agree on the sign and
on the value `mantissa · 2 ^ exponent`, or are the same infinity, or no numbers
both.  A value whose mantissa has at most 53 bits, on a grid that doubles have,
is not changed by rounding:

* `Binary64.nearestScaled_same` — it is its own nearest double;
* `Binary64.ofInt_same` — so is every integer below 2^53;
* `Binary32.toBinary64_same` — and so is every single precision number.
-/

namespace ForeignCall

open Rounding

namespace Datum

/-- The same number, with the same sign. -/
def Same : Datum → Datum → Prop
  | .nan, .nan => True
  | .infinite s, .infinite t => s = t
  | .finite s m e, .finite t n f => s = t ∧ (m : ℚ) * 2 ^ e = n * 2 ^ f
  | _, _ => False

/-- An integer. -/
def ofInt (i : Int) : Datum :=
  .finite (decide (i < 0)) i.natAbs 0

theorem Same.refl (d : Datum) : d.Same d := by
  cases d with
  | nan => trivial
  | infinite s => rfl
  | finite s m e => exact ⟨rfl, rfl⟩

end Datum

/-! ## Powers of two -/

namespace Rounding

theorem log2_mul_two_pow {m : Nat} (hm : m ≠ 0) (k : Nat) : (m * 2 ^ k).log2 = m.log2 + k := by
  have hpos : 0 < 2 ^ k := Nat.two_pow_pos k
  have hne : m * 2 ^ k ≠ 0 := Nat.mul_ne_zero hm (Nat.ne_of_gt hpos)
  have hlow : 2 ^ m.log2 ≤ m := Nat.log2_self_le hm
  have hhigh : m < 2 ^ (m.log2 + 1) := Nat.lt_log2_self
  rw [Nat.log2_eq_iff hne]
  constructor
  · rw [Nat.pow_add]
    exact Nat.mul_le_mul_right _ hlow
  · have hexp : m.log2 + k + 1 = m.log2 + 1 + k := by omega
    rw [hexp, Nat.pow_add]
    exact Nat.mul_lt_mul_of_pos_right hhigh hpos

/-- The binary magnitude of `m · 2 ^ e` is that of `m`, moved by `e`. -/
theorem floorLog2_scaled {m : Nat} (hm : m ≠ 0) (e : Int) :
    floorLog2 (m * 2 ^ e.toNat) (2 ^ (-e).toNat) = m.log2 + e := by
  have hdiff : ((m.log2 + e.toNat : Nat) : Int) - ((-e).toNat : Int) = m.log2 + e := by omega
  have hle : powLe (m.log2 + e) (m * 2 ^ e.toNat) (2 ^ (-e).toNat) = true := by
    have hexp : (m.log2 + e).toNat + (-e).toNat =
        m.log2 + (e.toNat + (-(m.log2 + e)).toNat) := by omega
    have hlow : 2 ^ m.log2 ≤ m := Nat.log2_self_le hm
    rw [powLe, decide_eq_true_eq, ← Nat.pow_add, hexp, Nat.mul_assoc, ← Nat.pow_add, Nat.pow_add]
    exact Nat.mul_le_mul_right _ hlow
  unfold floorLog2
  simp only
  rw [log2_mul_two_pow hm, Nat.log2_two_pow, hdiff, if_pos hle]

/-- On a grid that is fine enough `m · 2 ^ e` is not rounded. -/
theorem onGrid_scaled (m : Nat) {e q : Int} (hq : q ≤ e) :
    onGrid (m * 2 ^ e.toNat) (2 ^ (-e).toNat) q = m * 2 ^ (e - q).toNat := by
  have hexp : e.toNat + (-q).toNat = (e - q).toNat + ((-e).toNat + q.toNat) := by omega
  have hnum : m * 2 ^ e.toNat * 2 ^ (-q).toNat =
      m * 2 ^ (e - q).toNat * (2 ^ (-e).toNat * 2 ^ q.toNat) := by
    rw [Nat.mul_assoc, ← Nat.pow_add, hexp, Nat.pow_add, Nat.pow_add, Nat.mul_assoc]
  have hpos : 0 < 2 ^ (-e).toNat * 2 ^ q.toNat :=
    Nat.mul_pos (Nat.two_pow_pos _) (Nat.two_pow_pos _)
  rw [onGrid, hnum, divNearest_mul_right _ _ hpos]

end Rounding

namespace Binary64

/-! ## Packing -/

/-- A mantissa of 53 bits, or of fewer on the finest grid, is what a word is packed from and what
is read from it. -/
theorem datum_ofMagnitude {mantissa : Nat} {grid : Int} (s : Bool) (hm : mantissa < 2 ^ 53)
    (hl : -1074 ≤ grid) (hu : grid ≤ 971) (hnormal : 2 ^ 52 ≤ mantissa ∨ grid = -1074) :
    (ofMagnitude s ((grid + 1074).toNat * 2 ^ 52 + mantissa)).datum =
      .finite s mantissa grid := by
  have hbits : (ofMagnitude s ((grid + 1074).toNat * 2 ^ 52 + mantissa)).bits.toNat =
      (if s then 2 ^ 63 else 0) + ((grid + 1074).toNat * 2 ^ 52 + mantissa) := by
    rw [ofMagnitude, UInt64.toNat_ofNat_of_lt']
    cases s <;> simp [UInt64.size] <;> omega
  have hsign : (ofMagnitude s ((grid + 1074).toNat * 2 ^ 52 + mantissa)).negative = s := by
    rw [negative, hbits]
    cases s with
    | false => simp; omega
    | true => simp
  have hexponent : (ofMagnitude s ((grid + 1074).toNat * 2 ^ 52 + mantissa)).exponentField =
      (grid + 1074).toNat + mantissa / 2 ^ 52 := by
    rw [exponentField, hbits]
    cases s <;> simp <;> omega
  have hfraction : (ofMagnitude s ((grid + 1074).toNat * 2 ^ 52 + mantissa)).fraction =
      mantissa % 2 ^ 52 := by
    rw [fraction, hbits]
    cases s with
    | false => simp
    | true => simp; omega
  rw [datum, hsign, hexponent, hfraction, if_neg (by omega)]
  by_cases hlarge : 2 ^ 52 ≤ mantissa
  · rw [if_neg (by omega)]
    congr 1 <;> omega
  · rw [if_pos (by omega)]
    congr 1 <;> omega

theorem datum_nan : nan.datum = .nan := by decide

theorem datum_infinity (s : Bool) : (infinity s).datum = .infinite s := by
  cases s <;> decide

theorem datum_zero (s : Bool) : (zero s).datum = .finite s 0 (-1074) := by
  cases s <;> decide

/-! ## Values that are not rounded -/

/-- The grid of a double that `m · 2 ^ e` is rounded to. -/
theorem nearestScaled_eq {m : Nat} {e : Int} (s : Bool) (hzero : m ≠ 0) (hm : m < 2 ^ 53)
    (hl : -1074 ≤ e) (hu : e ≤ 971) :
    ∃ grid : Int, grid ≤ e ∧
      (nearestScaled s m e).datum = .finite s (m * 2 ^ (e - grid).toNat) grid := by
  have hlow : 2 ^ m.log2 ≤ m := Nat.log2_self_le hzero
  have hhigh : m < 2 ^ (m.log2 + 1) := Nat.lt_log2_self
  have hlog : m.log2 < 53 := (Nat.log2_lt hzero).mpr hm
  obtain ⟨grid, hgrid⟩ : ∃ grid : Int, grid = max (m.log2 + e - 52) (-1074) := ⟨_, rfl⟩
  have hle : grid ≤ e := by omega
  have hsmall : m * 2 ^ (e - grid).toNat < 2 ^ 53 := by
    have hexp : m.log2 + 1 + (e - grid).toNat ≤ 53 := by omega
    calc m * 2 ^ (e - grid).toNat
        < 2 ^ (m.log2 + 1) * 2 ^ (e - grid).toNat :=
          Nat.mul_lt_mul_of_pos_right hhigh (Nat.two_pow_pos _)
      _ = 2 ^ (m.log2 + 1 + (e - grid).toNat) := (Nat.pow_add ..).symm
      _ ≤ 2 ^ 53 := Nat.pow_le_pow_right (by decide) hexp
  have hnormal : 2 ^ 52 ≤ m * 2 ^ (e - grid).toNat ∨ grid = -1074 := by
    by_cases hfinest : grid = -1074
    · exact .inr hfinest
    · have hexp : m.log2 + (e - grid).toNat = 52 := by omega
      left
      calc 2 ^ 52 = 2 ^ m.log2 * 2 ^ (e - grid).toNat := by rw [← Nat.pow_add, hexp]
        _ ≤ m * 2 ^ (e - grid).toNat := Nat.mul_le_mul_right _ hlow
  have hnum : m * 2 ^ e.toNat ≠ 0 := Nat.mul_ne_zero hzero (Nat.ne_of_gt (Nat.two_pow_pos _))
  have hfits : (grid + 1074).toNat * 2 ^ 52 + m * 2 ^ (e - grid).toNat ≤ infinityBits := by
    rw [infinityBits]
    omega
  refine ⟨grid, hle, ?_⟩
  rw [nearestScaled, nearest, if_neg hnum]
  simp only
  rw [floorLog2_scaled hzero, ← hgrid, onGrid_scaled m hle, Nat.min_eq_left hfits]
  exact datum_ofMagnitude s hsmall (by omega) (by omega) hnormal

/-- **Not rounded**: a mantissa of at most 53 bits, on a grid that doubles have, is kept. -/
theorem nearestScaled_same {m : Nat} {e : Int} (s : Bool) (hm : m < 2 ^ 53) (hl : -1074 ≤ e)
    (hu : e ≤ 971) : (nearestScaled s m e).datum.Same (.finite s m e) := by
  by_cases hzero : m = 0
  · subst hzero
    rw [nearestScaled, nearest, Nat.zero_mul, if_pos rfl, datum_zero]
    exact ⟨rfl, by simp⟩
  · obtain ⟨grid, hle, hdatum⟩ := nearestScaled_eq s hzero hm hl hu
    have hsplit : e = ((e - grid).toNat : Int) + grid := by omega
    have hvalue : ((m * 2 ^ (e - grid).toNat : Nat) : ℚ) * 2 ^ grid = m * 2 ^ e := by
      have hpow : (2 : ℚ) ^ e = 2 ^ (e - grid).toNat * 2 ^ grid := by
        conv_lhs => rw [hsplit]
        rw [zpow_add₀ two_ne_zero, zpow_natCast]
      rw [hpow]
      push_cast
      ring
    rw [hdatum]
    exact ⟨rfl, hvalue⟩

/-- Integers of at most 53 bits are doubles. -/
theorem ofInt_same {i : Int} (h : i.natAbs < 2 ^ 53) : (ofInt i).datum.Same (.ofInt i) := by
  have hscaled : ofInt i = nearestScaled (decide (i < 0)) i.natAbs 0 := by
    simp [ofInt, nearestScaled]
  rw [hscaled]
  exact nearestScaled_same _ h (by decide) (by decide)

end Binary64

namespace Binary32

/-- **Widening is exact**: a single precision number becomes the same number in double precision. -/
theorem toBinary64_same (x : Binary32) : x.toBinary64.datum.Same x.datum := by
  have hfraction : x.fraction < 2 ^ 23 := Nat.mod_lt _ (by decide)
  have hexponent : x.exponentField < 2 ^ 8 := Nat.mod_lt _ (by decide)
  rw [toBinary64]
  unfold datum
  by_cases hspecial : x.exponentField = 255
  · rw [if_pos hspecial]
    by_cases hzero : x.fraction = 0
    · rw [if_pos hzero]
      show (Binary64.infinity x.negative).datum.Same (.infinite x.negative)
      rw [Binary64.datum_infinity]
      exact Datum.Same.refl _
    · rw [if_neg hzero]
      show Binary64.nan.datum.Same .nan
      rw [Binary64.datum_nan]
      exact Datum.Same.refl _
  · rw [if_neg hspecial]
    by_cases hsubnormal : x.exponentField = 0
    · rw [if_pos hsubnormal]
      exact Binary64.nearestScaled_same _ (by omega) (by decide) (by decide)
    · rw [if_neg hsubnormal]
      exact Binary64.nearestScaled_same _ (by omega) (by omega) (by omega)

end Binary32

end ForeignCall
