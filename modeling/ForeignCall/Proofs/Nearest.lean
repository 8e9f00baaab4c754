import Mathlib.Algebra.Order.Field.Rat
import Mathlib.Algebra.Order.Ring.Abs
import Mathlib.Tactic.Linarith
import ForeignCall.Proofs.Exactness

/-!
# ForeignCall.Proofs.Nearest

The double nearest to an integer.

`Binary64.Nearest x q` says what is meant by the double nearest to a value: no
double is nearer, and if another one is as near, `x` is the one whose mantissa
is even.  An integer of at most 53 bits is itself a double; a longer one is
rounded on the grid of its binary magnitude.  The doubles that are not on that
grid are all less than the least power of two of that magnitude, and hence
farther away than the power is (`onGrid_nearest`).

`Binary64.ofInt_nearest` — integers of 64 bits become the nearest double.
-/

namespace ForeignCall

namespace Datum

/-- One, with a sign. -/
def unit (negative : Bool) : Int := if negative then -1 else 1

theorem unit_mul_unit (s : Bool) : unit s * unit s = 1 := by
  cases s <;> rfl

theorem abs_unit (s : Bool) : |unit s| = 1 := by
  cases s <;> rfl

/-- An integer is its magnitude with its sign. -/
theorem cast_eq (i : Int) : (i : ℚ) = unit (decide (i < 0)) * i.natAbs := by
  have hi : i = unit (decide (i < 0)) * (i.natAbs : Int) := by
    by_cases h : i < 0
    · simp [h, unit, abs_of_neg]
    · simp [h, unit, abs_of_nonneg (not_lt.mp h)]
  have hcast := congrArg (Int.cast : Int → ℚ) hi
  rwa [Int.cast_mul, Int.cast_natCast] at hcast

/-- Signs that are equal do not matter for how far apart values are. -/
theorem abs_unit_sub (s : Bool) (t e : Int) (n : Nat) :
    |((unit s * t : Int) : ℚ) * 2 ^ e - unit s * n| = |(t : ℚ) * 2 ^ e - n| := by
  have hunit : |(unit s : ℚ)| = 1 := by exact_mod_cast abs_unit s
  rw [Int.cast_mul, mul_assoc, ← mul_sub, abs_mul, hunit, one_mul]

/-- The value of a finite number. -/
def value? : Datum → Option ℚ
  | .finite s m e => some ((unit s * m : Int) * 2 ^ e)
  | _ => none

end Datum

namespace Rounding

/-- What is just half way between two integers is rounded to the even one. -/
theorem divNearest_half (num den : Nat) (h : 0 < den) :
    2 * (divNearest num den * den) < 2 * num + den ∧
      2 * num < 2 * (divNearest num den * den) + den ∨ divNearest num den % 2 = 0 := by
  have split := Nat.div_add_mod num den
  have small := Nat.mod_lt num h
  rw [Nat.mul_comm] at split
  unfold divNearest
  simp only
  split
  · omega
  · split
    · omega
    · rw [Nat.add_mul, Nat.one_mul]; omega

/-- No multiple of `den` is nearer to `num` than the one that is rounded to. -/
theorem divNearest_nearest (num den : Nat) (h : 0 < den) (t : Int) :
    let rounded : ℚ := divNearest num den * den
    |rounded - num| < |(t : ℚ) * den - num| ∨ (t : ℚ) * den = rounded ∨
      |rounded - num| = |(t : ℚ) * den - num| ∧ divNearest num den % 2 = 0 := by
  intro rounded
  obtain ⟨hle, hge⟩ := divNearest_within_half num den h
  have hden : (0 : ℚ) < den := Nat.cast_pos.mpr h
  have hle' : 2 * (divNearest num den * den : ℚ) ≤ 2 * num + den := by exact_mod_cast hle
  have hge' : 2 * (num : ℚ) ≤ 2 * (divNearest num den * den : ℚ) + den := by exact_mod_cast hge
  -- another multiple is a whole unit away from this one, which is half a unit away at most
  have hother (hunit : (t : ℚ) * den + den ≤ rounded ∨ rounded + den ≤ (t : ℚ) * den) :
      |rounded - num| < |(t : ℚ) * den - num| ∨
        |rounded - num| = |(t : ℚ) * den - num| ∧ divNearest num den % 2 = 0 := by
    have hnear : |rounded - num| ≤ den / 2 := abs_le.mpr ⟨by linarith, by linarith⟩
    have hfar : (den : ℚ) - |rounded - num| ≤ |(t : ℚ) * den - num| := by
      have hgap : (den : ℚ) ≤ |rounded - (t : ℚ) * den| := by
        rcases hunit with hbelow | habove
        · exact le_abs.mpr (.inl (by linarith))
        · exact le_abs.mpr (.inr (by linarith))
      have htriangle := abs_sub_le rounded (num : ℚ) ((t : ℚ) * den)
      rw [abs_sub_comm (num : ℚ)] at htriangle
      linarith
    rcases divNearest_half num den h with ⟨hlt, hgt⟩ | heven
    · have hlt' : 2 * (divNearest num den * den : ℚ) < 2 * num + den := by exact_mod_cast hlt
      have hgt' : 2 * (num : ℚ) < 2 * (divNearest num den * den : ℚ) + den := by exact_mod_cast hgt
      have hstrict : |rounded - num| < den / 2 := abs_lt.mpr ⟨by linarith, by linarith⟩
      exact .inl (by linarith)
    · exact (by linarith : |rounded - num| ≤ _).lt_or_eq.imp_right fun heq => ⟨heq, heven⟩
  rcases lt_trichotomy t (divNearest num den) with hlt | heq | hgt
  · have hstep : (t : ℚ) + 1 ≤ divNearest num den := by exact_mod_cast hlt
    have hmul := mul_le_mul_of_nonneg_right hstep hden.le
    rw [add_mul, one_mul] at hmul
    exact (hother (.inl hmul)).imp_right .inr
  · exact .inr (.inl (by simp [rounded, heq]))
  · have hstep : (divNearest num den : ℚ) + 1 ≤ t := by exact_mod_cast hgt
    have hmul := mul_le_mul_of_nonneg_right hstep hden.le
    rw [add_mul, one_mul] at hmul
    exact (hother (.inr hmul)).imp_right .inr

/-- No number of 53 bits, on whatever grid, is nearer to `n` than the one that is rounded to on the
grid of its magnitude. -/
theorem onGrid_nearest {n k : Nat} (hn : 2 ^ (52 + k) ≤ n) {t e : Int} (ht : |t| < 2 ^ 53) :
    let rounded : ℚ := divNearest n (2 ^ k) * (2 ^ k : Nat)
    |rounded - n| < |(t : ℚ) * 2 ^ e - n| ∨ (t : ℚ) * 2 ^ e = rounded ∨
      |rounded - n| = |(t : ℚ) * 2 ^ e - n| ∧ divNearest n (2 ^ k) % 2 = 0 := by
  intro rounded
  have hgrid (t : Int) := divNearest_nearest n (2 ^ k) (Nat.two_pow_pos k) t
  by_cases hk : (k : Int) ≤ e
  · -- on a coarser grid it is a multiple of `2 ^ k`
    obtain ⟨d, rfl⟩ := Int.le.dest hk
    have hmultiple : (t : ℚ) * 2 ^ ((k : Int) + d) = ((t * 2 ^ d : Int) : ℚ) * (2 ^ k : Nat) := by
      rw [zpow_add₀ two_ne_zero, zpow_natCast, zpow_natCast]
      push_cast
      ring
    rw [hmultiple]
    exact hgrid (t * 2 ^ d)
  · -- on a finer grid it is less than the least number of the magnitude
    have hsmall : (t : ℚ) * 2 ^ e < 2 ^ 52 * (2 ^ k : Nat) := by
      have hfine : (2 : ℚ) ^ e ≤ 2 ^ ((k : Int) - 1) := zpow_le_zpow_right₀ one_le_two (by omega)
      have hbits : (t : ℚ) < 2 ^ 53 := by exact_mod_cast lt_of_abs_lt ht
      calc (t : ℚ) * 2 ^ e < 2 ^ 53 * 2 ^ e := mul_lt_mul_of_pos_right hbits (zpow_pos two_pos e)
        _ ≤ 2 ^ 53 * 2 ^ ((k : Int) - 1) := mul_le_mul_of_nonneg_left hfine (by positivity)
        _ = 2 ^ 52 * (2 ^ k : Nat) := by
          rw [zpow_sub₀ two_ne_zero, zpow_natCast]
          push_cast
          ring
    have hleast : (2 : ℚ) ^ 52 * (2 ^ k : Nat) ≤ n := by
      rw [Nat.pow_add] at hn
      exact_mod_cast hn
    have hpower : |rounded - n| ≤ |((2 ^ 52 : Int) : ℚ) * (2 ^ k : Nat) - n| := by
      rcases hgrid (2 ^ 52) with hlt | heq | ⟨heq, -⟩
      · exact hlt.le
      · rw [heq]
      · exact heq.le
    have hfar : |((2 ^ 52 : Int) : ℚ) * (2 ^ k : Nat) - n| < |(t : ℚ) * 2 ^ e - n| := by
      push_cast at hsmall hleast ⊢
      rw [abs_of_nonpos (by linarith), abs_of_nonpos (by linarith)]
      linarith
    exact .inl (hpower.trans_lt hfar)

/-- On the grid of its magnitude a number is rounded to 53 bits, or to the power of two behind
them. -/
theorem onGrid_bounds {n k : Nat} (hlow : 2 ^ (52 + k) ≤ n) (hhigh : n < 2 ^ (53 + k)) :
    2 ^ 52 ≤ divNearest n (2 ^ k) ∧ divNearest n (2 ^ k) ≤ 2 ^ 53 := by
  obtain ⟨hle, hge⟩ := divNearest_within_half n (2 ^ k) (Nat.two_pow_pos k)
  rw [Nat.pow_add] at hlow hhigh
  have hpos : 0 < 2 ^ k := Nat.two_pow_pos k
  generalize 2 ^ k = unit at *
  constructor
  · by_contra hless
    have hmul := Nat.mul_le_mul_right unit (Nat.not_le.mp hless)
    rw [Nat.succ_mul] at hmul
    omega
  · by_contra hmore
    have hmul := Nat.mul_le_mul_right unit (Nat.not_le.mp hmore)
    rw [Nat.succ_mul] at hmul
    omega

end Rounding

namespace Binary64

open Rounding

/-- The double nearest to a value, of two equally near ones the one with an even mantissa; the sign
is that of the value. -/
def Nearest (x : Binary64) (q : ℚ) : Prop :=
  ∃ s m e v, x.datum = .finite s m e ∧ x.datum.value? = some v ∧ s = decide (q < 0) ∧
    ∀ (y : Binary64) (w : ℚ), y.datum.value? = some w →
      |v - q| < |w - q| ∨ w = v ∨ |v - q| = |w - q| ∧ m % 2 = 0

theorem Nearest.isFinite {x : Binary64} {q : ℚ} (h : x.Nearest q) : x.isFinite = true := by
  obtain ⟨s, m, e, v, hdatum, -⟩ := h
  refine decide_eq_true fun hfield => ?_
  rw [datum, if_pos hfield] at hdatum
  split at hdatum <;> cases hdatum

/-- A mantissa has 53 bits at most. -/
theorem mantissa_lt {x : Binary64} {s : Bool} {m : Nat} {e : Int} (h : x.datum = .finite s m e) :
    m < 2 ^ 53 := by
  have hfraction : x.fraction < 2 ^ 52 := Nat.mod_lt _ (by decide)
  unfold datum at h
  split at h
  · split at h <;> cases h
  · split at h <;> cases h <;> omega

/-- An integer of 54 to 64 bits is rounded on the grid of its magnitude. -/
theorem ofInt_onGrid {i : Int} (hlow : 2 ^ 53 ≤ i.natAbs) (hhigh : i.natAbs < 2 ^ 64) :
    ∃ (k m : Nat) (e : Int), 2 ^ (52 + k) ≤ i.natAbs ∧
      (ofInt i).datum = .finite (decide (i < 0)) m e ∧
      (m : ℚ) * 2 ^ e = divNearest i.natAbs (2 ^ k) * (2 ^ k : Nat) ∧
      (divNearest i.natAbs (2 ^ k) % 2 = 0 → m % 2 = 0) := by
  have hzero : i.natAbs ≠ 0 := by omega
  have hlog : 53 ≤ i.natAbs.log2 ∧ i.natAbs.log2 < 64 :=
    ⟨(Nat.le_log2 hzero).mpr hlow, (Nat.log2_lt hzero).mpr hhigh⟩
  obtain ⟨k, hk⟩ : ∃ k, i.natAbs.log2 = 52 + k := Nat.exists_eq_add_of_le (by omega)
  have hleast : 2 ^ (52 + k) ≤ i.natAbs := hk ▸ Nat.log2_self_le hzero
  have hmost : i.natAbs < 2 ^ (53 + k) := by
    have hself := @Nat.lt_log2_self i.natAbs
    rwa [hk, Nat.add_right_comm] at hself
  obtain ⟨hm, hm'⟩ := onGrid_bounds hleast hmost
  have hfloor : floorLog2 i.natAbs 1 = 52 + k := by
    have hscaled := floorLog2_scaled hzero 0
    simpa [hk] using hscaled
  have hround : ofInt i = ofMagnitude (decide (i < 0))
      (min (((k : Int) + 1074).toNat * 2 ^ 52 + divNearest i.natAbs (2 ^ k)) infinityBits) := by
    have hgrid : max ((52 + k : Int) - 52) (-1074) = k := by omega
    rw [ofInt, nearest, if_neg hzero]
    simp only [hfloor, hgrid, onGrid]
    simp
  have hfits : ((k : Int) + 1074).toNat * 2 ^ 52 + divNearest i.natAbs (2 ^ k) ≤ infinityBits := by
    rw [infinityBits]
    omega
  rw [Nat.min_eq_left hfits] at hround
  rcases Nat.lt_or_eq_of_le hm' with hless | hcarry
  · refine ⟨k, _, k, hleast, ?_, by simp, id⟩
    rw [hround]
    exact datum_ofMagnitude _ hless (by omega) (by omega) (.inl hm)
  · -- the mantissa carries into the exponent
    refine ⟨k, 2 ^ 52, (k : Int) + 1, hleast, ?_, ?_, fun _ => by decide⟩
    · have hpacked : ((k : Int) + 1074).toNat * 2 ^ 52 + divNearest i.natAbs (2 ^ k) =
          ((k : Int) + 1 + 1074).toNat * 2 ^ 52 + 2 ^ 52 := by omega
      rw [hround, hpacked]
      exact datum_ofMagnitude _ (by decide) (by omega) (by omega) (.inl (Nat.le_refl _))
    · rw [hcarry, zpow_add₀ two_ne_zero, zpow_natCast]
      push_cast
      ring

/-- An integer of 53 bits is the value of its double. -/
theorem ofInt_nearest_of_same {i : Int} (h : (ofInt i).datum.Same (.ofInt i)) :
    (ofInt i).Nearest i := by
  cases hd : (ofInt i).datum with
  | nan => rw [hd] at h; exact h.elim
  | infinite s => rw [hd] at h; exact h.elim
  | finite s m e =>
    rw [hd] at h
    obtain ⟨rfl, hvalue⟩ := h
    rw [zpow_zero, mul_one] at hvalue
    have hi : ((Datum.unit (decide (i < 0)) * m : Int) : ℚ) * 2 ^ e = i := by
      rw [Int.cast_mul, Int.cast_natCast, mul_assoc, hvalue, ← Datum.cast_eq]
    refine ⟨_, m, e, i, hd, by rw [hd, Datum.value?, hi], by simp, fun y w _ => ?_⟩
    by_cases hw : w = i
    · exact .inr (.inl hw)
    · exact .inl (by rwa [sub_self, abs_zero, abs_pos, sub_ne_zero])

/-- **Rounded to nearest**: an integer of 64 bits becomes the double nearest to it. -/
theorem ofInt_nearest {i : Int} (h : i.natAbs < 2 ^ 64) : (ofInt i).Nearest i := by
  by_cases hexact : i.natAbs < 2 ^ 53
  · exact ofInt_nearest_of_same (ofInt_same hexact)
  obtain ⟨k, m, e, hleast, hd, hvalue, heven⟩ := ofInt_onGrid (Nat.not_lt.mp hexact) h
  obtain ⟨s, hs⟩ : ∃ s, s = decide (i < 0) := ⟨_, rfl⟩
  have hi : (i : ℚ) = Datum.unit s * i.natAbs := hs ▸ Datum.cast_eq i
  rw [← hs] at hd
  refine ⟨s, m, e, _, hd, by rw [hd]; rfl, by simp [hs], fun y w hw => ?_⟩
  cases hy : y.datum with
  | nan => rw [hy] at hw; cases hw
  | infinite t => rw [hy] at hw; cases hw
  | finite t m' e' =>
    rw [hy] at hw
    obtain rfl := Option.some.inj hw
    -- seen from the side of the integer, the other double is an integer on its grid as well
    obtain ⟨n, hn⟩ : ∃ n, n = Datum.unit s * (Datum.unit t * m') := ⟨_, rfl⟩
    have hback : Datum.unit t * m' = Datum.unit s * n := by
      rw [hn, ← mul_assoc, Datum.unit_mul_unit, one_mul]
    have hbits : |n| < 2 ^ 53 := by
      rw [hn, abs_mul, abs_mul, Datum.abs_unit, Datum.abs_unit, one_mul, one_mul, Nat.abs_cast]
      exact_mod_cast mantissa_lt hy
    rw [hback, hi, Datum.abs_unit_sub, Datum.abs_unit_sub, Int.cast_natCast, hvalue]
    rcases onGrid_nearest hleast hbits with hless | heq | ⟨heq, hhalf⟩
    · exact .inl hless
    · refine .inr (.inl ?_)
      rw [Int.cast_mul, Int.cast_mul, mul_assoc, mul_assoc, heq, Int.cast_natCast, hvalue]
    · exact .inr (.inr ⟨heq, heven hhalf⟩)

end Binary64

end ForeignCall
