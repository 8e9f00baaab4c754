import ForeignCall.Proofs.Nearest

/-!
# ForeignCall.Proofs.Doubles

Doubles and the numbers they stand for.

For a finite number there is one word at most: the grids of two words differ
only if the mantissa on the finer one has a bit more (`Binary64.eq_of_same`).
A number that is whole is known as an integer (`Binary64.exactInt?_of_isInteger`).
-/

namespace ForeignCall

/-! ## Finite numbers -/

namespace Datum

/-- A number, and not an infinite one. -/
def Finite : Datum → Prop
  | .finite _ _ _ => True
  | _ => False

theorem Finite.exists_eq {d : Datum} (h : d.Finite) : ∃ s m e, d = .finite s m e := by
  cases d with
  | finite s m e => exact ⟨s, m, e, rfl⟩
  | _ => exact h.elim

theorem Same.symm {d d' : Datum} (h : d.Same d') : d'.Same d := by
  cases d <;> cases d' <;> simp_all [Same]

theorem Same.trans {d d' d'' : Datum} (h : d.Same d') (h' : d'.Same d'') : d.Same d'' := by
  cases d <;> cases d' <;> cases d'' <;> simp_all [Same]

theorem Same.finite_iff {d d' : Datum} (h : d.Same d') : d.Finite ↔ d'.Finite := by
  cases d <;> cases d' <;> simp_all [Same, Finite]

end Datum

namespace Binary64

theorem isFinite_iff {x : Binary64} : x.isFinite = true ↔ x.datum.Finite := by
  rw [isFinite, decide_eq_true_eq, datum]
  split
  · next hspecial =>
    refine ⟨fun hfinite => absurd hspecial hfinite, fun hfinite => ?_⟩
    split at hfinite <;> cases hfinite
  · next hspecial =>
    refine ⟨fun _ => ?_, fun _ => hspecial⟩
    split <;> trivial

/-- The sign, the mantissa and the exponent as they are read from the fields of a word. -/
theorem fields_of_datum {x : Binary64} {s : Bool} {m : Nat} {e : Int}
    (h : x.datum = .finite s m e) :
    s = x.negative ∧ (x.exponentField = 0 ∧ m = x.fraction ∧ e = -1074 ∨
      0 < x.exponentField ∧ m = 2 ^ 52 + x.fraction ∧ e = x.exponentField - 1075) := by
  unfold datum at h
  split at h
  · split at h <;> cases h
  · split at h
    · next hzero =>
      cases h
      exact ⟨rfl, .inl ⟨hzero, rfl, rfl⟩⟩
    · next hzero =>
      cases h
      exact ⟨rfl, .inr ⟨Nat.pos_of_ne_zero hzero, rfl, rfl⟩⟩

/-- A word is its three fields. -/
theorem ext_fields {x y : Binary64} (hs : x.negative = y.negative)
    (he : x.exponentField = y.exponentField) (hf : x.fraction = y.fraction) : x = y := by
  have hsign : 2 ^ 63 ≤ x.bits.toNat ↔ 2 ^ 63 ≤ y.bits.toNat := by
    simpa [negative] using hs
  have hx : x.bits.toNat < 2 ^ 64 := x.bits.toNat_lt
  have hy : y.bits.toNat < 2 ^ 64 := y.bits.toNat_lt
  unfold exponentField at he
  unfold fraction at hf
  have hbits : x.bits = y.bits := UInt64.toNat_inj.mp (by omega)
  cases x
  cases y
  exact congrArg mk hbits

/-- A mantissa on a finer grid. -/
theorem mantissa_of_same {m n : Nat} {e f : Int} (hle : e ≤ f) (h : (m : ℚ) * 2 ^ e = n * 2 ^ f) :
    m = n * 2 ^ (f - e).toNat := by
  have hsplit : f = ((f - e).toNat : Int) + e := by omega
  rw [hsplit, zpow_add₀ two_ne_zero, zpow_natCast, ← mul_assoc] at h
  have hcast : (m : ℚ) = (n : ℚ) * 2 ^ (f - e).toNat :=
    mul_right_cancel₀ (zpow_ne_zero e two_ne_zero) h
  exact_mod_cast hcast

/-- Of two words for one finite number the exponents are the same: on a finer grid there is a word
for it only if its mantissa leaves a bit free. -/
theorem exponent_le_of_same {x y : Binary64} {s t : Bool} {m n : Nat} {e f : Int}
    (hx : x.datum = .finite s m e) (hy : y.datum = .finite t n f)
    (h : (m : ℚ) * 2 ^ e = n * 2 ^ f) : f ≤ e := by
  by_contra hlt
  have heq : m = n * 2 ^ (f - e).toNat := mantissa_of_same (by omega) h
  have hleast : -1074 ≤ e := by
    obtain ⟨-, ⟨-, -, he⟩ | ⟨hfield, -, he⟩⟩ := fields_of_datum hx <;> omega
  have hnormal : 2 ^ 52 ≤ n := by
    obtain ⟨-, ⟨-, -, hf⟩ | ⟨-, hn, -⟩⟩ := fields_of_datum hy <;> omega
  have hlong : 2 ^ 53 ≤ m := by
    calc 2 ^ 53 = 2 ^ 52 * 2 ^ 1 := rfl
      _ ≤ n * 2 ^ (f - e).toNat :=
        Nat.mul_le_mul hnormal (Nat.pow_le_pow_right two_pos (by omega))
      _ = m := heq.symm
  exact absurd (mantissa_lt hx) (Nat.not_lt.mpr hlong)

/-- There is one word for each finite number. -/
theorem eq_of_same {x y : Binary64} (hfinite : x.datum.Finite) (h : x.datum.Same y.datum) :
    x = y := by
  obtain ⟨s, m, e, hx⟩ := hfinite.exists_eq
  obtain ⟨t, n, f, hy⟩ := (h.finite_iff.mp hfinite).exists_eq
  rw [hx, hy] at h
  obtain ⟨hsign, hvalue⟩ := h
  have hexponent : e = f :=
    Int.le_antisymm (exponent_le_of_same hy hx hvalue.symm) (exponent_le_of_same hx hy hvalue)
  subst hexponent
  have hmantissa : m = n := by
    simpa using mantissa_of_same (Int.le_refl e) hvalue
  obtain ⟨rfl, hx⟩ := fields_of_datum hx
  obtain ⟨rfl, hy⟩ := fields_of_datum hy
  have hfraction : x.fraction < 2 ^ 52 := Nat.mod_lt _ (by decide)
  have hfraction' : y.fraction < 2 ^ 52 := Nat.mod_lt _ (by decide)
  exact ext_fields hsign (by omega) (by omega)

/-! ## Equality -/

theorem equal_self {x : Binary64} (hfinite : x.datum.Finite) : x.equal x = true := by
  have hfield : x.exponentField ≠ 2047 := of_decide_eq_true (isFinite_iff.mpr hfinite)
  simp [equal, isNaN, hfield]

/-- What is equal to a finite number is finite. -/
theorem finite_of_equal {x y : Binary64} (h : x.equal y = true) (hfinite : x.datum.Finite) :
    y.datum.Finite := by
  have hfield : x.exponentField ≠ 2047 := of_decide_eq_true (isFinite_iff.mpr hfinite)
  refine isFinite_iff.mp (decide_eq_true fun hspecial => ?_)
  have hbits : x.bits = y.bits ∨ x.isZero = true ∧ y.isZero = true := by
    simpa using (Bool.and_eq_true_iff.mp h).2
  rcases hbits with hbits | ⟨-, hzero⟩
  · rw [exponentField, hbits] at hfield
    exact hfield hspecial
  · simp [isZero, hspecial] at hzero

/-! ## Integers -/

/-- A double that is an integer. -/
def IsInteger (x : Binary64) (i : Int) : Prop :=
  x.datum.value? = some (i : ℚ)

theorem isInteger_iff {x : Binary64} {i : Int} : x.IsInteger i ↔
    ∃ s m e, x.datum = .finite s m e ∧ ((Datum.unit s * m : Int) : ℚ) * 2 ^ e = i := by
  unfold IsInteger
  cases x.datum <;> simp [Datum.value?]

/-- Where a mantissa on its grid is a whole number, dividing gives that number and leaves
nothing. -/
theorem divides_of_same {m n : Nat} {e : Int} (h : (m : ℚ) * 2 ^ e = n) :
    m % 2 ^ (-e).toNat = 0 ∧ m * 2 ^ e.toNat / 2 ^ (-e).toNat = n := by
  have hzero : (n : ℚ) = n * 2 ^ (0 : Int) := by rw [zpow_zero, mul_one]
  rcases le_total e 0 with hfine | hcoarse
  · have heq : m = n * 2 ^ (-e).toNat := by
      simpa using mantissa_of_same hfine (h.trans hzero)
    have hpos : 0 < 2 ^ (-e).toNat := Nat.two_pow_pos _
    rw [heq, Int.toNat_of_nonpos hfine, Nat.pow_zero, Nat.mul_one]
    exact ⟨Nat.mul_mod_left _ _, Nat.mul_div_cancel _ hpos⟩
  · have heq : n = m * 2 ^ e.toNat := by
      simpa using mantissa_of_same hcoarse (hzero.symm.trans h.symm)
    rw [Int.toNat_of_nonpos (Int.neg_nonpos_of_nonneg hcoarse), Nat.pow_zero]
    exact ⟨Nat.mod_one m, by rw [Nat.div_one, heq]⟩

/-- The exact value of an integer is read off its double. -/
theorem exactInt?_of_isInteger {x : Binary64} {i : Int} (h : x.IsInteger i) :
    x.exactInt? = some i := by
  obtain ⟨s, m, e, hx, h⟩ := isInteger_iff.mp h
  rw [Int.cast_mul, Int.cast_natCast, mul_assoc] at h
  have hvalue : (m : ℚ) * 2 ^ e = (Datum.unit s * i : Int) := by
    rw [Int.cast_mul, ← h, ← mul_assoc, ← Int.cast_mul, Datum.unit_mul_unit, Int.cast_one, one_mul]
  have hnonneg : 0 ≤ Datum.unit s * i := by
    have hpos : (0 : ℚ) ≤ m * 2 ^ e := mul_nonneg m.cast_nonneg (zpow_nonneg zero_le_two e)
    rw [hvalue] at hpos
    exact_mod_cast hpos
  obtain ⟨n, hn⟩ := Int.eq_ofNat_of_zero_le hnonneg
  rw [hn, Int.cast_natCast] at hvalue
  obtain ⟨hmod, hdiv⟩ := divides_of_same hvalue
  have hi : i = if s then -(n : Int) else n := by
    cases s
    · exact (one_mul i).symm.trans hn
    · exact neg_eq_iff_eq_neg.mp ((neg_one_mul i).symm.trans hn)
  simp only [exactInt?, hx, hmod, hdiv, hi, if_true]

end Binary64

end ForeignCall
