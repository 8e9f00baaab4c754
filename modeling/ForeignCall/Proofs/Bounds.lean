import ForeignCall.Config
import ForeignCall.Proofs.JsonGrammar

/-!
# ForeignCall.Proofs.Bounds

Bounds in a configuration.

A bound is a natural number below 2^64, written as JSON writes one: digits that
start with zero only if there is no other.  Every other JSON value is refused,
whether it is a number or not:

```
0   17   18446744073709551615                     bounds
-1  -0   1.5   4.0   4e0   18446744073709551616   refused, like true, "17" and [17]
```

* `readBound_natural` — the number that digits spell is read;
* `readBound_refused` — nothing else is.
-/

namespace ForeignCall

open Json

namespace Json

namespace Numeral

/-! ## Digits -/

/-- The number that digits spell after others. -/
def valueFrom (significand : Nat) (digits : List Char) : Nat :=
  digits.foldl (fun n c => n * 10 + digitValue c) significand

theorem decimalValue_eq (digits : List Char) : decimalValue digits = valueFrom 0 digits := rfl

theorem le_valueFrom (digits : List Char) (significand : Nat) :
    significand ≤ valueFrom significand digits := by
  induction digits generalizing significand with
  | nil => exact Nat.le_refl _
  | cons c rest ih =>
    have hnext := ih (significand * 10 + digitValue c)
    simp only [valueFrom, List.foldl_cons] at hnext ⊢
    omega

/-- The significand takes in all digits if they spell less than 2^64, and not all otherwise. -/
theorem absorb_of_lt {digits : List Char} {significand : Nat}
    (h : valueFrom significand digits < 2 ^ 64) :
    absorb significand digits = (valueFrom significand digits, digits.length) := by
  induction digits generalizing significand with
  | nil => rfl
  | cons c rest ih =>
    have hvalue : valueFrom significand (c :: rest) =
        valueFrom (significand * 10 + digitValue c) rest := rfl
    have hnext : significand * 10 + digitValue c < 2 ^ 64 :=
      Nat.lt_of_le_of_lt (le_valueFrom rest _) (hvalue ▸ h)
    rw [absorb]
    dsimp only
    rw [if_pos hnext, ih (hvalue ▸ h), hvalue, List.length_cons]

theorem absorb_taken_lt {digits : List Char} {significand : Nat} (hfits : significand < 2 ^ 64)
    (h : ¬ valueFrom significand digits < 2 ^ 64) :
    (absorb significand digits).2 < digits.length := by
  induction digits generalizing significand with
  | nil => exact absurd hfits h
  | cons c rest ih =>
    rw [absorb]
    dsimp only
    split
    · next hnext => simpa using ih hnext h
    · simp

end Numeral

end Json

namespace Config

/-! ## Numbers that are no bounds -/

/-- Whatever number there is, it is no bound. -/
def Unbounded {α : Type} (number : α → Number) (result : Except Json.Fault α) : Prop :=
  ∀ a, result = .ok a → bound (number a) = .error .mistyped

theorem unbounded_error {α : Type} {number : α → Number} (fault : Json.Fault) :
    Unbounded number (.error fault) := nofun

theorem Unbounded.and_rest {result : Except Json.Fault Number} (h : Unbounded id result)
    (rest : List Char) : Unbounded Prod.fst (do return (← result, rest)) := by
  cases result with
  | error fault => exact unbounded_error fault
  | ok n =>
    rintro _ ⟨rfl⟩
    exact h n rfl

theorem unbounded_real (negative : Bool) (x : Binary64) :
    Unbounded id (Numeral.real negative x) := by
  unfold Numeral.real
  extract_lets signed
  split
  · rintro _ ⟨rfl⟩
    rfl
  · exact unbounded_error _

theorem unbounded_scaled (negative : Bool) (significand : Nat) (exponent : Int) :
    Unbounded id (Numeral.scaled negative significand exponent) := by
  unfold Numeral.scaled
  split
  · exact unbounded_real negative _
  · exact unbounded_error _

theorem unbounded_exponentDigits (negative : Bool) (significand : Nat) (exponent : Int)
    (down : Bool) (text : List Char) :
    Unbounded Prod.fst (Numeral.exponentDigits negative significand exponent down text) := by
  unfold Numeral.exponentDigits
  dsimp only
  split
  · exact unbounded_error _
  · split
    · split
      · exact unbounded_error _
      · exact (unbounded_real negative _).and_rest _
    · exact (unbounded_scaled negative significand _).and_rest _

theorem unbounded_afterDigits (negative : Bool) (significand : Nat) (exponent : Int)
    (text : List Char) :
    Unbounded Prod.fst (Numeral.afterDigits negative significand exponent text) := by
  unfold Numeral.afterDigits
  split
  · split <;> apply unbounded_exponentDigits
  · split <;> apply unbounded_exponentDigits
  · exact (unbounded_scaled negative significand exponent).and_rest _

theorem unbounded_fraction (negative : Bool) (significand : Nat) (exponent : Int)
    (text : List Char) :
    Unbounded Prod.fst (Numeral.fraction negative significand exponent text) := by
  unfold Numeral.fraction
  dsimp only
  split
  · exact unbounded_error _
  · apply unbounded_afterDigits

theorem unbounded_whole_negative (significand : Nat) :
    Unbounded id (Numeral.whole true significand) := by
  unfold Numeral.whole
  simp only [if_true, Bool.true_and, decide_eq_true_eq]
  split
  · apply unbounded_real
  · next hzero =>
    split
    · rintro _ ⟨rfl⟩
      have hneg : ¬ (0 : Int) ≤ -(significand : Int) := by omega
      simp only [id, bound, if_neg hneg]
    · apply unbounded_real

/-- No number with a sign is a bound. -/
theorem unbounded_negative (text : List Char) : Unbounded Prod.fst (Numeral.read true text) := by
  unfold Numeral.read
  dsimp only
  split
  · exact unbounded_error _
  · split
    · exact unbounded_error _
    · split
      · apply unbounded_fraction
      · apply unbounded_afterDigits
      · apply unbounded_afterDigits
      · split
        · exact (unbounded_whole_negative _).and_rest _
        · exact (unbounded_scaled true _ _).and_rest _

/-! ## Natural numbers -/

/-- A natural number, as JSON writes it. -/
def Natural (n : Nat) (text : List Char) : Prop :=
  WholePart text ∧ Numeral.decimalValue text = n

theorem Natural.unique {n m : Nat} {text : List Char} (h : Natural n text) (h' : Natural m text) :
    n = m := h.2.symm.trans h'.2

/-- Natural numbers below 2^64 are bounds. -/
theorem bound_whole {n : Nat} (h : n < 2 ^ 64) : ∃ number, Numeral.whole false n = .ok number ∧
    bound number = .ok (UInt64.ofNat n) := by
  have hfits : -2 ^ 63 ≤ (n : Int) ∧ (n : Int) < 2 ^ 64 := by omega
  have hpos : (0 : Int) ≤ n := Int.natCast_nonneg n
  refine ⟨.integer n hfits.1 hfits.2, ?_, ?_⟩
  · unfold Numeral.whole
    dsimp only
    rw [if_neg (by simp)]
    exact dif_pos hfits
  · simp only [bound, if_pos hpos, Int.toNat_natCast]

theorem bound_of_natural {n : Nat} {text rest : List Char} (h : Natural n text) (hn : n < 2 ^ 64)
    (hrest : Stops rest) : ∃ number, Numeral.read false (text ++ rest) = .ok (number, rest) ∧
      bound number = .ok (UInt64.ofNat n) := by
  obtain ⟨hwhole, hvalue⟩ := h
  obtain ⟨htake, hdrop⟩ := hwhole.1.span hrest.noDigit
  obtain ⟨hnonempty, hzero⟩ := hwhole.begins
  have habsorb : Numeral.absorb 0 text = (n, text.length) := by
    rw [Numeral.decimalValue_eq] at hvalue
    rw [← hvalue] at hn ⊢
    exact Numeral.absorb_of_lt hn
  obtain ⟨number, hnumber, hbound⟩ := bound_whole hn
  refine ⟨number, ?_, hbound⟩
  unfold Numeral.read
  simp only [htake, hdrop, if_neg hnonempty, if_neg hzero, habsorb, Nat.sub_self]
  split
  · exact absurd rfl (hrest.ne (c := '.') rfl).1
  · exact absurd rfl (hrest.ne (c := 'e') rfl).2.1
  · exact absurd rfl (hrest.ne (c := 'E') rfl).2.2
  · rw [if_true, hnumber]
    rfl

/-- No number without a sign is a bound, but for natural numbers below 2^64. -/
theorem unbounded_magnitude {text rest : List Char} (h : Magnitude text) (hrest : Stops rest)
    (hnot : ∀ n < 2 ^ 64, ¬ Natural n text) :
    Unbounded Prod.fst (Numeral.read false (text ++ rest)) := by
  cases h with
  | @parts whole fraction exponent hwhole hfraction hexponent =>
    obtain ⟨htake, hdrop⟩ := hwhole.1.span (hfraction.noDigit hexponent hrest)
    rw [List.append_assoc, List.append_assoc]
    unfold Numeral.read
    simp only [htake, hdrop]
    split
    · exact unbounded_error _
    · split
      · exact unbounded_error _
      · split
        · apply unbounded_fraction
        · apply unbounded_afterDigits
        · apply unbounded_afterDigits
        · next hpoint he hE =>
          -- there is neither a fraction nor an exponent
          obtain rfl : fraction = [] := by
            cases hfraction with
            | none => rfl
            | point _ => exact (hpoint _ rfl).elim
          obtain rfl : exponent = [] := by
            cases hexponent with
            | none => rfl
            | mark hmark _ _ =>
              rcases hmark with rfl | rfl
              · exact (he _ rfl).elim
              · exact (hE _ rfl).elim
          have hbeyond : ¬ Numeral.valueFrom 0 whole < 2 ^ 64 := fun hlt =>
            hnot _ hlt ⟨by simpa using hwhole, by simp [Numeral.decimalValue_eq]⟩
          have htaken := Numeral.absorb_taken_lt (by decide) hbeyond
          have hdropped : whole.length - (Numeral.absorb 0 whole).2 ≠ 0 := by omega
          rw [if_neg hdropped]
          exact (unbounded_scaled false _ _).and_rest _

/-! ## Reading a bound -/

theorem readBound_blank {blanks : List Char} (h : Blank blanks) (text : List Char) :
    readBound (blanks ++ text) = readBound text := by
  simp only [readBound, h.skip]

/-- What a number is as a bound, and the text after it. -/
def numberBound (negative : Bool) (text : List Char) : Except Fault (UInt64 × List Char) := do
  let (n, rest) ← json (Numeral.read negative text)
  return (← bound n, rest)

theorem readBound_digit {c : Char} (h : c.isDigit = true) (rest : List Char) :
    readBound (c :: rest) = numberBound false (c :: rest) := by
  have hsign : c ≠ '-' := ne_of_isDigit h rfl
  rw [readBound, skipBlank_cons (isBlank_of_isDigit h)]
  simp only [h, if_true]
  rfl

/-- A bound is read, up to its last digit. -/
theorem readBound_natural {n : Nat} {blanks text rest : List Char} (hblanks : Blank blanks)
    (h : Natural n text) (hn : n < 2 ^ 64) (hrest : Stops rest) :
    readBound (blanks ++ (text ++ rest)) = .ok (UInt64.ofNat n, rest) := by
  obtain ⟨number, hread, hbound⟩ := bound_of_natural h hn hrest
  obtain ⟨c, more, rfl, hc⟩ := h.1.1.head
  rw [List.cons_append] at hread
  rw [readBound_blank hblanks, List.cons_append, readBound_digit hc]
  simp [numberBound, hread, hbound, json, Except.mapError, bind, Except.bind, pure, Except.pure]

theorem numberBound_of_unbounded {negative : Bool} {text : List Char}
    (h : Unbounded Prod.fst (Numeral.read negative text)) :
    ∃ fault, numberBound negative text = .error fault := by
  unfold numberBound
  cases hread : Numeral.read negative text with
  | error fault => exact ⟨.ofJson fault, rfl⟩
  | ok result =>
    have hbound : bound result.1 = .error .mistyped := h result hread
    exact ⟨.mistyped, by simp [json, Except.mapError, hbound, bind, Except.bind]⟩

/-- What starts with neither a digit nor a sign is refused. -/
theorem readBound_of_head {c : Char} (hblank : Reader.isBlank c = false) (hsign : c ≠ '-')
    (hdigit : c.isDigit = false) (rest : List Char) :
    ∃ fault, readBound (c :: rest) = .error fault := by
  rw [readBound, skipBlank_cons hblank]
  exact ⟨wrongKind (c :: rest), by simp [hdigit, throw, throwThe, MonadExceptOf.throw]⟩

/-- No other value is a bound. -/
theorem readBound_refused {blanks text rest : List Char} (hblanks : Blank blanks)
    (h : ValueText text) (hnot : ∀ n < 2 ^ 64, ¬ Natural n text) (hrest : Stops rest) :
    ∃ fault, readBound (blanks ++ (text ++ rest)) = .error fault := by
  rw [readBound_blank hblanks]
  cases h with
  | null => exact readBound_of_head (by decide) (by decide) (by decide) _
  | bool b => cases b <;> exact readBound_of_head (by decide) (by decide) (by decide) _
  | string _ => exact readBound_of_head (by decide) (by decide) (by decide) _
  | array _ => exact readBound_of_head (by decide) (by decide) (by decide) _
  | object _ => exact readBound_of_head (by decide) (by decide) (by decide) _
  | negative h => exact numberBound_of_unbounded (unbounded_negative (_ ++ rest))
  | number h =>
    have hunbounded := unbounded_magnitude h hrest hnot
    obtain ⟨c, more, rfl, hc⟩ := h.head
    rw [List.cons_append] at hunbounded ⊢
    rw [readBound_digit hc]
    exact numberBound_of_unbounded hunbounded

end Config

end ForeignCall
