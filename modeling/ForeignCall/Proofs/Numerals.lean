import Mathlib.Tactic.NormNum
import ForeignCall.Proofs.Coercion
import ForeignCall.Proofs.Doubles

/-!
# ForeignCall.Proofs.Numerals

The texts of whole numbers.

Below 10^21 a whole number is written with all its digits, and they are taken
from a signed word.  So the numeral is that of the number itself if a word
holds it, and otherwise that of the nearest number that a word holds, which all
numbers beyond it share.

`Arena.coerceToString_integer` — which numeral it is, and which numbers have it
in common.
-/

namespace ForeignCall

/-! ## Numerals -/

/-- The digits of a number can be read back. -/
theorem natNumeral_inj {m n : Nat} : m.repr = n.repr ↔ m = n := by
  refine ⟨fun h => ?_, congrArg _⟩
  have hdigits : Nat.toDigits 10 m = Nat.toDigits 10 n := by
    rw [← Nat.toList_repr, h, Nat.toList_repr]
  calc m = Nat.ofDigitChars 10 (Nat.toDigits 10 m) 0 :=
        (Nat.ofDigitChars_toDigits (by decide) (by decide)).symm
    _ = Nat.ofDigitChars 10 (Nat.toDigits 10 n) 0 := by rw [hdigits]
    _ = n := Nat.ofDigitChars_toDigits (by decide) (by decide)

/-- No digit is a sign. -/
theorem natNumeral_ne_signed (m : Nat) (text : String) : m.repr ≠ "-" ++ text := by
  intro h
  have hsign : '-' ∈ Nat.toDigits 10 m := by
    rw [← Nat.toList_repr, h]
    simp
  exact absurd (Nat.isDigit_of_mem_toDigits (by decide) (by decide) hsign) (by decide)

theorem numeral_inj {m n : Int} : toString m = toString n ↔ m = n := by
  refine ⟨fun h => ?_, congrArg _⟩
  match m, n, h with
  | .ofNat m, .ofNat n, h => exact congrArg _ (natNumeral_inj.mp h)
  | .ofNat m, .negSucc n, h => exact absurd h (natNumeral_ne_signed m _)
  | .negSucc m, .ofNat n, h => exact absurd h.symm (natNumeral_ne_signed n _)
  | .negSucc m, .negSucc n, h =>
    have htexts : m.succ.repr = n.succ.repr := (String.append_right_inj _).mp h
    rw [Nat.succ.inj (natNumeral_inj.mp htexts)]

/-! ## Integers in a word -/

/-- The integer, or the nearest one that a signed word holds. -/
def saturated (m : Int) : Int :=
  max (-2 ^ 63) (min m (2 ^ 63 - 1))

theorem saturated_eq_self_iff {m : Int} : saturated m = m ↔ -2 ^ 63 ≤ m ∧ m < 2 ^ 63 := by
  unfold saturated
  omega

/-- Different integers become one only if they lie on the same side of all words. -/
theorem saturated_eq_iff {m n : Int} : saturated m = saturated n ↔
    m = n ∨ 2 ^ 63 - 1 ≤ m ∧ 2 ^ 63 - 1 ≤ n ∨ m ≤ -2 ^ 63 ∧ n ≤ -2 ^ 63 := by
  unfold saturated
  omega

namespace Arena

/-- An integer is written as the nearest one that a word holds. -/
theorem numberText_of_isInteger {x : Binary64} {m : Int} (hx : x.IsInteger m)
    (hm : m.natAbs < 10 ^ 21) : numberText x = toString (saturated m) := by
  have hexact : x.exactInt? = some m := Binary64.exactInt?_of_isInteger hx
  obtain ⟨s, mantissa, exponent, hdatum, -⟩ := Binary64.isInteger_iff.mp hx
  simp only [numberText, hdatum, hexact, if_pos hm]
  rfl

/-! ## Texts of numbers -/

/-- The value becomes a new string with this text. -/
def Coerces (a : Arena) (h : Handle) (text : String) : Prop :=
  HostRuntime.coerceToString h a = .ok (handleAt a.slots.size) (a.addAll [.string text])

variable {a : Arena} {h : Handle} {x : Binary64}

theorem addAll_string_inj {text text' : String} :
    a.addAll [.string text] = a.addAll [.string text'] ↔ text = text' := by
  simp [addAll, Array.push_eq_push]

theorem coerces_number_iff (hget : a.get h = .ok (.number x)) {text : String} :
    a.Coerces h text ↔ text = numberText x := by
  have hstring : ∀ s, a.get h ≠ .ok (.string s) := fun s hs => nomatch hget.symm.trans hs
  have hshows : a.Shows 0 h (.ok (numberText x)) := .plain hget nofun
  rw [Coerces, coerceToString_of_shows hstring hshows, EStateM.Result.ok.injEq]
  exact (and_iff_right rfl).trans (addAll_string_inj.trans eq_comm)

/-- **Whole numbers as text**: below 10^21 the text of a number that is an integer is the numeral
of the nearest integer that a word holds.  This is its own numeral just if a word holds it, and two
such numbers have a text in common only if they are the same or beyond the words on the same
side. -/
theorem coerceToString_integer {m : Int} (hget : a.get h = .ok (.number x)) (hx : x.IsInteger m)
    (hm : m.natAbs < 10 ^ 21) :
    (∀ text, a.Coerces h text ↔ text = toString (saturated m)) ∧
    (a.Coerces h (toString m) ↔ -2 ^ 63 ≤ m ∧ m < 2 ^ 63) ∧
    ∀ (b : Arena) (g : Handle) (y : Binary64) (n : Int),
      b.get g = .ok (.number y) → y.IsInteger n → n.natAbs < 10 ^ 21 →
      ((∃ text, a.Coerces h text ∧ b.Coerces g text) ↔
        m = n ∨ 2 ^ 63 - 1 ≤ m ∧ 2 ^ 63 - 1 ≤ n ∨ m ≤ -2 ^ 63 ∧ n ≤ -2 ^ 63) := by
  have htext : ∀ text, a.Coerces h text ↔ text = toString (saturated m) := fun text => by
    rw [coerces_number_iff hget, numberText_of_isInteger hx hm]
  refine ⟨htext, ?_, fun b g y n hget' hy hn => ?_⟩
  · rw [htext, ← saturated_eq_self_iff]
    exact numeral_inj.trans eq_comm
  · simp only [htext, coerces_number_iff hget', numberText_of_isInteger hy hn, exists_eq_left]
    rw [← saturated_eq_iff]
    exact numeral_inj

/-- The least integer of a word is written as it is, but the next double below it is written so,
too. -/
theorem coerceToString_least :
    let a : Arena := { slots := #[.number ⟨0xC3E0000000000000⟩, .number ⟨0xC3F0000000000000⟩] }
    Binary64.IsInteger ⟨0xC3E0000000000000⟩ (-2 ^ 63) ∧
      Binary64.IsInteger ⟨0xC3F0000000000000⟩ (-2 ^ 64) ∧
      a.Coerces ⟨0⟩ (toString (-2 ^ 63 : Int)) ∧
      ∃ text, a.Coerces ⟨0⟩ text ∧ a.Coerces ⟨1⟩ text := by
  intro a
  have hleast : Binary64.datum ⟨0xC3E0000000000000⟩ = .finite true (2 ^ 52) 11 := by decide
  have hbelow : Binary64.datum ⟨0xC3F0000000000000⟩ = .finite true (2 ^ 52) 12 := by decide
  have hleast' : Binary64.IsInteger ⟨0xC3E0000000000000⟩ (-2 ^ 63) :=
    Binary64.isInteger_iff.mpr ⟨_, _, _, hleast, by norm_num [Datum.unit]⟩
  have hbelow' : Binary64.IsInteger ⟨0xC3F0000000000000⟩ (-2 ^ 64) :=
    Binary64.isInteger_iff.mpr ⟨_, _, _, hbelow, by norm_num [Datum.unit]⟩
  obtain ⟨-, hown, hshared⟩ := coerceToString_integer (a := a) (h := ⟨0⟩) rfl hleast' (by decide)
  exact ⟨hleast', hbelow', hown.mpr (by decide),
    (hshared a ⟨1⟩ _ _ rfl hbelow' (by decide)).mpr (by decide)⟩

/-- Ten and twenty quintillions have one text, which is the numeral of neither. -/
theorem coerceToString_quintillions :
    let a : Arena := { slots := #[.number ⟨0x43E158E460913D00⟩, .number ⟨0x43F158E460913D00⟩] }
    Binary64.IsInteger ⟨0x43E158E460913D00⟩ (10 ^ 19) ∧
      Binary64.IsInteger ⟨0x43F158E460913D00⟩ (2 * 10 ^ 19) ∧
      a.Coerces ⟨0⟩ "9223372036854775807" ∧ a.Coerces ⟨1⟩ "9223372036854775807" ∧
      ¬ a.Coerces ⟨0⟩ (toString (10 ^ 19 : Int)) ∧
      ¬ a.Coerces ⟨1⟩ (toString (2 * 10 ^ 19 : Int)) := by
  have hten : Binary64.datum ⟨0x43E158E460913D00⟩ = .finite false (5 ^ 19 * 2 ^ 8) 11 := by decide
  have htwenty : Binary64.datum ⟨0x43F158E460913D00⟩ = .finite false (5 ^ 19 * 2 ^ 8) 12 := by
    decide
  refine ⟨Binary64.isInteger_iff.mpr ⟨_, _, _, hten, by norm_num [Datum.unit]⟩,
    Binary64.isInteger_iff.mpr ⟨_, _, _, htwenty, by norm_num [Datum.unit]⟩, rfl, rfl, ?_, ?_⟩
  · rw [coerces_number_iff rfl]
    decide
  · rw [coerces_number_iff rfl]
    decide

end Arena

end ForeignCall
