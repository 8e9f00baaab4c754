import Mathlib.Data.List.Basic
import Mathlib.Order.Bounds.Basic
import Mathlib.Tactic.SplitIfs
import ForeignCall.Proofs.Utf8

/-!
# ForeignCall.Proofs.Decoding

Which octets are read as a text, and what is said of the others.

Reading is turned round here: what a first octet opens and later ones complete
is a character (`exists_encodeChar_of_completes`).  The ranges do the work: at
the least first octet of a length they exclude what fewer octets could say, at
`0xED` the surrogates, and at `0xF4` all that is above U+10FFFF.

So octets fall into those of some characters, and a rest that begins with none.
The rest, if there is one, is refused where it begins.

`decode_of_not_wellFormed` — octets that are no text are refused, and the
refusal says how long their longest beginning is that is one.
-/

namespace ForeignCall

namespace Utf8

/-! ## Characters from their octets -/

theorem ofNat_eq (octet : UInt8) {n : Nat} (h : octet.toNat = n) : UInt8.ofNat n = octet := by
  subst h
  exact UInt8.ofNat_toNat

theorem toNat_val_ofNat {n : Nat} (h : n.isValidChar) : (Char.ofNat n).val.toNat = n := by
  rw [Char.ofNat, dif_pos h]
  rfl

/-- Two octets are a character. -/
theorem exists_encodeChar_two {a x : UInt8} {code : Nat} (ha : a.toNat = code + 0xC0)
    (hcode : 2 ≤ code ∧ code < 32) (hx : 0x80 ≤ x.toNat ∧ x.toNat ≤ 0xBF) :
    ∃ c, String.utf8EncodeChar c = [a, x] := by
  obtain ⟨hv, hu⟩ : 0x80 ≤ code * 64 + (x.toNat - 0x80) ∧ code * 64 + (x.toNat - 0x80) < 0x800 := by
    omega
  refine ⟨Char.ofNat (code * 64 + (x.toNat - 0x80)), ?_⟩
  unfold String.utf8EncodeChar
  rw [toNat_val_ofNat (.inl (by omega))]
  dsimp only
  rw [if_neg (by omega), if_pos (by omega), ofNat_eq a (by omega), ofNat_eq x (by omega)]

/-- Three octets are a character, unless two would do or it would be a surrogate. -/
theorem exists_encodeChar_three {a x y : UInt8} {code : Nat} (ha : a.toNat = code + 0xE0)
    (hcode : code < 16) (hx : 0x80 ≤ x.toNat ∧ x.toNat ≤ 0xBF) (hlow : code = 0 → 0xA0 ≤ x.toNat)
    (hhigh : code = 13 → x.toNat ≤ 0x9F) (hy : 0x80 ≤ y.toNat ∧ y.toNat ≤ 0xBF) :
    ∃ c, String.utf8EncodeChar c = [a, x, y] := by
  generalize hn : (code * 64 + (x.toNat - 0x80)) * 64 + (y.toNat - 0x80) = n
  have hvalid : n < 0xD800 ∨ 0xDFFF < n ∧ n < 0x110000 := by omega
  refine ⟨Char.ofNat n, ?_⟩
  unfold String.utf8EncodeChar
  rw [toNat_val_ofNat hvalid]
  dsimp only
  rw [if_neg (by omega), if_neg (by omega), if_pos (by omega), ofNat_eq a (by omega),
    ofNat_eq x (by omega), ofNat_eq y (by omega)]

/-- Four octets are a character, unless three would do or it would be beyond all. -/
theorem exists_encodeChar_four {a x y z : UInt8} {code : Nat} (ha : a.toNat = code + 0xF0)
    (hcode : code < 5) (hx : 0x80 ≤ x.toNat ∧ x.toNat ≤ 0xBF) (hlow : code = 0 → 0x90 ≤ x.toNat)
    (hhigh : code = 4 → x.toNat ≤ 0x8F) (hy : 0x80 ≤ y.toNat ∧ y.toNat ≤ 0xBF)
    (hz : 0x80 ≤ z.toNat ∧ z.toNat ≤ 0xBF) : ∃ c, String.utf8EncodeChar c = [a, x, y, z] := by
  generalize hn :
    ((code * 64 + (x.toNat - 0x80)) * 64 + (y.toNat - 0x80)) * 64 + (z.toNat - 0x80) = n
  have hvalid : n < 0xD800 ∨ 0xDFFF < n ∧ n < 0x110000 := by omega
  refine ⟨Char.ofNat n, ?_⟩
  unfold String.utf8EncodeChar
  rw [toNat_val_ofNat hvalid]
  dsimp only
  rw [if_neg (by omega), if_neg (by omega), if_neg (by omega), ofNat_eq a (by omega),
    ofNat_eq x (by omega), ofNat_eq y (by omega), ofNat_eq z (by omega)]

/-- What a first octet says of the sequence it opens. -/
theorem opening_eq_some {a : UInt8} {s : Sequence} (h : opening a = some s) :
    0x80 ≤ s.low.toNat ∧ s.high.toNat ≤ 0xBF ∧
    (s.missing = 1 ∧ a.toNat = s.code + 0xC0 ∧ 2 ≤ s.code ∧ s.code < 32 ∨
      s.missing = 2 ∧ a.toNat = s.code + 0xE0 ∧ s.code < 16 ∧
        (s.code = 0 → 0xA0 ≤ s.low.toNat) ∧ (s.code = 13 → s.high.toNat ≤ 0x9F) ∨
      s.missing = 3 ∧ a.toNat = s.code + 0xF0 ∧ s.code < 5 ∧
        (s.code = 0 → 0x90 ≤ s.low.toNat) ∧ (s.code = 4 → s.high.toNat ≤ 0x8F)) := by
  unfold opening at h
  simp only [UInt8.lt_iff_toNat_lt, ← UInt8.toNat_inj, UInt8.reduceToNat] at h
  split_ifs at h <;> cases h <;> simp <;> omega

/-- The octets that are still to come in a sequence. -/
def Sequence.Completes (s : Sequence) (octets : List UInt8) : Prop :=
  octets.length = s.missing ∧
    (∀ octet ∈ octets.head?, s.low.toNat ≤ octet.toNat ∧ octet.toNat ≤ s.high.toNat) ∧
    ∀ octet ∈ octets.tail, 0x80 ≤ octet.toNat ∧ octet.toNat ≤ 0xBF

/-- What a first octet has opened and others complete is a character. -/
theorem exists_encodeChar_of_completes {a : UInt8} {s : Sequence} {octets : List UInt8}
    (h : opening a = some s) (hs : s.Completes octets) :
    ∃ c, String.utf8EncodeChar c = a :: octets := by
  obtain ⟨hlow, hhigh, hcases⟩ := opening_eq_some h
  obtain ⟨hlength, hfirst, hrest⟩ := hs
  rcases hcases with ⟨hm, ha, hcode⟩ | ⟨hm, ha, hcode, hl, hu⟩ | ⟨hm, ha, hcode, hl, hu⟩
  · rw [hm] at hlength
    obtain ⟨x, rfl⟩ := List.length_eq_one_iff.mp hlength
    have hx := hfirst x rfl
    exact exists_encodeChar_two ha hcode ⟨by omega, by omega⟩
  · rw [hm] at hlength
    obtain ⟨x, y, rfl⟩ := List.length_eq_two.mp hlength
    have hx := hfirst x rfl
    exact exists_encodeChar_three ha hcode ⟨by omega, by omega⟩ (fun h => (hl h).trans hx.1)
      (fun h => hx.2.trans (hu h)) (hrest y (by simp))
  · rw [hm] at hlength
    obtain ⟨x, y, z, rfl⟩ := List.length_eq_three.mp hlength
    have hx := hfirst x rfl
    exact exists_encodeChar_four ha hcode ⟨by omega, by omega⟩ (fun h => (hl h).trans hx.1)
      (fun h => hx.2.trans (hu h)) (hrest y (by simp)) (hrest z (by simp))

/-- A sequence that has begun is completed, or refused where it began. -/
theorem completes_or_refused {s : Sequence} (hs : 1 ≤ s.missing) (bytes : List UInt8) :
    (∃ octets rest, bytes = octets ++ rest ∧ s.Completes octets) ∨
      ∃ length, ∀ valid, decodeFrom valid (some s) bytes = .error ⟨valid, length⟩ := by
  induction bytes generalizing s with
  | nil => exact .inr ⟨none, fun valid => by rw [decodeFrom]⟩
  | cons octet rest ih =>
    by_cases hrange : octet < s.low ∨ s.high < octet
    · exact .inr ⟨some s.seen, fun valid => by rw [decodeFrom, if_pos hrange]⟩
    have hoctet : s.low.toNat ≤ octet.toNat ∧ octet.toNat ≤ s.high.toNat := by
      rw [UInt8.lt_iff_toNat_lt, UInt8.lt_iff_toNat_lt] at hrange
      omega
    by_cases hlast : s.missing ≤ 1
    · refine .inl ⟨[octet], rest, rfl, Nat.le_antisymm hs hlast, ?_, by simp⟩
      simpa using hoctet
    let next : Sequence :=
      ⟨s.seen + 1, s.missing - 1, 0x80, 0xBF, s.code * 64 + (octet.toNat - 0x80)⟩
    rcases ih (s := next) (by simp only [next]; omega) with
      ⟨octets, more, rfl, hlength, hfirst, hlater⟩ | ⟨length, hrefused⟩
    · refine .inl ⟨octet :: octets, more, rfl, ?_, by simpa using hoctet, ?_⟩
      · rw [List.length_cons, hlength]
        exact Nat.sub_add_cancel hs
      · intro x hx
        cases octets with
        | nil => exact absurd hx List.not_mem_nil
        | cons y ys =>
          rcases List.mem_cons.mp hx with rfl | hx
          · exact hfirst x rfl
          · exact hlater x hx
    · refine .inr ⟨length, fun valid => ?_⟩
      rw [decodeFrom, if_neg hrange]
      dsimp only
      rw [if_neg hlast]
      exact hrefused valid

/-! ## Reading from the left -/

/-- Octets begin with a character, or are refused at once. -/
theorem begins_or_refused {bytes : List UInt8} (hne : bytes ≠ []) :
    (∃ c rest, bytes = String.utf8EncodeChar c ++ rest) ∨
      ∃ length, ∀ valid, decodeFrom valid none bytes = .error ⟨valid, length⟩ := by
  obtain ⟨octet, rest, rfl⟩ := List.exists_cons_of_ne_nil hne
  by_cases hascii : octet < 0x80
  · have hn : octet.toNat < 0x80 := UInt8.lt_iff_toNat_lt.mp hascii
    refine .inl ⟨Char.ofNat octet.toNat, rest, ?_⟩
    unfold String.utf8EncodeChar
    rw [toNat_val_ofNat (.inl (by omega))]
    dsimp only
    rw [if_pos (by omega), ofNat_eq _ rfl]
    rfl
  · cases hopening : opening octet with
    | none =>
      refine .inr ⟨some 1, fun valid => ?_⟩
      rw [decodeFrom, if_neg hascii, hopening]
    | some s =>
      have hmissing : 1 ≤ s.missing := by
        obtain ⟨-, -, ⟨hm, -⟩ | ⟨hm, -⟩ | ⟨hm, -⟩⟩ := opening_eq_some hopening <;> omega
      rcases completes_or_refused hmissing rest with ⟨octets, more, rfl, hs⟩ | ⟨length, hrefused⟩
      · obtain ⟨c, hc⟩ := exists_encodeChar_of_completes hopening hs
        exact .inl ⟨c, more, by rw [hc]; rfl⟩
      · refine .inr ⟨length, fun valid => ?_⟩
        rw [decodeFrom, if_neg hascii, hopening]
        exact hrefused valid

/-- What characters are written with is read as these characters, whatever follows. -/
theorem decodeFrom_append (chars : List Char) (valid : Nat) (rest : List UInt8) :
    decodeFrom valid none (chars.flatMap String.utf8EncodeChar ++ rest) =
      (chars ++ ·) <$>
        decodeFrom (valid + (chars.flatMap String.utf8EncodeChar).length) none rest := by
  induction chars generalizing valid with
  | nil => simp
  | cons c chars ih =>
    rw [List.flatMap_cons, List.append_assoc, decodeFrom_encodeChar, ih, List.length_append,
      Nat.add_assoc, Functor.map_map]
    rfl

/-- Octets are those of some characters, and then of none. -/
theorem exists_characters (bytes : List UInt8) :
    ∃ (chars : List Char) (rest : List UInt8), bytes = chars.flatMap String.utf8EncodeChar ++ rest ∧
      ∀ c more, rest ≠ String.utf8EncodeChar c ++ more := by
  by_cases hbegins : ∃ c more, bytes = String.utf8EncodeChar c ++ more
  · obtain ⟨c, more, hc⟩ := hbegins
    have hshorter : more.length < bytes.length := by
      have hpos := List.length_pos_iff.mpr (encodeChar_ne_nil c)
      rw [hc, List.length_append]
      omega
    obtain ⟨chars, rest, hmore, hrest⟩ := exists_characters more
    exact ⟨c :: chars, rest, by rw [hc, hmore, List.flatMap_cons, List.append_assoc], hrest⟩
  · exact ⟨[], bytes, rfl, fun c more hc => hbegins ⟨c, more, hc⟩⟩
termination_by bytes.length

/-! ## Texts -/

/-- Octets that are those of a text. -/
def WellFormed (bytes : List UInt8) : Prop :=
  ∃ text, octets text = bytes

theorem wellFormed_iff {bytes : List UInt8} :
    WellFormed bytes ↔ ∃ chars : List Char, chars.flatMap String.utf8EncodeChar = bytes :=
  ⟨fun ⟨text, h⟩ => ⟨text.toList, h⟩, fun ⟨chars, h⟩ => ⟨String.ofList chars, by
    rw [octets, String.toList_ofList, h]⟩⟩

/-- No octets of a text reach beyond the characters that octets begin with. -/
theorem le_of_wellFormed_take {chars : List Char} {rest : List UInt8}
    (hrest : ∀ c more, rest ≠ String.utf8EncodeChar c ++ more) {n : Nat}
    (h : WellFormed ((chars.flatMap String.utf8EncodeChar ++ rest).take n))
    (hn : n ≤ (chars.flatMap String.utf8EncodeChar ++ rest).length) :
    n ≤ (chars.flatMap String.utf8EncodeChar).length := by
  by_contra hbeyond
  obtain ⟨text, htext⟩ := h
  obtain ⟨k, rfl⟩ := Nat.exists_eq_add_of_lt (Nat.lt_of_not_le hbeyond)
  rw [List.length_append] at hn
  have hne : rest.take (k + 1) ≠ [] := by
    intro hnil
    have hlength := congrArg List.length hnil
    rw [List.length_take, List.length_nil] at hlength
    omega
  have hread := decode_octets text
  rw [htext, Nat.add_assoc, List.take_length_add_append, decode, decodeFrom_append] at hread
  rcases begins_or_refused hne with ⟨c, more, hc⟩ | ⟨length, hrefused⟩
  · refine hrest c (more ++ rest.drop (k + 1)) ?_
    rw [← List.append_assoc, ← hc, List.take_append_drop]
  · rw [hrefused] at hread
    cases hread

/-- **Octets that are no text** are refused, and the refusal says how long their longest beginning
is that is one. -/
theorem decode_of_not_wellFormed {bytes : List UInt8} (h : ¬ WellFormed bytes) :
    ∃ fault, decode bytes = .error fault ∧
      IsGreatest {n | n ≤ bytes.length ∧ WellFormed (bytes.take n)} fault.validUpTo := by
  obtain ⟨chars, rest, rfl, hrest⟩ := exists_characters bytes
  have hne : rest ≠ [] := by
    rintro rfl
    exact h (wellFormed_iff.mpr ⟨chars, (List.append_nil _).symm⟩)
  rcases begins_or_refused hne with ⟨c, more, hc⟩ | ⟨length, hrefused⟩
  · exact absurd hc (hrest c more)
  refine ⟨⟨0 + (chars.flatMap String.utf8EncodeChar).length, length⟩, ?_, ⟨?_, ?_⟩, ?_⟩
  · rw [decode, decodeFrom_append, hrefused]
    rfl
  · rw [List.length_append, Nat.zero_add]
    exact Nat.le_add_right ..
  · rw [Nat.zero_add, List.take_left]
    exact wellFormed_iff.mpr ⟨chars, rfl⟩
  · rintro n ⟨hn, hwell⟩
    rw [Nat.zero_add]
    exact le_of_wellFormed_take hrest hwell hn

end Utf8

end ForeignCall
