import ForeignCall.Text.Utf8

/-!
# ForeignCall.Proofs.Utf8

Reading back the octets of a text gives the text.

A character above U+007F is read in two parts.  Its first octet says how many
octets follow, and within which range the next one must lie; each octet that
follows adds six bits.  The narrowed ranges are those that the characters of
their first octet really use: no overlong form begins with `0xE0` or `0xF0`, no
surrogate with `0xED`, and nothing above U+10FFFF with `0xF4`.
-/

namespace ForeignCall

namespace Utf8

/-! ## First octets -/

theorem toNat_ofNat {n : Nat} (h : n < 256) : (UInt8.ofNat n).toNat = n :=
  UInt8.toNat_ofNat_of_lt' h

theorem opening_two : ∀ n < 32, 2 ≤ n →
    opening (UInt8.ofNat (n + 0xC0)) = some ⟨1, 1, 0x80, 0xBF, n⟩ := by
  decide

theorem opening_three : ∀ n < 16, opening (UInt8.ofNat (n + 0xE0)) =
    some ⟨1, 2, if n = 0 then 0xA0 else 0x80, if n = 13 then 0x9F else 0xBF, n⟩ := by
  decide

theorem opening_four : ∀ n < 5, opening (UInt8.ofNat (n + 0xF0)) =
    some ⟨1, 3, if n = 0 then 0x90 else 0x80, if n = 4 then 0x8F else 0xBF, n⟩ := by
  decide

theorem decodeFrom_ascii {n : Nat} (h : n < 0x80) (valid : Nat) (rest : List UInt8) :
    decodeFrom valid none (UInt8.ofNat n :: rest) =
      (Char.ofNat n :: ·) <$> decodeFrom (valid + 1) none rest := by
  have hn : (UInt8.ofNat n).toNat = n := toNat_ofNat (by omega)
  have hlt : UInt8.ofNat n < 0x80 := by rw [UInt8.lt_iff_toNat_lt, hn]; exact h
  rw [decodeFrom, if_pos hlt, hn]

theorem decodeFrom_opening {n : Nat} {begun : Sequence} (hl : 0x80 ≤ n) (hu : n < 256)
    (h : opening (UInt8.ofNat n) = some begun) (valid : Nat) (rest : List UInt8) :
    decodeFrom valid none (UInt8.ofNat n :: rest) = decodeFrom valid (some begun) rest := by
  have hn : (UInt8.ofNat n).toNat = n := toNat_ofNat hu
  have hlt : ¬ UInt8.ofNat n < 0x80 := by rw [UInt8.lt_iff_toNat_lt, hn]; exact Nat.not_lt.mpr hl
  rw [decodeFrom, if_neg hlt, h]

/-! ## Octets that follow -/

/-- An octet within the range of a sequence is not refused. -/
theorem in_range {x : Nat} {low high : UInt8} (hx : x < 64) (hl : low.toNat ≤ x + 0x80)
    (hh : x + 0x80 ≤ high.toNat) :
    ¬ (UInt8.ofNat (x + 0x80) < low ∨ high < UInt8.ofNat (x + 0x80)) := by
  have hn : (UInt8.ofNat (x + 0x80)).toNat = x + 0x80 := toNat_ofNat (by omega)
  rw [UInt8.lt_iff_toNat_lt, UInt8.lt_iff_toNat_lt, hn]
  omega

/-- The last octet of a sequence completes its character. -/
theorem decodeFrom_last {x seen code : Nat} {low high : UInt8} (hx : x < 64)
    (hl : low.toNat ≤ x + 0x80) (hh : x + 0x80 ≤ high.toNat) (valid : Nat) (rest : List UInt8) :
    decodeFrom valid (some ⟨seen, 1, low, high, code⟩) (UInt8.ofNat (x + 0x80) :: rest) =
      (Char.ofNat (code * 64 + x) :: ·) <$> decodeFrom (valid + seen + 1) none rest := by
  have hn : (UInt8.ofNat (x + 0x80)).toNat = x + 0x80 := toNat_ofNat (by omega)
  rw [decodeFrom, if_neg (in_range hx hl hh), if_pos (Nat.le_refl 1), hn, Nat.add_sub_cancel]

/-- Any other octet of a sequence adds its bits to the code. -/
theorem decodeFrom_more {x seen missing code : Nat} {low high : UInt8} (hx : x < 64)
    (hl : low.toNat ≤ x + 0x80) (hh : x + 0x80 ≤ high.toNat) (hm : 1 < missing)
    (valid : Nat) (rest : List UInt8) :
    decodeFrom valid (some ⟨seen, missing, low, high, code⟩) (UInt8.ofNat (x + 0x80) :: rest) =
      decodeFrom valid (some ⟨seen + 1, missing - 1, 0x80, 0xBF, code * 64 + x⟩) rest := by
  have hn : (UInt8.ofNat (x + 0x80)).toNat = x + 0x80 := toNat_ofNat (by omega)
  rw [decodeFrom, if_neg (in_range hx hl hh), if_neg (Nat.not_le.mpr hm), hn, Nat.add_sub_cancel]

/-- As for the octets that are bound by nothing but being octets that follow. -/
theorem decodeFrom_last_plain (x seen code valid : Nat) (rest : List UInt8) :
    decodeFrom valid (some ⟨seen, 1, 0x80, 0xBF, code⟩) (UInt8.ofNat (x % 64 + 0x80) :: rest) =
      (Char.ofNat (code * 64 + x % 64) :: ·) <$> decodeFrom (valid + seen + 1) none rest :=
  decodeFrom_last (Nat.mod_lt _ (by decide)) (Nat.le_add_left ..)
    (show x % 64 + 128 ≤ 191 by omega) valid rest

theorem decodeFrom_more_plain {missing : Nat} (hm : 1 < missing) (x seen code valid : Nat)
    (rest : List UInt8) :
    decodeFrom valid (some ⟨seen, missing, 0x80, 0xBF, code⟩)
        (UInt8.ofNat (x % 64 + 0x80) :: rest) =
      decodeFrom valid (some ⟨seen + 1, missing - 1, 0x80, 0xBF, code * 64 + x % 64⟩) rest :=
  decodeFrom_more (Nat.mod_lt _ (by decide)) (Nat.le_add_left ..)
    (show x % 64 + 128 ≤ 191 by omega) hm valid rest

/-! ## Characters and texts -/

/-- The octets of a character are read as that character, whatever follows them. -/
theorem decodeFrom_encodeChar (c : Char) (valid : Nat) (rest : List UInt8) :
    decodeFrom valid none (String.utf8EncodeChar c ++ rest) =
      (c :: ·) <$> decodeFrom (valid + (String.utf8EncodeChar c).length) none rest := by
  have hc : Char.ofNat c.val.toNat = c := Char.ofNat_toNat c
  have hvalid : c.val.toNat < 0xD800 ∨ 0xDFFF < c.val.toNat ∧ c.val.toNat < 0x110000 := c.valid
  unfold String.utf8EncodeChar
  generalize c.val.toNat = v at hc hvalid
  dsimp only
  split
  · next h1 =>
    simp only [List.cons_append, List.nil_append, List.length_cons, List.length_nil]
    rw [decodeFrom_ascii (by omega), hc]
  · split
    · next h1 h2 =>
      have hcode : v / 64 % 0x20 * 64 + v % 64 = v := by omega
      simp only [List.cons_append, List.nil_append, List.length_cons, List.length_nil]
      rw [decodeFrom_opening (by omega) (by omega) (opening_two _ (by omega) (by omega)),
        decodeFrom_last_plain, hcode, hc]
    · split
      · next h1 h2 h3 =>
        have hcode : (v / 4096 % 0x10 * 64 + v / 64 % 64) * 64 + v % 64 = v := by omega
        simp only [List.cons_append, List.nil_append, List.length_cons, List.length_nil]
        rw [decodeFrom_opening (by omega) (by omega) (opening_three _ (by omega)),
          decodeFrom_more (by omega) ?_ ?_ (by decide), decodeFrom_last_plain, hcode, hc]
        · split
          · show 0xA0 ≤ v / 64 % 64 + 0x80
            omega
          · exact Nat.le_add_left ..
        · split
          · show v / 64 % 64 + 0x80 ≤ 0x9F
            omega
          · show v / 64 % 64 + 0x80 ≤ 0xBF
            omega
      · next h1 h2 h3 =>
        have hcode : ((v / 262144 % 0x08 * 64 + v / 4096 % 64) * 64 + v / 64 % 64) * 64 + v % 64
            = v := by omega
        simp only [List.cons_append, List.nil_append, List.length_cons, List.length_nil]
        rw [decodeFrom_opening (by omega) (by omega) (opening_four _ (by omega)),
          decodeFrom_more (by omega) ?_ ?_ (by decide), decodeFrom_more_plain (by decide),
          decodeFrom_last_plain, hcode, hc]
        · split
          · show 0x90 ≤ v / 4096 % 64 + 0x80
            omega
          · exact Nat.le_add_left ..
        · split
          · show v / 4096 % 64 + 0x80 ≤ 0x8F
            omega
          · show v / 4096 % 64 + 0x80 ≤ 0xBF
            omega

theorem decodeFrom_encode (chars : List Char) (valid : Nat) :
    decodeFrom valid none (chars.flatMap String.utf8EncodeChar) = .ok chars := by
  induction chars generalizing valid with
  | nil => rfl
  | cons c rest ih => rw [List.flatMap_cons, decodeFrom_encodeChar, ih]; rfl

/-- **Reading back**: the octets of a text spell that text. -/
theorem decode_octets (text : String) : decode (octets text) = .ok text := by
  rw [decode, octets, decodeFrom_encode]
  exact congrArg Except.ok String.ofList_toList

/-- Only NUL has an octet that is zero. -/
theorem eq_nul_of_mem {c : Char} (h : 0 ∈ String.utf8EncodeChar c) : c = '\x00' := by
  have hc : Char.ofNat c.val.toNat = c := Char.ofNat_toNat c
  have hvalid : c.val.toNat < 0xD800 ∨ 0xDFFF < c.val.toNat ∧ c.val.toNat < 0x110000 := c.valid
  have hoctet {n : Nat} (hn : n < 256) (hzero : (0 : UInt8) = UInt8.ofNat n) : n = 0 := by
    have htoNat := congrArg UInt8.toNat hzero
    rw [toNat_ofNat hn] at htoNat
    exact htoNat.symm
  unfold String.utf8EncodeChar at h
  generalize c.val.toNat = v at hc hvalid h
  dsimp only at h
  split at h
  · next hsmall =>
    have hv : v = 0 := hoctet (by omega) (List.mem_singleton.mp h)
    rw [← hc, hv]
  -- every other octet has its highest bit set
  · split at h
    · simp only [List.mem_cons, List.not_mem_nil, or_false] at h
      rcases h with h | h <;> exact absurd (hoctet (by omega) h) (by omega)
    · split at h
      · simp only [List.mem_cons, List.not_mem_nil, or_false] at h
        rcases h with h | h | h <;> exact absurd (hoctet (by omega) h) (by omega)
      · simp only [List.mem_cons, List.not_mem_nil, or_false] at h
        rcases h with h | h | h | h <;> exact absurd (hoctet (by omega) h) (by omega)

theorem zero_not_mem_octets {text : String} (h : '\x00' ∉ text.toList) : 0 ∉ octets text := by
  intro hzero
  obtain ⟨c, hc, hoctet⟩ := List.mem_flatMap.mp hzero
  exact h (eq_nul_of_mem hoctet ▸ hc)

/-! ## Cutting -/

theorem fitting_eq_self {chars : List Char} {room : Nat}
    (h : (chars.flatMap String.utf8EncodeChar).length ≤ room) : fitting room chars = chars := by
  induction chars generalizing room with
  | nil => rfl
  | cons c rest ih =>
    rw [List.flatMap_cons, List.length_append, String.length_utf8EncodeChar] at h
    rw [fitting, if_pos (by omega), ih (by omega)]

/-- A text that fits is not cut. -/
theorem cut_eq_octets {text : String} {room : Nat} (h : size text ≤ room) :
    cut room text = octets text := by
  rw [cut, fitting_eq_self h, octets]

@[simp] theorem size_append (s t : String) : size (s ++ t) = size s + size t := by
  simp [size, octets]

@[simp] theorem size_singleton (c : Char) : size (String.singleton c) = c.utf8Size := by
  simp [size, octets]

/-- Every character has octets. -/
theorem encodeChar_ne_nil (c : Char) : String.utf8EncodeChar c ≠ [] := by
  intro hnil
  have hlen := congrArg List.length hnil
  rw [String.length_utf8EncodeChar, List.length_nil] at hlen
  exact absurd hlen (Nat.ne_of_gt c.utf8Size_pos)

/-- Only the empty text has no octets. -/
theorem size_eq_zero {text : String} : size text = 0 ↔ text = "" := by
  rw [size, octets, List.length_eq_zero_iff, List.flatMap_eq_nil_iff, ← String.toList_eq_nil_iff]
  constructor
  · intro h
    rw [List.eq_nil_iff_forall_not_mem]
    intro c hc
    exact encodeChar_ne_nil c (h c hc)
  · intro h c hc
    rw [h] at hc
    exact absurd hc List.not_mem_nil

end Utf8

end ForeignCall
