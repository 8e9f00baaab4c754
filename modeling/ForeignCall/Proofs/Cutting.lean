import ForeignCall.Proofs.Decoding
import ForeignCall.Proofs.Invocation

/-!
# ForeignCall.Proofs.Cutting

Strings that are copied into a buffer of any size.

A text may be cut at its `Boundary`s: where the octets so far are those of
whole characters.  The cut takes characters from the front as long as they fit,
and of all beginnings that fit this is the longest (`prefix_fitting`).

One can also find it from the other end, without reading a character: at a
boundary, and nowhere else, there is an octet that opens a character, or the
text is over (`boundary_iff`).  So it is the first such place on the way down
from the end of the text or of the room (`lastOpening`), and there is one,
since a text opens with its first character.

`readInto_exact` — what is in the buffer afterwards, and how much of it is text.
-/

namespace ForeignCall

namespace Utf8

/-! ## The longest beginning that fits -/

theorem fitting_prefix (room : Nat) (chars : List Char) : fitting room chars <+: chars := by
  fun_induction fitting room chars with
  | case1 => exact List.prefix_rfl
  | case2 room c rest hfits ih => exact (List.prefix_cons_inj c).mpr ih
  | case3 => exact List.nil_prefix

theorem length_flatMap_fitting_le (room : Nat) (chars : List Char) :
    ((fitting room chars).flatMap String.utf8EncodeChar).length ≤ room := by
  fun_induction fitting room chars with
  | case1 | case3 => exact Nat.zero_le _
  | case2 room c rest hfits ih =>
    rw [List.flatMap_cons, List.length_append, String.length_utf8EncodeChar]
    omega

/-- What fits is part of what is taken. -/
theorem prefix_fitting {chars before : List Char} {room : Nat} (hbefore : before <+: chars)
    (hroom : (before.flatMap String.utf8EncodeChar).length ≤ room) :
    before <+: fitting room chars := by
  induction chars generalizing before room with
  | nil => exact hbefore
  | cons c rest ih =>
    rcases List.prefix_cons_iff.mp hbefore with rfl | ⟨more, rfl, hmore⟩
    · exact List.nil_prefix
    · rw [List.flatMap_cons, List.length_append, String.length_utf8EncodeChar] at hroom
      rw [fitting, if_pos (by omega)]
      exact (List.prefix_cons_inj c).mpr (ih hmore (by omega))

/-! ## Boundaries -/

/-- A text may be cut behind this many octets: they are all the octets of a beginning of it. -/
def Boundary (text : String) (n : Nat) : Prop :=
  ∃ before after : String, text = before ++ after ∧ n = size before

/-- Some of the characters from the front have this many octets. -/
def Ends (chars : List Char) (n : Nat) : Prop :=
  ∃ before, before <+: chars ∧ (before.flatMap String.utf8EncodeChar).length = n

theorem ends_zero (chars : List Char) : Ends chars 0 :=
  ⟨[], List.nil_prefix, rfl⟩

/-- Nothing ends within the first character. -/
theorem ends_cons_of_lt {c : Char} {n : Nat} (hn : n < c.utf8Size) (rest : List Char) :
    Ends (c :: rest) n ↔ n = 0 := by
  constructor
  · rintro ⟨before, hbefore, rfl⟩
    rcases List.prefix_cons_iff.mp hbefore with rfl | ⟨more, rfl, -⟩
    · rfl
    · rw [List.flatMap_cons, List.length_append, String.length_utf8EncodeChar] at hn
      omega
  · rintro rfl
    exact ends_zero _

theorem ends_cons_add (c : Char) (rest : List Char) (n : Nat) :
    Ends (c :: rest) ((String.utf8EncodeChar c).length + n) ↔ Ends rest n := by
  constructor
  · rintro ⟨before, hbefore, hlength⟩
    rcases List.prefix_cons_iff.mp hbefore with rfl | ⟨more, rfl, hmore⟩
    · have hpos := List.length_pos_iff.mpr (encodeChar_ne_nil c)
      rw [List.flatMap_nil, List.length_nil] at hlength
      omega
    · rw [List.flatMap_cons, List.length_append] at hlength
      exact ⟨more, hmore, Nat.add_left_cancel hlength⟩
  · rintro ⟨before, hbefore, rfl⟩
    refine ⟨c :: before, (List.prefix_cons_inj c).mpr hbefore, ?_⟩
    rw [List.flatMap_cons, List.length_append]

theorem boundary_iff_ends {text : String} {n : Nat} : Boundary text n ↔ Ends text.toList n := by
  constructor
  · rintro ⟨before, after, rfl, rfl⟩
    exact ⟨before.toList, ⟨after.toList, String.toList_append.symm⟩, rfl⟩
  · rintro ⟨before, ⟨after, htext⟩, rfl⟩
    refine ⟨String.ofList before, String.ofList after, ?_, ?_⟩
    · rw [← String.ofList_append, htext, String.ofList_toList]
    · rw [size, octets, String.toList_ofList]

theorem Boundary.le_size {text : String} {n : Nat} (h : Boundary text n) : n ≤ size text := by
  obtain ⟨before, after, rfl, rfl⟩ := h
  rw [size_append]
  exact Nat.le_add_right ..

theorem Boundary.wellFormed_take {text : String} {n : Nat} (h : Boundary text n) :
    WellFormed ((octets text).take n) := by
  obtain ⟨before, after, rfl, rfl⟩ := h
  refine ⟨before, ?_⟩
  rw [octets, octets, String.toList_append, List.flatMap_append, size, octets, List.take_left]

/-- What a cut takes ends at the greatest boundary within the room. -/
theorem isGreatest_length_cut (room : Nat) (text : String) :
    IsGreatest {n | Boundary text n ∧ n ≤ room} (cut room text).length := by
  constructor
  · exact ⟨boundary_iff_ends.mpr ⟨_, fitting_prefix room _, rfl⟩,
      length_flatMap_fitting_le room _⟩
  · rintro n ⟨hn, hroom⟩
    obtain ⟨before, hbefore, rfl⟩ := boundary_iff_ends.mp hn
    obtain ⟨more, hmore⟩ := prefix_fitting hbefore hroom
    rw [cut, ← hmore, List.flatMap_append, List.length_append]
    exact Nat.le_add_right ..

theorem cut_eq_take (room : Nat) (text : String) :
    cut room text = (octets text).take (cut room text).length := by
  obtain ⟨more, hmore⟩ := fitting_prefix room text.toList
  rw [octets, ← hmore, List.flatMap_append]
  exact List.take_left.symm

/-! ## Boundaries by their octets -/

/-- Whether a character may begin at a place: the octet there opens one, or there is none. -/
def opensAt (bytes : List UInt8) (n : Nat) : Bool :=
  bytes[n]?.all fun octet => decide octet.IsUTF8FirstByte

/-- Within the octets of a character only the first one opens one. -/
theorem opensAt_encodeChar {c : Char} {n : Nat} (hn : n < c.utf8Size) (rest : List UInt8) :
    opensAt (String.utf8EncodeChar c ++ rest) n ↔ n = 0 := by
  have hlen : n < (String.utf8EncodeChar c).length := by rwa [String.length_utf8EncodeChar]
  rw [opensAt, List.getElem?_append_left hlen, List.getElem?_eq_getElem hlen, Option.all_some,
    decide_eq_true_iff]
  exact UInt8.isUTF8FirstByte_getElem_utf8EncodeChar

theorem opensAt_append (front rest : List UInt8) (n : Nat) :
    opensAt (front ++ rest) (front.length + n) = opensAt rest n := by
  rw [opensAt, opensAt, List.getElem?_append_right (Nat.le_add_right ..), Nat.add_sub_cancel_left]

/-- A character may begin where characters end. -/
theorem opensAt_iff_ends {chars : List Char} {n : Nat}
    (hn : n ≤ (chars.flatMap String.utf8EncodeChar).length) :
    opensAt (chars.flatMap String.utf8EncodeChar) n ↔ Ends chars n := by
  induction chars generalizing n with
  | nil =>
    obtain rfl := Nat.le_zero.mp hn
    exact iff_of_true rfl (ends_zero [])
  | cons c rest ih =>
    rw [List.flatMap_cons]
    by_cases hinside : n < c.utf8Size
    · rw [opensAt_encodeChar hinside, ends_cons_of_lt hinside]
    · obtain ⟨k, rfl⟩ := Nat.exists_eq_add_of_le (Nat.not_lt.mp hinside)
      rw [List.flatMap_cons, List.length_append, String.length_utf8EncodeChar] at hn
      rw [← String.length_utf8EncodeChar c, opensAt_append, ih (Nat.le_of_add_le_add_left hn),
        ends_cons_add]

/-- A boundary shows in the octet behind it. -/
theorem boundary_iff {text : String} {n : Nat} :
    Boundary text n ↔ n ≤ size text ∧ opensAt (octets text) n := by
  constructor
  · intro h
    exact ⟨h.le_size, (opensAt_iff_ends h.le_size).mpr (boundary_iff_ends.mp h)⟩
  · rintro ⟨hn, hopens⟩
    exact boundary_iff_ends.mpr ((opensAt_iff_ends hn).mp hopens)

/-- The last place up to `n` where a character may begin, sought from there downwards: `none` if the
search gets below zero. -/
def lastOpening (bytes : List UInt8) : Nat → Option Nat
  | 0 => if opensAt bytes 0 then some 0 else none
  | n + 1 => if opensAt bytes (n + 1) then some (n + 1) else lastOpening bytes n

/-- The search ends at the greatest place there is. -/
theorem lastOpening_eq_some {bytes : List UInt8} {n place : Nat}
    (h : IsGreatest {m | opensAt bytes m ∧ m ≤ n} place) : lastOpening bytes n = some place := by
  induction n with
  | zero =>
    obtain ⟨⟨hopens, hplace⟩, -⟩ := h
    obtain rfl := Nat.le_zero.mp hplace
    rw [lastOpening, if_pos hopens]
  | succ n ih =>
    obtain ⟨⟨hopens, hplace⟩, hgreatest⟩ := h
    by_cases hhere : opensAt bytes (n + 1)
    · have hle : n + 1 ≤ place := hgreatest ⟨hhere, Nat.le_refl _⟩
      rw [lastOpening, if_pos hhere, Nat.le_antisymm hplace hle]
    · have hbelow : place ≤ n := by
        have hne : place ≠ n + 1 := by
          rintro rfl
          exact hhere hopens
        omega
      rw [lastOpening, if_neg hhere]
      exact ih ⟨⟨hopens, hbelow⟩, fun m ⟨hm, hmn⟩ => hgreatest ⟨hm, Nat.le_succ_of_le hmn⟩⟩

/-- A cut is found from the end of the text, or of the room, downwards. -/
theorem lastOpening_eq_length_cut (room : Nat) (text : String) :
    lastOpening (octets text) (min (size text) room) = some (cut room text).length := by
  obtain ⟨⟨hboundary, hroom⟩, hgreatest⟩ := isGreatest_length_cut room text
  obtain ⟨hsize, hopens⟩ := boundary_iff.mp hboundary
  refine lastOpening_eq_some ⟨⟨hopens, Nat.le_min.mpr ⟨hsize, hroom⟩⟩, ?_⟩
  rintro n ⟨hn, hmin⟩
  obtain ⟨hnsize, hnroom⟩ := Nat.le_min.mp hmin
  exact hgreatest ⟨boundary_iff.mpr ⟨hnsize, hn⟩, hnroom⟩

end Utf8

namespace Arena

open Utf8

/-! ## Buffers -/

/-- A buffer whose front is overwritten by some octets and a zero. -/
def overwritten (buffer octets : List UInt8) : List UInt8 :=
  octets ++ 0 :: buffer.drop (octets.length + 1)

theorem take_overwritten (buffer octets : List UInt8) :
    (overwritten buffer octets).take octets.length = octets :=
  List.take_left

theorem getElem?_overwritten (buffer octets : List UInt8) :
    (overwritten buffer octets)[octets.length]? = some 0 := by
  rw [overwritten, List.getElem?_append_right (Nat.le_refl _), Nat.sub_self,
    List.getElem?_cons_zero]

theorem drop_overwritten (buffer octets : List UInt8) :
    (overwritten buffer octets).drop (octets.length + 1) = buffer.drop (octets.length + 1) := by
  rw [overwritten, List.drop_length_add_append, List.drop_succ_cons, List.drop_zero]

/-- A buffer with room for the zero, too, is not left. -/
theorem length_overwritten {buffer octets : List UInt8} (h : octets.length < buffer.length) :
    (overwritten buffer octets).length = buffer.length := by
  rw [overwritten, List.length_append, List.length_cons, List.length_drop]
  omega

/-! ## Copies -/

/-- A text has been copied into a buffer that is not empty: `n` octets of it, a zero behind them,
and the rest of the buffer as it was. -/
structure Copied (text : String) (buffer : List UInt8) (n : Nat) (after : List UInt8) : Prop where
  /-- As much as there is room for, cut between characters. -/
  greatest : IsGreatest {m | Boundary text m ∧ m ≤ size text ∧ m ≤ buffer.length - 1} n
  /-- So much is found on the way down from the last place there is room for. -/
  found : lastOpening (octets text) (min (size text) (buffer.length - 1)) = some n
  front : after.take n = (octets text).take n
  wellFormed : WellFormed (after.take n)
  terminator : after[n]? = some 0
  rest : after.drop (n + 1) = buffer.drop (n + 1)
  length : after.length = buffer.length

theorem copied_overwritten (text : String) {buffer : List UInt8} (hbuffer : buffer ≠ []) :
    Copied text buffer (cut (buffer.length - 1) text).length
      (overwritten buffer (cut (buffer.length - 1) text)) := by
  have hpos : 0 < buffer.length := List.length_pos_iff.mpr hbuffer
  have hfound := lastOpening_eq_length_cut (buffer.length - 1) text
  have hcut := cut_eq_take (buffer.length - 1) text
  obtain ⟨⟨hboundary, hroom⟩, hgreatest⟩ := isGreatest_length_cut (buffer.length - 1) text
  generalize cut (buffer.length - 1) text = copy at *
  have hfront := (take_overwritten buffer copy).trans hcut
  exact {
    greatest := ⟨⟨hboundary, hboundary.le_size, hroom⟩,
      fun m ⟨hm, _, hmroom⟩ => hgreatest ⟨hm, hmroom⟩⟩
    found := hfound
    front := hfront
    wellFormed := hfront ▸ hboundary.wellFormed_take
    terminator := getElem?_overwritten buffer copy
    rest := drop_overwritten buffer copy
    length := length_overwritten (Nat.lt_of_le_sub_one hpos hroom) }

/-! ## Reading -/

variable {a : Arena} {h : Handle} {text : String}

theorem readUtf8_zero (htext : a.stringOf h = .ok text) : a.readUtf8 h 0 = .ok [] := by
  rw [Arena.readUtf8, htext]
  rfl

theorem readInto_nil (htext : a.stringOf h = .ok text) : a.readInto h [] = .ok (0, []) := by
  rw [readInto, List.length_nil, readUtf8_zero htext]
  rfl

theorem readInto_of_ne_nil (htext : a.stringOf h = .ok text) {buffer : List UInt8}
    (hbuffer : buffer ≠ []) :
    a.readInto h buffer = .ok ((cut (buffer.length - 1) text).length,
      overwritten buffer (cut (buffer.length - 1) text)) := by
  rw [readInto, readUtf8_of_pos htext (List.length_pos_iff.mpr hbuffer)]
  cases buffer with
  | nil => exact absurd rfl hbuffer
  | cons octet more => rfl

/-- **Copies of strings**: of a string as much is copied into a buffer as there is room for beside a
zero behind it, cut between characters, and the buffer is otherwise left alone.  A string is copied
as a whole if there is room for it, and nothing is written to an empty buffer.  What a call reads
are the octets of the string that are in the buffer then. -/
theorem readInto_exact (htext : a.stringOf h = .ok text) (buffer : List UInt8) :
    ∃ n after, a.readInto h buffer = .ok (n, after) ∧
      HostRuntime.readUtf8 h buffer.length a = .ok (after.take n) a ∧
      (buffer = [] → n = 0 ∧ after = []) ∧
      (buffer ≠ [] → Copied text buffer n after) ∧
      (size text + 1 ≤ buffer.length → n = size text ∧ after.take n = octets text) := by
  by_cases hbuffer : buffer = []
  · subst hbuffer
    exact ⟨0, [], readInto_nil htext, Action.look_of_ok (readUtf8_zero htext),
      fun _ => ⟨rfl, rfl⟩, absurd rfl, nofun⟩
  · have hpos : 0 < buffer.length := List.length_pos_iff.mpr hbuffer
    refine ⟨_, _, readInto_of_ne_nil htext hbuffer, Action.look_of_ok ?_,
      fun hnil => absurd hnil hbuffer, fun _ => copied_overwritten text hbuffer, fun hroom => ?_⟩
    · rw [take_overwritten]
      exact readUtf8_of_pos htext hpos
    · rw [take_overwritten, cut_eq_octets (Nat.le_sub_one_of_lt hroom)]
      exact ⟨rfl, rfl⟩

/-- There is room for half of a character, which is left out. -/
theorem readInto_exact_midCharacter :
    let a : Arena := { slots := #[.string "héllo"] }
    a.stringOf ⟨0⟩ = .ok "héllo" ∧
      a.readInto ⟨0⟩ [0xFF, 0xFF, 0xFF] = .ok (1, [0x68, 0x00, 0xFF]) ∧
      Copied "héllo" [0xFF, 0xFF, 0xFF] 1 [0x68, 0x00, 0xFF] := by
  intro a
  have htext : a.stringOf ⟨0⟩ = .ok "héllo" := rfl
  have hread : a.readInto ⟨0⟩ [0xFF, 0xFF, 0xFF] = .ok (1, [0x68, 0x00, 0xFF]) := by decide
  obtain ⟨n, after, hexact, -, -, hcopied, -⟩ := readInto_exact htext [0xFF, 0xFF, 0xFF]
  cases hread.symm.trans hexact
  exact ⟨htext, hread, hcopied (by decide)⟩

end Arena

end ForeignCall
