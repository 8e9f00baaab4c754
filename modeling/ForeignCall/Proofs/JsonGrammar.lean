import ForeignCall.Json.Skip
import ForeignCall.Proofs.JsonText

/-!
# ForeignCall.Proofs.JsonGrammar

The grammar of JSON, and reading past values.

```
value    =  null | true | false | "characters" | [-] whole [fraction] [exponent]
         |  [ items ]  |  { members }
```

`ValueText` is the grammar of all values, of any depth and with numbers of any
size.  The characters of a string are anything that may stand between quotes;
`NameText` adds what text they are, which is more than the grammar asks for: the
numbers of surrogates have to pair up then.

* `ValueText.skip` — a value is skipped up to its end, whatever comes after it;
* `NameText.characters` — the name of a field is read as the text it spells.

A number has no end of its own.  So what comes after a value must not go on with
it (`Stops`), as nothing does that may come after a value in JSON.
-/

namespace ForeignCall

namespace Json

/-! ## Where a value ends -/

/-- The text is over, or what comes next is a blank, a comma or a closing bracket. -/
def Stops (text : List Char) : Prop :=
  ∀ c ∈ text.head?, Reader.isBlank c = true ∨ c = ',' ∨ c = ']' ∨ c = '\x7d'

/-- The text does not go on with a digit. -/
def NoDigit (text : List Char) : Prop :=
  ∀ c ∈ text.head?, c.isDigit = false

theorem stops_cons {c : Char} {rest : List Char} :
    Stops (c :: rest) ↔ Reader.isBlank c = true ∨ c = ',' ∨ c = ']' ∨ c = '\x7d' := by
  simp [Stops]

/-- No number goes on where a value ends. -/
theorem Stops.noDigit {text : List Char} (h : Stops text) : NoDigit text := by
  intro c hc
  rcases h c hc with hblank | rfl | rfl | rfl
  · simp only [Reader.isBlank, Bool.or_eq_true, decide_eq_true_eq] at hblank
    rcases hblank with ((rfl | rfl) | rfl) | rfl <;> rfl
  all_goals rfl

theorem Stops.ne {text : List Char} (h : Stops text) {c : Char} (hc : c ∈ text.head?) :
    c ≠ '.' ∧ c ≠ 'e' ∧ c ≠ 'E' := by
  rcases h c hc with hblank | rfl | rfl | rfl
  · simp only [Reader.isBlank, Bool.or_eq_true, decide_eq_true_eq] at hblank
    rcases hblank with ((rfl | rfl) | rfl) | rfl <;> decide
  all_goals decide

theorem Blank.stops_append {blanks rest : List Char} (h : Blank blanks) (hrest : Stops rest) :
    Stops (blanks ++ rest) := by
  cases blanks with
  | nil => exact hrest
  | cons c blanks => exact stops_cons.mpr (.inl (h c List.mem_cons_self))

/-! ## Numbers -/

/-- Decimal digits, at least one. -/
def Digits (text : List Char) : Prop :=
  text ≠ [] ∧ ∀ c ∈ text, c.isDigit = true

/-- The digits before the point: zero alone, or digits that do not start with it. -/
def WholePart (text : List Char) : Prop :=
  Digits text ∧ (text.head? = some '0' → text.length = 1)

inductive FractionPart : List Char → Prop where
  | none : FractionPart []
  | point {digits : List Char} : Digits digits → FractionPart ('.' :: digits)

inductive ExponentPart : List Char → Prop where
  | none : ExponentPart []
  | mark {mark : Char} {sign digits : List Char} : mark = 'e' ∨ mark = 'E' →
      sign = [] ∨ sign = ['+'] ∨ sign = ['-'] → Digits digits →
      ExponentPart (mark :: (sign ++ digits))

/-- A digit is nothing that is no digit. -/
theorem ne_of_isDigit {c d : Char} (h : c.isDigit = true) (hd : d.isDigit = false) : c ≠ d := by
  rintro rfl
  cases h.symm.trans hd

/-- A number, after its sign. -/
inductive Magnitude : List Char → Prop where
  | parts {whole fraction exponent : List Char} : WholePart whole → FractionPart fraction →
      ExponentPart exponent → Magnitude (whole ++ (fraction ++ exponent))

theorem Digits.head {digits : List Char} (h : Digits digits) :
    ∃ c rest, digits = c :: rest ∧ c.isDigit = true := by
  obtain ⟨hne, hall⟩ := h
  cases digits with
  | nil => exact absurd rfl hne
  | cons c rest => exact ⟨c, rest, rfl, hall c List.mem_cons_self⟩

/-- There is a digit, and no zero before others. -/
theorem WholePart.begins {digits : List Char} (h : WholePart digits) :
    ¬ digits.isEmpty = true ∧ ¬ (digits.head? = some '0' ∧ 1 < digits.length) :=
  ⟨by simpa using h.1.1, fun ⟨hhead, hlength⟩ => absurd (h.2 hhead) (Nat.ne_of_gt hlength)⟩

/-- The digits are read up to the last. -/
theorem Digits.span {digits rest : List Char} (h : Digits digits) (hrest : NoDigit rest) :
    (digits ++ rest).takeWhile Char.isDigit = digits ∧
      (digits ++ rest).dropWhile Char.isDigit = rest := by
  rw [List.takeWhile_append_of_pos h.2, List.dropWhile_append_of_pos h.2]
  cases rest with
  | nil => simp
  | cons c rest => simp [hrest c rfl]

theorem ExponentPart.noDigit {exponent rest : List Char} (h : ExponentPart exponent)
    (hrest : Stops rest) : NoDigit (exponent ++ rest) := by
  cases h with
  | none => exact hrest.noDigit
  | mark hmark _ _ =>
    rintro c hc
    obtain rfl : _ = c := Option.some.inj hc
    rcases hmark with rfl | rfl <;> rfl

theorem ExponentPart.ne_point {exponent rest : List Char} (h : ExponentPart exponent)
    (hrest : Stops rest) (more : List Char) : exponent ++ rest ≠ '.' :: more := by
  cases h with
  | none =>
    rintro rfl
    exact (hrest.ne (c := '.') rfl).1 rfl
  | mark hmark _ _ =>
    intro heq
    obtain ⟨rfl, -⟩ := List.cons.inj heq
    rcases hmark with h | h <;> cases h

theorem FractionPart.noDigit {fraction exponent rest : List Char} (h : FractionPart fraction)
    (hexponent : ExponentPart exponent) (hrest : Stops rest) :
    NoDigit (fraction ++ (exponent ++ rest)) := by
  cases h with
  | none => exact hexponent.noDigit hrest
  | point _ =>
    rintro c hc
    obtain rfl : _ = c := Option.some.inj hc
    rfl

namespace Skip

theorem someDigits_append {digits rest : List Char} (h : Digits digits) (hrest : NoDigit rest) :
    someDigits (digits ++ rest) = .ok rest := by
  have hspan := (h.span hrest).2
  obtain ⟨c, more, rfl, hc⟩ := h.head
  rw [List.cons_append, List.dropWhile_cons_of_pos hc] at hspan
  rw [List.cons_append, someDigits, if_pos hc, hspan]

theorem exponent_append {text rest : List Char} (h : ExponentPart text) (hrest : Stops rest) :
    exponent (text ++ rest) = .ok rest := by
  cases h with
  | none =>
    cases rest with
    | nil => rfl
    | cons c rest =>
      obtain ⟨-, he, hE⟩ := hrest.ne (c := c) rfl
      rw [List.nil_append, exponent]
      · exact fun _ h => he (List.cons.inj h).1
      · exact fun _ h => hE (List.cons.inj h).1
  | @mark mark sign digits hmark hsign hdigits =>
    have hread := someDigits_append hdigits hrest.noDigit
    rw [List.cons_append, List.append_assoc]
    rcases hsign with rfl | rfl | rfl
    · -- a digit is no sign
      obtain ⟨c, more, rfl, hc⟩ := hdigits.head
      rw [← hread, List.nil_append, List.cons_append]
      rcases hmark with rfl | rfl
      all_goals
        rw [exponent]
        · exact fun _ heq => ne_of_isDigit hc rfl (List.cons.inj heq).1
        · exact fun _ heq => ne_of_isDigit hc rfl (List.cons.inj heq).1
    · rcases hmark with rfl | rfl <;> exact hread
    · rcases hmark with rfl | rfl <;> exact hread

theorem number_append {text rest : List Char} (h : Magnitude text) (hrest : Stops rest) :
    number (text ++ rest) = .ok rest := by
  cases h with
  | @parts whole fraction exponent hwhole hfraction hexponent =>
    obtain ⟨htake, hdrop⟩ := hwhole.1.span (hfraction.noDigit hexponent hrest)
    obtain ⟨hnonempty, hzero⟩ := hwhole.begins
    rw [List.append_assoc, List.append_assoc, number]
    simp only [htake, hdrop, if_neg hnonempty, if_neg hzero, bind, Except.bind]
    cases hfraction with
    | none =>
      have hexp := exponent_append hexponent hrest
      rw [List.nil_append]
      split
      · next heq => exact absurd heq (hexponent.ne_point hrest _)
      · exact hexp
    | point hdigits =>
      have hpoint := someDigits_append hdigits (hexponent.noDigit hrest)
      simp only [List.cons_append, hpoint, exponent_append hexponent hrest]

end Skip

/-! ## Strings -/

/-- Four hexadecimal digits and their number. -/
inductive HexUnit : Nat → List Char → Prop where
  | digits {a b c d : Char} {i j k l : Nat} : Reader.hexValue? a = some i →
      Reader.hexValue? b = some j → Reader.hexValue? c = some k → Reader.hexValue? d = some l →
      HexUnit (((i * 16 + j) * 16 + k) * 16 + l) [a, b, c, d]

/-- What may stand between quotes. -/
inductive StringText : List Char → Prop where
  | nil : StringText []
  | plain {c : Char} {text : List Char} : c ≠ '"' → c ≠ '\\' → 0x20 ≤ c.toNat →
      StringText text → StringText (c :: text)
  | letter {c meant : Char} {text : List Char} : Reader.escaped? c = some meant →
      StringText text → StringText ('\\' :: c :: text)
  | number {n : Nat} {unit text : List Char} : HexUnit n unit → StringText text →
      StringText ('\\' :: 'u' :: (unit ++ text))

/-- What may stand between quotes, and the characters that it spells. -/
inductive NameText : List Char → List Char → Prop where
  | nil : NameText [] []
  | plain {c : Char} {cs text : List Char} : c ≠ '"' → c ≠ '\\' → 0x20 ≤ c.toNat →
      NameText cs text → NameText (c :: cs) (c :: text)
  | letter {c meant : Char} {cs text : List Char} : Reader.escaped? c = some meant →
      NameText cs text → NameText (meant :: cs) ('\\' :: c :: text)
  | number {n : Nat} {cs unit text : List Char} : HexUnit n unit →
      n < 0xD800 ∨ 0xDFFF < n → NameText cs text →
      NameText (Char.ofNat n :: cs) ('\\' :: 'u' :: (unit ++ text))
  /-- A character beyond the first 2^16, by the numbers of two surrogates. -/
  | pair {high low : Nat} {cs unit unit' text : List Char} : HexUnit high unit →
      HexUnit low unit' → 0xD800 ≤ high → high ≤ 0xDBFF → 0xDC00 ≤ low → low ≤ 0xDFFF →
      NameText cs text →
      NameText (Char.ofNat ((high - 0xD800) * 0x400 + (low - 0xDC00) + 0x10000) :: cs)
        ('\\' :: 'u' :: (unit ++ '\\' :: 'u' :: (unit' ++ text)))

/-- What spells something may stand between quotes. -/
theorem NameText.stringText {cs text : List Char} (h : NameText cs text) : StringText text := by
  induction h with
  | nil => exact .nil
  | plain hquote hbackslash hplain _ ih => exact .plain hquote hbackslash hplain ih
  | letter hmeant _ ih => exact .letter hmeant ih
  | number hunit _ _ ih => exact .number hunit ih
  | pair hunit hunit' _ _ _ _ _ ih => exact .number hunit (.number hunit' ih)

/-- A character that needs no escape. -/
def isPlain (c : Char) : Bool :=
  c != '"' && c != '\\' && 0x20 ≤ c.toNat

/-- Characters that need no escape spell themselves. -/
theorem nameText_plain {cs : List Char} (h : cs.all isPlain = true) : NameText cs cs := by
  induction cs with
  | nil => exact .nil
  | cons c cs ih =>
    rw [List.all_cons, Bool.and_eq_true] at h
    have hc := h.1
    simp only [isPlain, Bool.and_eq_true, bne_iff_ne, decide_eq_true_eq] at hc
    exact .plain hc.1.1 hc.1.2 hc.2 (ih h.2)

theorem HexUnit.read {n : Nat} {unit : List Char} (h : HexUnit n unit) (rest : List Char) :
    Reader.hexUnit (unit ++ rest) = .ok (n, rest) := by
  cases h with
  | digits ha hb hc hd =>
    simp only [List.cons_append, List.nil_append, Reader.hexUnit, ha, hb, hc, hd]

/-- A string is skipped up to its closing quote. -/
theorem StringText.skip {text : List Char} (h : StringText text) {fuel : Nat}
    (hfuel : text.length < fuel) (rest : List Char) :
    Skip.string fuel (text ++ '"' :: rest) = .ok rest := by
  induction h generalizing fuel with
  | nil =>
    obtain ⟨fuel, rfl⟩ := Nat.exists_eq_add_one.mpr hfuel
    rfl
  | plain hquote hbackslash hplain _ ih =>
    obtain ⟨fuel, rfl⟩ := Nat.exists_eq_add_one.mpr (Nat.zero_lt_of_lt hfuel)
    simp only [List.cons_append, Skip.string, if_neg hquote, if_neg hbackslash,
      if_neg (Nat.not_lt.mpr hplain)]
    exact ih (Nat.lt_of_succ_lt_succ hfuel)
  | @letter c meant text hmeant _ ih =>
    obtain ⟨fuel, rfl⟩ := Nat.exists_eq_add_one.mpr (Nat.zero_lt_of_lt hfuel)
    have hrest : Skip.string fuel (text ++ '"' :: rest) = .ok rest :=
      ih (by simp only [List.length_cons] at hfuel; omega)
    have hescaped : (Reader.escaped? c).isSome = true := by rw [hmeant]; rfl
    have hquote : ¬ '\\' = '"' := by decide
    simp only [List.cons_append, Skip.string, if_neg hquote, if_true]
    split
    · next hend => cases hend
    · next hend =>
      obtain ⟨rfl, -⟩ := List.cons.inj hend
      cases hmeant
    · next hend =>
      obtain ⟨rfl, rfl⟩ := List.cons.inj hend
      simp [hescaped, hrest]
  | @number n unit text hunit _ ih =>
    obtain ⟨fuel, rfl⟩ := Nat.exists_eq_add_one.mpr (Nat.zero_lt_of_lt hfuel)
    have hrest : Skip.string fuel (text ++ '"' :: rest) = .ok rest :=
      ih (by simp only [List.length_cons, List.length_append] at hfuel; omega)
    simp [Skip.string, hunit.read, hrest, bind, Except.bind]

namespace Reader

theorem escape_letter {c meant : Char} (h : escaped? c = some meant) (rest : List Char) :
    escape (c :: rest) = .ok (meant, rest) := by
  have hu : c ≠ 'u' := by
    rintro rfl
    cases h
  rw [escape, h]
  exact hu

theorem escape_number {n : Nat} {unit : List Char} (h : HexUnit n unit)
    (hn : n < 0xD800 ∨ 0xDFFF < n) (rest : List Char) :
    escape ('u' :: (unit ++ rest)) = .ok (Char.ofNat n, rest) := by
  have hlow : ¬(0xDC00 ≤ n ∧ n ≤ 0xDFFF) := by omega
  have hhigh : ¬(0xD800 ≤ n ∧ n ≤ 0xDBFF) := by omega
  simp only [escape, unicodeEscape, h.read, bind, Except.bind, if_neg hlow, if_neg hhigh]
  rfl

theorem escape_pair {high low : Nat} {unit unit' : List Char} (h : HexUnit high unit)
    (h' : HexUnit low unit') (hhigh : 0xD800 ≤ high ∧ high ≤ 0xDBFF)
    (hlow : 0xDC00 ≤ low ∧ low ≤ 0xDFFF) (rest : List Char) :
    escape ('u' :: (unit ++ '\\' :: 'u' :: (unit' ++ rest))) =
      .ok (Char.ofNat ((high - 0xD800) * 0x400 + (low - 0xDC00) + 0x10000), rest) := by
  have hnot : ¬(0xDC00 ≤ high ∧ high ≤ 0xDFFF) := by omega
  simp only [escape, unicodeEscape, lowSurrogate, h.read, h'.read, bind, Except.bind, if_neg hnot,
    if_pos hhigh, if_pos hlow]
  rfl

end Reader

/-- What is spelled is read, up to the closing quote. -/
theorem NameText.characters {cs text : List Char} (h : NameText cs text) {fuel : Nat}
    (hfuel : text.length < fuel) (rest : List Char) :
    Reader.characters fuel (text ++ '"' :: rest) = .ok (cs, rest) := by
  induction h generalizing fuel with
  | nil =>
    obtain ⟨fuel, rfl⟩ := Nat.exists_eq_add_one.mpr hfuel
    rfl
  | plain hquote hbackslash hplain _ ih =>
    obtain ⟨fuel, rfl⟩ := Nat.exists_eq_add_one.mpr (Nat.zero_lt_of_lt hfuel)
    have hrest := ih (Nat.lt_of_succ_lt_succ hfuel)
    simp only [List.cons_append, Reader.characters, if_neg hquote, if_neg hbackslash,
      if_neg (Nat.not_lt.mpr hplain), hrest, bind, Except.bind, pure, Except.pure]
  | @letter c meant cs text hmeant _ ih =>
    obtain ⟨fuel, rfl⟩ := Nat.exists_eq_add_one.mpr (Nat.zero_lt_of_lt hfuel)
    have hrest : Reader.characters fuel (text ++ '"' :: rest) = .ok (cs, rest) :=
      ih (by simp only [List.length_cons] at hfuel; omega)
    have hescape : Reader.escape ([c] ++ (text ++ '"' :: rest)) =
        .ok (meant, text ++ '"' :: rest) := Reader.escape_letter hmeant _
    show Reader.characters (fuel + 1) ('\\' :: ([c] ++ (text ++ '"' :: rest))) = _
    exact Reader.characters_escape hescape hrest
  | @number n cs unit text hunit hn _ ih =>
    obtain ⟨fuel, rfl⟩ := Nat.exists_eq_add_one.mpr (Nat.zero_lt_of_lt hfuel)
    have hrest : Reader.characters fuel (text ++ '"' :: rest) = .ok (cs, rest) :=
      ih (by simp only [List.length_cons, List.length_append] at hfuel; omega)
    have hescape : Reader.escape (('u' :: unit) ++ (text ++ '"' :: rest)) =
        .ok (Char.ofNat n, text ++ '"' :: rest) := Reader.escape_number hunit hn _
    simpa using Reader.characters_escape hescape hrest
  | @pair high low cs unit unit' text hunit hunit' hhigh hhigh' hlow hlow' _ ih =>
    obtain ⟨fuel, rfl⟩ := Nat.exists_eq_add_one.mpr (Nat.zero_lt_of_lt hfuel)
    have hrest : Reader.characters fuel (text ++ '"' :: rest) = .ok (cs, rest) :=
      ih (by simp only [List.length_cons, List.length_append] at hfuel; omega)
    have hescape :
        Reader.escape (('u' :: (unit ++ '\\' :: 'u' :: unit')) ++ (text ++ '"' :: rest)) =
          .ok (Char.ofNat ((high - 0xD800) * 0x400 + (low - 0xDC00) + 0x10000),
            text ++ '"' :: rest) := by
      simpa using Reader.escape_pair hunit hunit' ⟨hhigh, hhigh'⟩ ⟨hlow, hlow'⟩ _
    simpa using Reader.characters_escape hescape hrest

/-! ## Values -/

mutual

/-- A value, without blanks around it. -/
inductive ValueText : List Char → Prop where
  | null : ValueText "null".toList
  | bool (b : Bool) : ValueText (if b then "true" else "false").toList
  | string {text : List Char} : StringText text → ValueText ('"' :: (text ++ ['"']))
  | number {text : List Char} : Magnitude text → ValueText text
  | negative {text : List Char} : Magnitude text → ValueText ('-' :: text)
  | array {text : List Char} : ItemsText true text → ValueText ('[' :: text)
  | object {text : List Char} : MembersText true text → ValueText ('\x7b' :: text)

/-- The items of an array and its closing bracket; `first` before the first item. -/
inductive ItemsText : Bool → List Char → Prop where
  | close {first : Bool} {blanks : List Char} : Blank blanks → ItemsText first (blanks ++ [']'])
  | item {first : Bool} {lead text more : List Char} : Lead first lead → ValueText text →
      ItemsText false more → ItemsText first (lead ++ (text ++ more))

/-- The members of an object and its closing brace; `first` before the first member. -/
inductive MembersText : Bool → List Char → Prop where
  | close {first : Bool} {blanks : List Char} : Blank blanks →
      MembersText first (blanks ++ ['\x7d'])
  | member {first : Bool} {lead name before after text more : List Char} : Lead first lead →
      StringText name → Blank before → Blank after → ValueText text → MembersText false more →
      MembersText first
        (lead ++ '"' :: (name ++ '"' :: (before ++ ':' :: (after ++ (text ++ more)))))

end

theorem Magnitude.head {text : List Char} (h : Magnitude text) :
    ∃ c rest, text = c :: rest ∧ c.isDigit = true := by
  cases h with
  | parts hwhole _ _ =>
    obtain ⟨c, rest, rfl, hc⟩ := hwhole.1.head
    exact ⟨c, _, List.cons_append, hc⟩

theorem isBlank_of_isDigit {c : Char} (h : c.isDigit = true) : Reader.isBlank c = false := by
  rw [Bool.eq_false_iff]
  intro hblank
  have hstops : Stops [c] := stops_cons.mpr (.inl hblank)
  rw [hstops.noDigit c rfl] at h
  cases h

/-- A value starts with a character that is no blank and closes nothing. -/
theorem ValueText.head {text : List Char} (h : ValueText text) :
    ∃ c rest, text = c :: rest ∧ Reader.isBlank c = false ∧ c ≠ ']' := by
  have hdigit {text : List Char} (h : Magnitude text) :
      ∃ c rest, text = c :: rest ∧ Reader.isBlank c = false ∧ c ≠ ']' := by
    obtain ⟨c, rest, htext, hc⟩ := h.head
    exact ⟨c, rest, htext, isBlank_of_isDigit hc, ne_of_isDigit hc rfl⟩
  cases h with
  | null => exact ⟨'n', _, rfl, by decide, by decide⟩
  | bool b =>
    cases b with
    | false => exact ⟨'f', _, rfl, by decide, by decide⟩
    | true => exact ⟨'t', _, rfl, by decide, by decide⟩
  | string _ => exact ⟨'"', _, rfl, by decide, by decide⟩
  | number h => exact hdigit h
  | negative _ => exact ⟨'-', _, rfl, by decide, by decide⟩
  | array _ => exact ⟨'[', _, rfl, by decide, by decide⟩
  | object _ => exact ⟨'\x7b', _, rfl, by decide, by decide⟩

/-- Behind an item comes a comma or the closing bracket. -/
theorem Lead.stops {lead : List Char} (h : Lead false lead) (rest : List Char) :
    Stops (lead ++ rest) := by
  cases h with
  | comma hbefore _ =>
    rw [List.append_assoc]
    exact hbefore.stops_append (stops_cons.mpr (.inr (.inl rfl)))

theorem ItemsText.stops {text : List Char} (h : ItemsText false text) (rest : List Char) :
    Stops (text ++ rest) := by
  cases h with
  | close hblanks =>
    rw [List.append_assoc]
    exact hblanks.stops_append (stops_cons.mpr (by simp))
  | item hlead _ _ =>
    rw [List.append_assoc]
    exact hlead.stops _

theorem MembersText.stops {text : List Char} (h : MembersText false text) (rest : List Char) :
    Stops (text ++ rest) := by
  cases h with
  | close hblanks =>
    rw [List.append_assoc]
    exact hblanks.stops_append (stops_cons.mpr (by simp))
  | member hlead _ _ _ _ _ =>
    rw [List.append_assoc]
    exact hlead.stops _

theorem ItemsText.length_pos {first : Bool} {text : List Char} (h : ItemsText first text) :
    0 < text.length := by
  cases h with
  | close _ => simp
  | item _ hitem _ =>
    obtain ⟨c, rest, rfl, _⟩ := hitem.head
    simp only [List.length_append, List.length_cons]
    omega

theorem MembersText.length_pos {first : Bool} {text : List Char} (h : MembersText first text) :
    0 < text.length := by
  cases h with
  | close _ => simp
  | member _ _ _ _ _ _ =>
    simp only [List.length_append, List.length_cons]
    omega

/-! ## Skipping -/

namespace Skip

theorem value_blank {blanks : List Char} (h : Blank blanks) (fuel : Nat) (text : List Char) :
    value fuel (blanks ++ text) = value fuel text := by
  cases fuel with
  | zero => simp only [value]
  | succ fuel => simp only [value, h.skip]

theorem value_digit {c : Char} (h : c.isDigit = true) (fuel : Nat) (rest : List Char) :
    value (fuel + 1) (c :: rest) = number (c :: rest) := by
  rw [value, skipBlank_cons (isBlank_of_isDigit h)]
  split
  case h_9 heq =>
    obtain ⟨rfl, rfl⟩ := List.cons.inj heq
    rw [if_pos h]
  -- every other case is about a character that is no digit
  all_goals
    next heq => cases heq <;> cases h

theorem items_close {blanks : List Char} (h : Blank blanks) (fuel : Nat) (first : Bool)
    (rest : List Char) : items (fuel + 1) first (blanks ++ ']' :: rest) = .ok rest := by
  have hbracket : Reader.isBlank ']' = false := by decide
  simp only [items, h.skip, skipBlank_cons hbracket]

theorem fields_close {blanks : List Char} (h : Blank blanks) (fuel : Nat) (first : Bool)
    (rest : List Char) : fields (fuel + 1) first (blanks ++ '\x7d' :: rest) = .ok rest := by
  have hbrace : Reader.isBlank '\x7d' = false := by decide
  simp only [fields, h.skip, skipBlank_cons hbrace]

/-- One item, and then the others. -/
theorem items_item {fuel : Nat} {first : Bool} {lead text rest rest' : List Char} {c : Char}
    (hlead : Lead first lead) (hblank : Reader.isBlank c = false) (hc : c ≠ ']')
    (hitem : value fuel (c :: text) = .ok rest) (hmore : items fuel false rest = .ok rest') :
    items (fuel + 1) first (lead ++ c :: text) = .ok rest' := by
  obtain ⟨d, behind, hskip, hd, hstart⟩ := hlead.separated (by decide) hblank hc text
  rw [items]
  simp [hskip, hstart, hitem, hmore, bind, Except.bind]

/-- One field, and then the others. -/
theorem fields_member {fuel : Nat} {first : Bool} {lead name before text rest rest' : List Char}
    (hlead : Lead first lead) (hname : StringText name) (hbefore : Blank before)
    (hvalue : value fuel text = .ok rest) (hmore : fields fuel false rest = .ok rest') :
    fields (fuel + 1) first (lead ++ '"' :: (name ++ '"' :: (before ++ ':' :: text))) =
      .ok rest' := by
  obtain ⟨d, behind, hskip, hd, hstart⟩ :=
    hlead.separated (by decide : '\x7d' ≠ ',') (by decide : Reader.isBlank '"' = false) (by decide)
      (name ++ '"' :: (before ++ ':' :: text))
  have hstring : string ((name ++ '"' :: (before ++ ':' :: text)).length + 1)
      (name ++ '"' :: (before ++ ':' :: text)) = .ok (before ++ ':' :: text) :=
    hname.skip (by simp only [List.length_append]; omega) _
  have hcolon : Reader.colon (before ++ ':' :: text) = .ok text := by
    have hmark : Reader.isBlank ':' = false := by decide
    simp only [Reader.colon, hbefore.skip, skipBlank_cons hmark]
  rw [fields]
  simp [hskip, hstart, hstring, hcolon, hvalue, hmore, bind, Except.bind, -List.length_append,
    -List.length_cons]

end Skip

mutual

/-- **Skipping follows the grammar**: of a text that starts with a value, what comes after the value
is left. -/
theorem ValueText.skip {text : List Char} : ValueText text → ∀ {fuel : Nat}, text.length ≤ fuel →
    ∀ {rest : List Char}, Stops rest → Skip.value fuel (text ++ rest) = .ok rest
  | .null, fuel, hfuel, rest, _ => by
    obtain ⟨fuel, rfl⟩ := Nat.exists_eq_add_one.mpr (Nat.lt_of_lt_of_le (by decide) hfuel)
    exact Reader.literal_append "ull".toList rest
  | .bool b, fuel, hfuel, rest, _ => by
    cases b with
    | true =>
      obtain ⟨fuel, rfl⟩ := Nat.exists_eq_add_one.mpr (Nat.lt_of_lt_of_le (by decide) hfuel)
      exact Reader.literal_append "rue".toList rest
    | false =>
      obtain ⟨fuel, rfl⟩ := Nat.exists_eq_add_one.mpr (Nat.lt_of_lt_of_le (by decide) hfuel)
      exact Reader.literal_append "alse".toList rest
  | .string h, fuel, hfuel, rest, _ => by
    obtain ⟨fuel, rfl⟩ := Nat.exists_eq_add_one.mpr (Nat.lt_of_lt_of_le (Nat.succ_pos _) hfuel)
    rw [List.cons_append, List.append_assoc]
    exact h.skip (by simp only [List.length_append]; omega) rest
  | .number h, fuel, hfuel, rest, hrest => by
    obtain ⟨c, more, rfl, hc⟩ := h.head
    obtain ⟨fuel, rfl⟩ := Nat.exists_eq_add_one.mpr (Nat.lt_of_lt_of_le (Nat.succ_pos _) hfuel)
    rw [List.cons_append, Skip.value_digit hc]
    exact Skip.number_append h hrest
  | .negative h, fuel, hfuel, rest, hrest => by
    obtain ⟨fuel, rfl⟩ := Nat.exists_eq_add_one.mpr (Nat.lt_of_lt_of_le (Nat.succ_pos _) hfuel)
    exact Skip.number_append h hrest
  | .array h, fuel, hfuel, rest, _ => by
    obtain ⟨fuel, rfl⟩ := Nat.exists_eq_add_one.mpr (Nat.lt_of_lt_of_le (Nat.succ_pos _) hfuel)
    exact h.skip (Nat.le_of_succ_le_succ hfuel) rest
  | .object h, fuel, hfuel, rest, _ => by
    obtain ⟨fuel, rfl⟩ := Nat.exists_eq_add_one.mpr (Nat.lt_of_lt_of_le (Nat.succ_pos _) hfuel)
    exact h.skip (Nat.le_of_succ_le_succ hfuel) rest

/-- So it is with the items of an array. -/
theorem ItemsText.skip {first : Bool} {text : List Char} : ItemsText first text →
    ∀ {fuel : Nat}, text.length ≤ fuel → ∀ rest, Skip.items fuel first (text ++ rest) = .ok rest
  | .close hblanks, fuel, hfuel, rest => by
    rw [List.length_append] at hfuel
    obtain ⟨fuel, rfl⟩ := Nat.exists_eq_add_one.mpr (Nat.lt_of_lt_of_le (Nat.succ_pos _) hfuel)
    rw [List.append_assoc]
    exact Skip.items_close hblanks _ _ rest
  | @ItemsText.item _ lead text more hlead hitem hmore, fuel, hfuel, rest => by
    obtain ⟨c, behind, htext, hblank, hc⟩ := hitem.head
    have hpos : 0 < text.length := htext ▸ Nat.succ_pos _
    have hclosed : 0 < more.length := hmore.length_pos
    simp only [List.length_append] at hfuel
    obtain ⟨fuel, rfl⟩ := Nat.exists_eq_add_one.mpr (show 0 < fuel by omega)
    have hfirst := hitem.skip (show text.length ≤ fuel by omega) (hmore.stops rest)
    have hothers := hmore.skip (show more.length ≤ fuel by omega) rest
    rw [htext, List.cons_append] at hfirst
    rw [List.append_assoc, List.append_assoc, htext, List.cons_append]
    exact Skip.items_item hlead hblank hc hfirst hothers

/-- So it is with the members of an object. -/
theorem MembersText.skip {first : Bool} {text : List Char} : MembersText first text →
    ∀ {fuel : Nat}, text.length ≤ fuel → ∀ rest, Skip.fields fuel first (text ++ rest) = .ok rest
  | .close hblanks, fuel, hfuel, rest => by
    rw [List.length_append] at hfuel
    obtain ⟨fuel, rfl⟩ := Nat.exists_eq_add_one.mpr (Nat.lt_of_lt_of_le (Nat.succ_pos _) hfuel)
    rw [List.append_assoc]
    exact Skip.fields_close hblanks _ _ rest
  | @MembersText.member _ lead name before after text more hlead hname hbefore hafter hvalue hmore,
      fuel, hfuel, rest => by
    have hclosed : 0 < more.length := hmore.length_pos
    simp only [List.length_append, List.length_cons] at hfuel
    obtain ⟨fuel, rfl⟩ := Nat.exists_eq_add_one.mpr (show 0 < fuel by omega)
    have hfirst := hvalue.skip (show text.length ≤ fuel by omega) (hmore.stops rest)
    rw [← Skip.value_blank hafter] at hfirst
    have hothers := hmore.skip (show more.length ≤ fuel by omega) rest
    have hfields := Skip.fields_member hlead hname hbefore hfirst hothers
    simpa using hfields

end

/-- A value is skipped, whatever its depth. -/
theorem skip_append {blanks text rest : List Char} (hblanks : Blank blanks) (h : ValueText text)
    (hrest : Stops rest) : skip (blanks ++ (text ++ rest)) = .ok rest := by
  rw [skip, Skip.value_blank hblanks]
  exact h.skip (by simp only [List.length_append]; omega) hrest

end Json

end ForeignCall
