import ForeignCall.Json.Printer
import ForeignCall.Json.Reader
import ForeignCall.Proofs.KeyOrder

/-!
# ForeignCall.Proofs.JsonText

Texts of JSON values, and reading them.

`Spells levels json text` is the grammar of texts without numbers: `text` is a
value, with blanks between its tokens, strings as the printer writes them, and
at most `levels` containers open at once.  Of several fields with one key the
value has the last, and all in key order.

* `Spells.value` — reading follows the grammar and stops behind the value;
* `read_spells` — so a text that spells a value is read as that value;
* `Spells.not_mem` — such a text has no NUL in it;
* `meant_array`, `meant_object` — what the printer writes spells what it was given,
  but for the order of fields.
-/

namespace ForeignCall

namespace Json

/-! ## Characters and strings -/

/-- How a character is written: with a letter after a backslash, as a control character by its
number, or as itself. -/
theorem character_cases (c : Char) :
    (∃ letter, (Printer.character c).toList = ['\\', letter] ∧ letter ≠ 'u' ∧
      Reader.escaped? letter = some c) ∨
    (c.toNat < 0x20 ∧ (Printer.character c).toList =
      '\\' :: 'u' :: '0' :: '0' :: (Quoted.hexOctet c.toNat.toUInt8).toList) ∨
    (c ≠ '"' ∧ c ≠ '\\' ∧ 0x20 ≤ c.toNat ∧ (Printer.character c).toList = [c]) := by
  unfold Printer.character
  split
  · next h => exact .inl ⟨'"', rfl, by decide, by subst h; rfl⟩
  split
  · next h => exact .inl ⟨'\\', rfl, by decide, by subst h; rfl⟩
  split
  · next h => exact .inl ⟨'n', rfl, by decide, by subst h; rfl⟩
  split
  · next h => exact .inl ⟨'t', rfl, by decide, by subst h; rfl⟩
  split
  · next h => exact .inl ⟨'r', rfl, by decide, by subst h; rfl⟩
  split
  · next h => exact .inl ⟨'b', rfl, by decide, by subst h; rfl⟩
  split
  · next h => exact .inl ⟨'f', rfl, by decide, by subst h; rfl⟩
  split
  · next hcontrol => exact .inr (.inl ⟨hcontrol, by simp⟩)
  · next hquote hbackslash _ _ _ _ _ hplain =>
    exact .inr (.inr ⟨hquote, hbackslash, Nat.not_lt.mp hplain, by simp⟩)

namespace Reader

/-- The digits of an octet below U+0020 are read as that number. -/
theorem hexUnit_hexOctet {n : Nat} (h : n < 0x20) (rest : List Char) :
    hexUnit ('0' :: '0' :: ((Quoted.hexOctet n.toUInt8).toList ++ rest)) = .ok (n, rest) := by
  have hzero : hexValue? '0' = some 0 := by decide
  have hdigits : ∀ n < 0x20, hexValue? (Quoted.hexDigit (n.toUInt8.toNat / 16)) = some (n / 16) ∧
      hexValue? (Quoted.hexDigit n.toUInt8.toNat) = some (n % 16) := by decide
  obtain ⟨hhigh, hlow⟩ := hdigits n h
  have hn : ((0 * 16 + 0) * 16 + n / 16) * 16 + n % 16 = n := by omega
  simp only [Quoted.hexOctet, String.toList_ofList, List.cons_append, List.nil_append, hexUnit,
    hzero, hhigh, hlow, hn]

theorem unicodeEscape_control {c : Char} (h : c.toNat < 0x20) (rest : List Char) :
    unicodeEscape ('0' :: '0' :: ((Quoted.hexOctet c.toNat.toUInt8).toList ++ rest)) =
      .ok (c, rest) := by
  have hlow : ¬(0xDC00 ≤ c.toNat ∧ c.toNat ≤ 0xDFFF) := by omega
  have hhigh : ¬(0xD800 ≤ c.toNat ∧ c.toNat ≤ 0xDBFF) := by omega
  have hc : Char.ofNat c.toNat = c := Char.ofNat_toNat c
  simp only [unicodeEscape, hexUnit_hexOctet h, bind, Except.bind, if_neg hlow, if_neg hhigh, hc]
  rfl

/-- An escape that stands for a character is read as that character. -/
theorem characters_escape {c : Char} {fuel : Nat} {escaped cs rest rest' : List Char}
    (hescape : escape (escaped ++ rest) = .ok (c, rest))
    (h : characters fuel rest = .ok (cs, rest')) :
    characters (fuel + 1) ('\\' :: (escaped ++ rest)) = .ok (c :: cs, rest') := by
  simp [characters, hescape, h, bind, Except.bind, pure, Except.pure]

/-- A character, as the printer writes it, is read as itself. -/
theorem characters_character {c : Char} {fuel : Nat} {cs rest rest' : List Char}
    (h : characters fuel rest = .ok (cs, rest')) :
    characters (fuel + 1) ((Printer.character c).toList ++ rest) = .ok (c :: cs, rest') := by
  rcases character_cases c with ⟨letter, htext, hu, hmeant⟩ | ⟨hcontrol, htext⟩ |
    ⟨hquote, hbackslash, hplain, htext⟩
  · have hescape : escape ([letter] ++ rest) = .ok (c, rest) := by
      simp only [List.cons_append, List.nil_append]
      rw [escape, hmeant]
      exact hu
    rw [htext]
    exact characters_escape hescape h
  · have hescape :
        escape (('u' :: '0' :: '0' :: (Quoted.hexOctet c.toNat.toUInt8).toList) ++ rest) =
          .ok (c, rest) :=
      unicodeEscape_control hcontrol rest
    rw [htext]
    exact characters_escape hescape h
  · have hnot : ¬ c.toNat < 0x20 := Nat.not_lt.mpr hplain
    simp only [htext, List.cons_append, List.nil_append, characters, if_neg hquote,
      if_neg hbackslash, if_neg hnot, h, bind, Except.bind, pure, Except.pure]

theorem characters_quoted (cs rest : List Char) {fuel : Nat} (hfuel : cs.length < fuel) :
    characters fuel (cs.flatMap (fun c => (Printer.character c).toList) ++ '"' :: rest) =
      .ok (cs, rest) := by
  induction cs generalizing fuel with
  | nil =>
    obtain ⟨fuel, rfl⟩ := Nat.exists_eq_add_one.mpr hfuel
    simp [characters]
  | cons c cs ih =>
    obtain ⟨fuel, rfl⟩ := Nat.exists_eq_add_one.mpr (Nat.zero_lt_of_lt hfuel)
    have hrest := ih (Nat.lt_of_succ_lt_succ hfuel)
    rw [List.flatMap_cons, List.append_assoc]
    exact characters_character hrest

/-- Every character is written with at least one. -/
theorem length_le_quoted (cs : List Char) :
    cs.length ≤ (cs.flatMap fun c => (Printer.character c).toList).length := by
  induction cs with
  | nil => exact Nat.le_refl 0
  | cons c cs ih =>
    have hpos : 0 < (Printer.character c).toList.length := by
      rcases character_cases c with ⟨_, htext, _⟩ | ⟨_, htext⟩ | ⟨_, _, _, htext⟩ <;> simp [htext]
    simp only [List.length_cons, List.flatMap_cons, List.length_append]
    omega

end Reader

theorem toList_string (s : String) : (Printer.string s).toList =
    '"' :: (s.toList.flatMap (fun c => (Printer.character c).toList) ++ ['"']) := by
  simp [Printer.string, String.toList_join, List.flatMap_map]

/-- A string, as the printer writes it, is read as itself. -/
theorem Reader.string_quoted (s : String) (rest : List Char) :
    Reader.string (s.toList.flatMap (fun c => (Printer.character c).toList) ++ '"' :: rest) =
      .ok (s, rest) := by
  have hlength := Reader.length_le_quoted s.toList
  have hfuel : s.toList.length < (s.toList.flatMap (fun c => (Printer.character c).toList) ++
      '"' :: rest).length + 1 := by
    rw [List.length_append]
    omega
  simp only [Reader.string, Reader.characters_quoted s.toList rest hfuel, bind, Except.bind, pure,
    Except.pure, String.ofList_toList]

/-! ## Blanks -/

/-- Blanks and nothing else. -/
def Blank (text : List Char) : Prop :=
  ∀ c ∈ text, Reader.isBlank c = true

theorem blank_nil : Blank [] := fun _ h => absurd h List.not_mem_nil

theorem Blank.skip {blanks : List Char} (h : Blank blanks) (text : List Char) :
    Reader.skipBlank (blanks ++ text) = Reader.skipBlank text :=
  List.dropWhile_append_of_pos h

theorem skipBlank_cons {c : Char} (h : Reader.isBlank c = false) (rest : List Char) :
    Reader.skipBlank (c :: rest) = c :: rest :=
  List.dropWhile_cons_of_neg (by simp [h])

/-- What stands before an item: blanks, and a comma among them if the item is not the first. -/
inductive Lead : Bool → List Char → Prop where
  | first {blanks : List Char} : Blank blanks → Lead true blanks
  | comma {before after : List Char} : Blank before → Blank after →
      Lead false (before ++ ',' :: after)

/-- Behind its lead an item starts. -/
theorem Lead.separated {first : Bool} {lead : List Char} (h : Lead first lead) {bracket c : Char}
    (hbracket : bracket ≠ ',') (hblank : Reader.isBlank c = false) (hc : c ≠ bracket)
    (text : List Char) : ∃ d rest, Reader.skipBlank (lead ++ c :: text) = d :: rest ∧ d ≠ bracket ∧
      Reader.separated first bracket d rest = .ok (c :: text) := by
  cases h with
  | first hblanks =>
    refine ⟨c, text, ?_, hc, rfl⟩
    rw [hblanks.skip, skipBlank_cons hblank]
  | @comma before after hbefore hafter =>
    have hcomma : Reader.isBlank ',' = false := by decide
    have hitem : Reader.skipBlank (after ++ c :: text) = c :: text := by
      rw [hafter.skip, skipBlank_cons hblank]
    refine ⟨',', after ++ c :: text, ?_, hbracket.symm, ?_⟩
    · rw [List.append_assoc, hbefore.skip, List.cons_append, skipBlank_cons hcomma]
    · simp [Reader.separated, hitem, hc]

/-! ## The grammar -/

mutual

/-- A text is a value in which at most `levels` containers are open at once. -/
inductive Spells : Nat → Json → List Char → Prop where
  | null {levels : Nat} : Spells levels .null "null".toList
  | bool {levels : Nat} (b : Bool) :
      Spells levels (.bool b) (if b then "true" else "false").toList
  | string {levels : Nat} (s : String) : Spells levels (.string s) (Printer.string s).toList
  | array {levels : Nat} {items : List Json} {text : List Char} :
      SpellsItems levels true items text → Spells (levels + 1) (.array items) ('[' :: text)
  | object {levels : Nat} {fields : List (String × Json)} {text : List Char} :
      SpellsFields levels true fields text →
      Spells (levels + 1) (.object (Entries.ofList fields)) ('\x7b' :: text)

/-- A text is the items of an array and its closing bracket; `first` before the first item. -/
inductive SpellsItems : Nat → Bool → List Json → List Char → Prop where
  | close {levels : Nat} {first : Bool} {blanks : List Char} : Blank blanks →
      SpellsItems levels first [] (blanks ++ [']'])
  | item {levels : Nat} {first : Bool} {lead text more : List Char} {item : Json}
      {rest : List Json} : Lead first lead → Spells levels item text →
      SpellsItems levels false rest more →
      SpellsItems levels first (item :: rest) (lead ++ (text ++ more))

/-- A text is the fields of an object and its closing brace. -/
inductive SpellsFields : Nat → Bool → List (String × Json) → List Char → Prop where
  | close {levels : Nat} {first : Bool} {blanks : List Char} : Blank blanks →
      SpellsFields levels first [] (blanks ++ ['\x7d'])
  | field {levels : Nat} {first : Bool} {lead blanks text more : List Char} (key : String)
      {item : Json} {rest : List (String × Json)} : Lead first lead → Blank blanks →
      Spells levels item text → SpellsFields levels false rest more →
      SpellsFields levels first ((key, item) :: rest)
        (lead ++ ((Printer.string key).toList ++ ':' :: (blanks ++ (text ++ more))))

end

/-- A value starts with a character that is no blank and closes nothing. -/
theorem Spells.head {levels : Nat} {json : Json} {text : List Char} (h : Spells levels json text) :
    ∃ c rest, text = c :: rest ∧ Reader.isBlank c = false ∧ c ≠ ']' := by
  cases h with
  | null => exact ⟨'n', _, rfl, by decide, by decide⟩
  | bool b =>
    cases b with
    | false => exact ⟨'f', _, rfl, by decide, by decide⟩
    | true => exact ⟨'t', _, rfl, by decide, by decide⟩
  | string s => exact ⟨'"', _, toList_string s, by decide, by decide⟩
  | array _ => exact ⟨'[', _, rfl, by decide, by decide⟩
  | object _ => exact ⟨'\x7b', _, rfl, by decide, by decide⟩

theorem SpellsItems.length_pos {levels : Nat} {first : Bool} {items : List Json} {text : List Char}
    (h : SpellsItems levels first items text) : 0 < text.length := by
  cases h with
  | close _ => simp
  | item _ hitem _ =>
    obtain ⟨c, rest, rfl, _⟩ := hitem.head
    simp only [List.length_append, List.length_cons]
    omega

theorem SpellsFields.length_pos {levels : Nat} {first : Bool} {fields : List (String × Json)}
    {text : List Char} (h : SpellsFields levels first fields text) : 0 < text.length := by
  cases h with
  | close _ => simp
  | field _ _ _ _ _ =>
    simp only [List.length_append, List.length_cons]
    omega

/-! ## Reading -/

namespace Reader

theorem value_skip {blanks : List Char} (h : Blank blanks) (fuel levels : Nat) (text : List Char) :
    value fuel levels (blanks ++ text) = value fuel levels text := by
  cases fuel with
  | zero => simp only [value]
  | succ fuel => simp only [value, h.skip]

theorem items_close {blanks : List Char} (h : Blank blanks) (fuel levels : Nat) (first : Bool)
    (rest : List Char) :
    items (fuel + 1) levels first (blanks ++ ']' :: rest) = .ok ([], rest) := by
  have hbracket : isBlank ']' = false := by decide
  simp only [items, h.skip, skipBlank_cons hbracket]

theorem fields_close {blanks : List Char} (h : Blank blanks) (fuel levels : Nat) (first : Bool)
    (rest : List Char) :
    fields (fuel + 1) levels first (blanks ++ '\x7d' :: rest) = .ok ([], rest) := by
  have hbrace : isBlank '\x7d' = false := by decide
  simp only [fields, h.skip, skipBlank_cons hbrace]

/-- One item, and then the others. -/
theorem items_item {fuel levels : Nat} {first : Bool} {lead text rest rest' : List Char} {c : Char}
    {item : Json} {more : List Json} (hlead : Lead first lead) (hblank : isBlank c = false)
    (hc : c ≠ ']') (hitem : value fuel levels (c :: text) = .ok (item, rest))
    (hmore : items fuel levels false rest = .ok (more, rest')) :
    items (fuel + 1) levels first (lead ++ c :: text) = .ok (item :: more, rest') := by
  obtain ⟨d, behind, hskip, hd, hstart⟩ := hlead.separated (by decide) hblank hc text
  rw [items]
  simp [hskip, hstart, hitem, hmore, bind, Except.bind, pure, Except.pure]

/-- One field, and then the others. -/
theorem fields_field {fuel levels : Nat} {first : Bool} {lead blanks text rest rest' : List Char}
    {item : Json} {more : List (String × Json)} (key : String) (hlead : Lead first lead)
    (hblanks : Blank blanks) (hitem : value fuel levels text = .ok (item, rest))
    (hmore : fields fuel levels false rest = .ok (more, rest')) :
    fields (fuel + 1) levels first
        (lead ++ ((Printer.string key).toList ++ ':' :: (blanks ++ text))) =
      .ok ((key, item) :: more, rest') := by
  let quoted := key.toList.flatMap fun c => (Printer.character c).toList
  have htext : (Printer.string key).toList ++ ':' :: (blanks ++ text) =
      '"' :: (quoted ++ '"' :: ':' :: (blanks ++ text)) := by
    simp [toList_string, quoted]
  obtain ⟨d, behind, hskip, hd, hstart⟩ :=
    hlead.separated (by decide : '\x7d' ≠ ',') (by decide : isBlank '"' = false) (by decide)
      (quoted ++ '"' :: ':' :: (blanks ++ text))
  have hkey : fieldKey ('"' :: (quoted ++ '"' :: ':' :: (blanks ++ text))) =
      .ok (key, ':' :: (blanks ++ text)) := string_quoted key _
  have hcolon : colon (':' :: (blanks ++ text)) = .ok (blanks ++ text) := by
    have hmark : isBlank ':' = false := by decide
    simp only [colon, skipBlank_cons hmark]
  have hvalue : value fuel levels (blanks ++ text) = .ok (item, rest) := by
    rw [value_skip hblanks, hitem]
  rw [htext, fields]
  simp [hskip, hstart, hkey, hcolon, hvalue, hmore, bind, Except.bind, pure, Except.pure]

/-- A word is read as itself. -/
theorem literal_append (word rest : List Char) : literal word (word ++ rest) = .ok rest := by
  induction word with
  | nil => rfl
  | cons c word ih => rw [List.cons_append, literal, if_pos rfl, ih]

end Reader

mutual

/-- **Reading follows the grammar**: of a text that spells a value, and whatever follows it, the
value is read and the rest is left. -/
theorem Spells.value {levels : Nat} {json : Json} {text : List Char} :
    Spells levels json text → ∀ {fuel : Nat}, text.length ≤ fuel → ∀ rest,
      Reader.value fuel levels (text ++ rest) = .ok (json, rest)
  | .null, fuel, hfuel, rest => by
    obtain ⟨fuel, rfl⟩ := Nat.exists_eq_add_one.mpr (Nat.lt_of_lt_of_le (by decide) hfuel)
    have htext : "null".toList ++ rest = 'n' :: ("ull".toList ++ rest) := rfl
    have hblank : Reader.isBlank 'n' = false := by decide
    simp only [htext, Reader.value, skipBlank_cons hblank, Reader.literal_append]
    rfl
  | .bool b, fuel, hfuel, rest => by
    cases b with
    | true =>
      obtain ⟨fuel, rfl⟩ := Nat.exists_eq_add_one.mpr (Nat.lt_of_lt_of_le (by decide) hfuel)
      have htext : "true".toList ++ rest = 't' :: ("rue".toList ++ rest) := rfl
      have hblank : Reader.isBlank 't' = false := by decide
      simp only [if_true, htext, Reader.value, skipBlank_cons hblank, Reader.literal_append]
      rfl
    | false =>
      obtain ⟨fuel, rfl⟩ := Nat.exists_eq_add_one.mpr (Nat.lt_of_lt_of_le (by decide) hfuel)
      have htext : "false".toList ++ rest = 'f' :: ("alse".toList ++ rest) := rfl
      have hblank : Reader.isBlank 'f' = false := by decide
      simp only [reduceCtorEq, if_false, htext, Reader.value, skipBlank_cons hblank,
        Reader.literal_append]
      rfl
  | .string s, fuel, hfuel, rest => by
    rw [toList_string] at hfuel ⊢
    obtain ⟨fuel, rfl⟩ := Nat.exists_eq_add_one.mpr (Nat.lt_of_lt_of_le (Nat.succ_pos _) hfuel)
    have hblank : Reader.isBlank '"' = false := by decide
    simp only [List.cons_append, List.append_assoc, List.nil_append, Reader.value,
      skipBlank_cons hblank, Reader.string_quoted]
    rfl
  | .array h, fuel, hfuel, rest => by
    obtain ⟨fuel, rfl⟩ := Nat.exists_eq_add_one.mpr (Nat.lt_of_lt_of_le (Nat.succ_pos _) hfuel)
    have hitems := h.items (Nat.le_of_succ_le_succ hfuel) rest
    have hblank : Reader.isBlank '[' = false := by decide
    simp only [List.cons_append, Reader.value, skipBlank_cons hblank, hitems]
    rfl
  | .object h, fuel, hfuel, rest => by
    obtain ⟨fuel, rfl⟩ := Nat.exists_eq_add_one.mpr (Nat.lt_of_lt_of_le (Nat.succ_pos _) hfuel)
    have hfields := h.fields (Nat.le_of_succ_le_succ hfuel) rest
    have hblank : Reader.isBlank '\x7b' = false := by decide
    simp only [List.cons_append, Reader.value, skipBlank_cons hblank, hfields]
    rfl

/-- So it is with the items of an array. -/
theorem SpellsItems.items {levels : Nat} {first : Bool} {items : List Json} {text : List Char} :
    SpellsItems levels first items text → ∀ {fuel : Nat}, text.length ≤ fuel → ∀ rest,
      Reader.items fuel levels first (text ++ rest) = .ok (items, rest)
  | .close hblanks, fuel, hfuel, rest => by
    rw [List.length_append] at hfuel
    obtain ⟨fuel, rfl⟩ := Nat.exists_eq_add_one.mpr (Nat.lt_of_lt_of_le (Nat.succ_pos _) hfuel)
    rw [List.append_assoc]
    exact Reader.items_close hblanks _ _ _ rest
  | @SpellsItems.item _ _ lead text more _ _ hlead hitem hmore, fuel, hfuel, rest => by
    obtain ⟨c, behind, htext, hblank, hc⟩ := hitem.head
    have hpos : 0 < text.length := htext ▸ Nat.succ_pos _
    have hclosed : 0 < more.length := hmore.length_pos
    simp only [List.length_append] at hfuel
    obtain ⟨fuel, rfl⟩ := Nat.exists_eq_add_one.mpr (show 0 < fuel by omega)
    have hfirst := hitem.value (show text.length ≤ fuel by omega) (more ++ rest)
    have hothers := hmore.items (show more.length ≤ fuel by omega) rest
    rw [htext, List.cons_append] at hfirst
    rw [List.append_assoc, List.append_assoc, htext, List.cons_append]
    exact Reader.items_item hlead hblank hc hfirst hothers

/-- So it is with the fields of an object. -/
theorem SpellsFields.fields {levels : Nat} {first : Bool} {fields : List (String × Json)}
    {text : List Char} :
    SpellsFields levels first fields text → ∀ {fuel : Nat}, text.length ≤ fuel → ∀ rest,
      Reader.fields fuel levels first (text ++ rest) = .ok (fields, rest)
  | .close hblanks, fuel, hfuel, rest => by
    rw [List.length_append] at hfuel
    obtain ⟨fuel, rfl⟩ := Nat.exists_eq_add_one.mpr (Nat.lt_of_lt_of_le (Nat.succ_pos _) hfuel)
    rw [List.append_assoc]
    exact Reader.fields_close hblanks _ _ _ rest
  | @SpellsFields.field _ _ lead blanks text more key _ _ hlead hblanks hitem hmore, fuel, hfuel,
      rest => by
    have hclosed : 0 < more.length := hmore.length_pos
    simp only [List.length_append, List.length_cons] at hfuel
    obtain ⟨fuel, rfl⟩ := Nat.exists_eq_add_one.mpr (show 0 < fuel by omega)
    have hfirst := hitem.value (show text.length ≤ fuel by omega) (more ++ rest)
    have hothers := hmore.fields (show more.length ≤ fuel by omega) rest
    have htext :
        lead ++ ((Printer.string key).toList ++ ':' :: (blanks ++ (text ++ more))) ++ rest =
          lead ++ ((Printer.string key).toList ++ ':' :: (blanks ++ (text ++ (more ++ rest)))) := by
      simp
    rw [htext]
    exact Reader.fields_field key hlead hblanks hfirst hothers

end

/-- A text that spells a value is read as that value. -/
theorem read_spells {j : Canonical} {text : String} (h : Spells maxNesting j text.toList) :
    read text = .ok j := by
  have hfuel : text.toList.length ≤ 2 * text.toList.length + 2 := by omega
  have hvalue := h.value hfuel []
  rw [List.append_nil] at hvalue
  exact read_of_value hvalue rfl

/-! ## No NUL -/

theorem not_mem_character (c : Char) : '\x00' ∉ (Printer.character c).toList := by
  rcases character_cases c with
    ⟨letter, htext, -, hmeant⟩ | ⟨hcontrol, htext⟩ | ⟨-, -, hplain, htext⟩
  · have hletter : '\x00' ≠ letter := by
      rintro rfl
      cases hmeant
    simp [htext, hletter]
  · have hdigits : ∀ n < 0x20, '\x00' ∉ (Quoted.hexOctet n.toUInt8).toList := by decide
    simp [htext, hdigits c.toNat hcontrol]
  · have hc : '\x00' ≠ c := by
      rintro rfl
      exact absurd hplain (by decide)
    simp [htext, hc]

theorem not_mem_string (s : String) : '\x00' ∉ (Printer.string s).toList := by
  simp [toList_string, not_mem_character]

theorem Blank.not_mem {blanks : List Char} (h : Blank blanks) : '\x00' ∉ blanks :=
  fun hnul => absurd (h _ hnul) (by decide)

theorem Lead.not_mem {first : Bool} {lead : List Char} (h : Lead first lead) : '\x00' ∉ lead := by
  cases h with
  | first hblanks => exact hblanks.not_mem
  | comma hbefore hafter => simp [hbefore.not_mem, hafter.not_mem]

mutual

/-- A text that spells a value has no NUL in it. -/
theorem Spells.not_mem {levels : Nat} {json : Json} {text : List Char} :
    Spells levels json text → '\x00' ∉ text
  | .null => by decide
  | .bool b => by cases b <;> decide
  | .string s => not_mem_string s
  | .array h => by simp [h.not_mem]
  | .object h => by simp [h.not_mem]

theorem SpellsItems.not_mem {levels : Nat} {first : Bool} {items : List Json} {text : List Char} :
    SpellsItems levels first items text → '\x00' ∉ text
  | .close hblanks => by simp [hblanks.not_mem]
  | .item hlead hitem hmore => by simp [hlead.not_mem, hitem.not_mem, hmore.not_mem]

theorem SpellsFields.not_mem {levels : Nat} {first : Bool} {fields : List (String × Json)}
    {text : List Char} : SpellsFields levels first fields text → '\x00' ∉ text
  | .close hblanks => by simp [hblanks.not_mem]
  | .field key hlead hblanks hitem hmore => by
    simp [hlead.not_mem, not_mem_string key, hblanks.not_mem, hitem.not_mem, hmore.not_mem]

end

/-! ## What the printer writes -/

/-- Texts between separators: the first, and each other one behind a separator. -/
theorem toList_intercalate (separator text : String) (texts : List String) :
    (separator.intercalate (text :: texts)).toList =
      text.toList ++ texts.flatMap fun t => separator.toList ++ t.toList := by
  induction texts generalizing text with
  | nil => simp
  | cons next texts ih =>
    rw [String.intercalate_cons_cons, String.toList_append, ih]
    simp

/-- What is written for a value spells another. -/
def Meant (levels : Nat) (written meant : Json) : Prop :=
  Spells levels meant (Printer.compact written).toList

variable {levels : Nat}

/-- What is written for items spells what each of them spells. -/
theorem spells_items {written meant : List Json} (h : List.Forall₂ (Meant levels) written meant) :
    SpellsItems levels true meant
      ((",".intercalate (Printer.compactItems written)).toList ++ [']']) := by
  have hothers {written meant : List Json} (h : List.Forall₂ (Meant levels) written meant) :
      SpellsItems levels false meant
        ((Printer.compactItems written).flatMap (fun t => ',' :: t.toList) ++ [']']) := by
    induction h with
    | nil => exact .close blank_nil
    | cons hfirst _ ih =>
      have hitem := SpellsItems.item (.comma blank_nil blank_nil) hfirst ih
      simpa [Printer.compactItems] using hitem
  cases h with
  | nil => exact .close blank_nil
  | cons hfirst hrest =>
    have hitem := SpellsItems.item (.first blank_nil) hfirst (hothers hrest)
    rw [Printer.compactItems, toList_intercalate]
    simpa using hitem

/-- What is written for fields spells what each of them spells. -/
theorem spells_fields {written meant : List (String × Json)}
    (h : Entries.Alike (Meant levels) written meant) :
    SpellsFields levels true meant
      ((",".intercalate (Printer.compactFields written)).toList ++ ['\x7d']) := by
  have hothers {written meant : List (String × Json)}
      (h : Entries.Alike (Meant levels) written meant) :
      SpellsFields levels false meant
        ((Printer.compactFields written).flatMap (fun t => ',' :: t.toList) ++ ['\x7d']) := by
    induction h with
    | nil => exact .close blank_nil
    | @cons p q _ _ hfirst _ ih =>
      obtain ⟨key, item⟩ := p
      obtain ⟨_, item'⟩ := q
      obtain ⟨rfl, hitem⟩ := hfirst
      have hfield := SpellsFields.field key (.comma blank_nil blank_nil) blank_nil hitem ih
      simpa [Printer.compactFields] using hfield
  cases h with
  | nil => exact .close blank_nil
  | @cons p q _ _ hfirst hrest =>
    obtain ⟨key, item⟩ := p
    obtain ⟨_, item'⟩ := q
    obtain ⟨rfl, hitem⟩ := hfirst
    have hfield := SpellsFields.field key (.first blank_nil) blank_nil hitem (hothers hrest)
    rw [Printer.compactFields, toList_intercalate]
    simpa using hfield

theorem meant_string (s : String) : Meant levels (.string s) (.string s) := .string s

theorem meant_array {written meant : List Json} (h : List.Forall₂ (Meant levels) written meant) :
    Meant (levels + 1) (.array written) (.array meant) := by
  have harray := Spells.array (spells_items h)
  simpa [Meant, Printer.compact] using harray

/-- An object is read with its fields in key order. -/
theorem meant_object {written meant : List (String × Json)}
    (h : Entries.Alike (Meant levels) written meant) :
    Meant (levels + 1) (.object written) (.object (Entries.ofList meant)) := by
  have hobject := Spells.object (spells_fields h)
  simpa [Meant, Printer.compact] using hobject

/-- **Reading back** the text of a value gives what it means. -/
theorem read_compact {written : Json} {meant : Canonical} (h : Meant maxNesting written meant) :
    read written.compact = .ok meant :=
  read_spells h

end Json

end ForeignCall
