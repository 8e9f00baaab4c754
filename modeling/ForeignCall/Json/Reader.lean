import ForeignCall.Json.Numeral

/-!
# ForeignCall.Json.Reader

Reading JSON text.

The reader works from left to right and stops at the first fault, so which of
two faults is reported is part of its contract.  At most 127 containers may be
open at once.  Of several fields with one key the last counts.
-/

namespace ForeignCall

namespace Json

/-- Containers that may be open at once. -/
def maxNesting : Nat := 127

namespace Reader

/-! ## Blanks and literals -/

/-- Space, line feed, tab and carriage return. -/
def isBlank (c : Char) : Bool :=
  c = ' ' || c = '\n' || c = '\t' || c = '\r'

/-- The text after leading blanks. -/
def skipBlank (text : List Char) : List Char :=
  text.dropWhile isBlank

/-- The rest of a literal whose first letter has been read. -/
def literal : List Char → List Char → Except Fault (List Char)
  | [], text => .ok text
  | _ :: _, [] => .error .endOfText
  | expected :: more, c :: rest => if c = expected then literal more rest else .error .malformed

/-! ## Strings -/

/-- The value of a hexadecimal digit. -/
def hexValue? (c : Char) : Option Nat :=
  if '0' ≤ c ∧ c ≤ '9' then some (c.toNat - '0'.toNat)
  else if 'a' ≤ c ∧ c ≤ 'f' then some (c.toNat - 'a'.toNat + 10)
  else if 'A' ≤ c ∧ c ≤ 'F' then some (c.toNat - 'A'.toNat + 10)
  else none

/-- Four hexadecimal digits.  The text is over if fewer than four octets are left; otherwise the
next four characters must be digits. -/
def hexUnit (text : List Char) : Except Fault (Nat × List Char) :=
  match text with
  | a :: b :: c :: d :: rest =>
    match hexValue? a, hexValue? b, hexValue? c, hexValue? d with
    | some a, some b, some c, some d => .ok (((a * 16 + b) * 16 + c) * 16 + d, rest)
    | _, _, _, _ => .error .malformed
  | short =>
    if (short.map Char.utf8Size).foldr (· + ·) 0 < 4 then .error .endOfText else .error .malformed

/-- What a letter after a backslash stands for, `u` apart. -/
def escaped? : Char → Option Char
  | '"' => some '"'
  | '\\' => some '\\'
  | '/' => some '/'
  | 'b' => some '\x08'
  | 'f' => some '\x0c'
  | 'n' => some '\n'
  | 'r' => some '\r'
  | 't' => some '\t'
  | _ => none

/-- The second half of a surrogate pair, whose first half was `high`. -/
def lowSurrogate (high : Nat) (text : List Char) : Except Fault (Char × List Char) :=
  match text with
  | [] => .error .endOfText
  | '\\' :: [] => .error .endOfText
  | '\\' :: 'u' :: rest => do
    let (low, rest) ← hexUnit rest
    if 0xDC00 ≤ low ∧ low ≤ 0xDFFF then
      return (Char.ofNat ((high - 0xD800) * 0x400 + (low - 0xDC00) + 0x10000), rest)
    throw .malformed
  | _ => .error .malformed

/-- A character written by its number, after `\u`. -/
def unicodeEscape (text : List Char) : Except Fault (Char × List Char) := do
  let (unit, rest) ← hexUnit text
  if 0xDC00 ≤ unit ∧ unit ≤ 0xDFFF then throw .malformed
  if 0xD800 ≤ unit ∧ unit ≤ 0xDBFF then lowSurrogate unit rest
  else return (Char.ofNat unit, rest)

/-- An escape, after its backslash. -/
def escape (text : List Char) : Except Fault (Char × List Char) :=
  match text with
  | [] => .error .endOfText
  | 'u' :: rest => unicodeEscape rest
  | c :: rest => match escaped? c with
    | some meant => .ok (meant, rest)
    | none => .error .malformed

/-- The characters of a string, after its opening quote.  `fuel` bounds their number. -/
def characters : Nat → List Char → Except Fault (List Char × List Char)
  | 0, _ => .error .endOfText
  | _ + 1, [] => .error .endOfText
  | fuel + 1, c :: rest =>
    if c = '"' then .ok ([], rest)
    else if c = '\\' then do
      let (meant, rest) ← escape rest
      let (more, rest) ← characters fuel rest
      return (meant :: more, rest)
    else if c.toNat < 0x20 then .error .malformed
    else do
      let (more, rest) ← characters fuel rest
      return (c :: more, rest)

/-- A string, after its opening quote. -/
def string (text : List Char) : Except Fault (String × List Char) := do
  let (cs, rest) ← characters (text.length + 1) text
  return (String.ofList cs, rest)

/-! ## Values -/

/-- The text after the colon between a key and its value. -/
def colon (text : List Char) : Except Fault (List Char) :=
  match skipBlank text with
  | [] => .error .endOfText
  | ':' :: rest => .ok rest
  | _ => .error .malformed

/-- Where the next item of a container starts, given its next character that is no blank and no
closing `bracket`: at that character if the item is the first, after a comma otherwise. -/
def separated (first : Bool) (bracket c : Char) (rest : List Char) : Except Fault (List Char) :=
  if first then .ok (c :: rest)
  else if c = ',' then
    match skipBlank rest with
    | [] => .error .endOfText
    | c :: rest => if c = bracket then .error .malformed else .ok (c :: rest)
  else .error .malformed

/-- The key of a field. -/
def fieldKey (text : List Char) : Except Fault (String × List Char) :=
  match text with
  | '"' :: rest => string rest
  | _ => .error .malformed

mutual

/-- A value.  `levels` more containers may be opened.  Every call takes one unit of `fuel`, and of
two nested calls at least one reads a character. -/
def value : Nat → Nat → List Char → Except Fault (Json × List Char)
  | 0, _, _ => .error .endOfText
  | fuel + 1, levels, text =>
    match skipBlank text with
    | [] => .error .endOfText
    | 'n' :: rest => do return (.null, ← literal "ull".toList rest)
    | 't' :: rest => do return (.bool true, ← literal "rue".toList rest)
    | 'f' :: rest => do return (.bool false, ← literal "alse".toList rest)
    | '"' :: rest => do
      let (s, rest) ← string rest
      return (.string s, rest)
    | '[' :: rest => match levels with
      | 0 => .error .malformed
      | levels + 1 => do
        let (items, rest) ← items fuel levels true rest
        return (.array items, rest)
    | '{' :: rest => match levels with
      | 0 => .error .malformed
      | levels + 1 => do
        let (fields, rest) ← fields fuel levels true rest
        return (.object (Entries.ofList fields), rest)
    | '-' :: rest => do
      let (n, rest) ← Numeral.read true rest
      return (.number n, rest)
    | c :: rest =>
      if c.isDigit then do
        let (n, rest) ← Numeral.read false (c :: rest)
        return (.number n, rest)
      else .error .malformed

/-- The items of an array, up to its closing bracket; `first` before the first one. -/
def items : Nat → Nat → Bool → List Char → Except Fault (List Json × List Char)
  | 0, _, _, _ => .error .endOfText
  | fuel + 1, levels, first, text =>
    match skipBlank text with
    | [] => .error .endOfText
    | ']' :: rest => .ok ([], rest)
    | c :: rest => do
      let start ← separated first ']' c rest
      let (item, rest) ← value fuel levels start
      let (more, rest) ← items fuel levels false rest
      return (item :: more, rest)

/-- The fields of an object, up to its closing brace, in the order written. -/
def fields : Nat → Nat → Bool → List Char → Except Fault (List (String × Json) × List Char)
  | 0, _, _, _ => .error .endOfText
  | fuel + 1, levels, first, text =>
    match skipBlank text with
    | [] => .error .endOfText
    | '}' :: rest => .ok ([], rest)
    | c :: rest => do
      let start ← separated first '}' c rest
      let (key, rest) ← fieldKey start
      let rest ← colon rest
      let (item, rest) ← value fuel levels rest
      let (more, rest) ← fields fuel levels false rest
      return ((key, item) :: more, rest)

end

/-! ## Key order -/

/-- What is read in steps has been read in the first of them. -/
theorem bind_eq_ok {α β : Type} {x : Except Fault α} {f : α → Except Fault β} {b : β}
    (h : (x >>= f) = .ok b) : ∃ a, x = .ok a ∧ f a = .ok b := by
  cases x with
  | error e => cases h
  | ok a => exact ⟨a, rfl, h⟩

mutual

/-- What is read is in key order. -/
theorem ordered_value : ∀ {fuel levels : Nat} {text rest : List Char} {j : Json},
    value fuel levels text = .ok (j, rest) → j.Ordered
  | 0, _, _, _, _, h => by
    rw [value] at h
    cases h
  | fuel + 1, levels, text, rest, j, h => by
    rw [value] at h
    split at h
    · cases h
    · obtain ⟨_, -, h⟩ := bind_eq_ok h
      cases h
      trivial
    · obtain ⟨_, -, h⟩ := bind_eq_ok h
      cases h
      trivial
    · obtain ⟨_, -, h⟩ := bind_eq_ok h
      cases h
      trivial
    · obtain ⟨_, -, h⟩ := bind_eq_ok h
      cases h
      trivial
    · split at h
      · cases h
      · obtain ⟨⟨items, more⟩, hitems, h⟩ := bind_eq_ok h
        cases h
        exact ordered_items hitems
    · split at h
      · cases h
      · obtain ⟨⟨fields, more⟩, hfields, h⟩ := bind_eq_ok h
        cases h
        exact ordered_ofList (ordered_fields hfields)
    · obtain ⟨_, -, h⟩ := bind_eq_ok h
      cases h
      trivial
    · split at h
      · obtain ⟨_, -, h⟩ := bind_eq_ok h
        cases h
        trivial
      · cases h

theorem ordered_items : ∀ {fuel levels : Nat} {first : Bool} {text rest : List Char}
    {items : List Json}, Reader.items fuel levels first text = .ok (items, rest) →
    OrderedItems items
  | 0, _, _, _, _, _, h => by
    rw [Reader.items] at h
    cases h
  | fuel + 1, levels, first, text, rest, items, h => by
    rw [Reader.items] at h
    split at h
    · cases h
    · cases h
      trivial
    · obtain ⟨start, -, h⟩ := bind_eq_ok h
      obtain ⟨⟨item, more⟩, hitem, h⟩ := bind_eq_ok h
      obtain ⟨⟨others, last⟩, hothers, h⟩ := bind_eq_ok h
      cases h
      exact ⟨ordered_value hitem, ordered_items hothers⟩

theorem ordered_fields : ∀ {fuel levels : Nat} {first : Bool} {text rest : List Char}
    {fields : List (String × Json)}, Reader.fields fuel levels first text = .ok (fields, rest) →
    OrderedFields fields
  | 0, _, _, _, _, _, h => by
    rw [Reader.fields] at h
    cases h
  | fuel + 1, levels, first, text, rest, fields, h => by
    rw [Reader.fields] at h
    split at h
    · cases h
    · cases h
      trivial
    · obtain ⟨start, -, h⟩ := bind_eq_ok h
      obtain ⟨⟨key, behind⟩, -, h⟩ := bind_eq_ok h
      obtain ⟨colon, -, h⟩ := bind_eq_ok h
      obtain ⟨⟨item, more⟩, hitem, h⟩ := bind_eq_ok h
      obtain ⟨⟨others, last⟩, hothers, h⟩ := bind_eq_ok h
      cases h
      exact ⟨ordered_value hitem, ordered_fields hothers⟩

end

end Reader

/-- The value of a whole text, as it is kept. -/
def read (text : String) : Except Fault Canonical :=
  let cs := text.toList
  match h : Reader.value (2 * cs.length + 2) maxNesting cs with
  | .ok (json, rest) =>
    if (Reader.skipBlank rest).isEmpty then .ok ⟨json, Reader.ordered_value h⟩
    else .error .malformed
  | .error fault => .error fault

/-- A value is read if nothing but blanks comes behind it. -/
theorem read_of_value {text : String} {j : Canonical} {rest : List Char}
    (h : Reader.value (2 * text.toList.length + 2) maxNesting text.toList = .ok (j.json, rest))
    (hrest : Reader.skipBlank rest = []) : read text = .ok j := by
  unfold read
  dsimp only
  split
  · next hvalue =>
    cases h.symm.trans hvalue
    rw [hrest]
    rfl
  · next hvalue => exact nomatch h.symm.trans hvalue

end Json

end ForeignCall
