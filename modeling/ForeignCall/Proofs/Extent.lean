import Mathlib.Algebra.BigOperators.Group.List.Basic
import Mathlib.Algebra.Ring.Nat
import ForeignCall.Engine
import ForeignCall.Proofs.JsonText

/-!
# ForeignCall.Proofs.Extent

How many octets a description takes.

In JSON a character is written with six octets at most for each of its own, as
many as a control character takes.  So a text takes six times its octets and
two quotes (`size_string_le`), and a description little more than the texts in
it (`size_toJson`).
-/

namespace ForeignCall

namespace Json

/-! ## Texts -/

theorem size_control : ∀ n < 0x20, Utf8.size ("\\u00" ++ Quoted.hexOctet n.toUInt8) = 6 := by
  decide

theorem size_character_le (c : Char) : Utf8.size (Printer.character c) ≤ 6 * c.utf8Size := by
  have hsix : 6 ≤ 6 * c.utf8Size := Nat.le_mul_of_pos_right 6 c.utf8Size_pos
  unfold Printer.character
  iterate 7
    split
    · exact Nat.le_trans (by decide) hsix
  split
  · next hcontrol => exact Nat.le_trans (Nat.le_of_eq (size_control c.toNat hcontrol)) hsix
  · rw [Utf8.size_singleton]
    omega

theorem size_string_le (s : String) : Utf8.size (Printer.string s) ≤ 6 * Utf8.size s + 2 := by
  have hbody : ∀ cs : List Char, Utf8.size (String.join (cs.map Printer.character)) ≤
      6 * (cs.flatMap String.utf8EncodeChar).length := by
    intro cs
    induction cs with
    | nil => decide
    | cons c rest ih =>
      have hfirst := size_character_le c
      rw [List.map_cons, List.flatMap_cons, String.join_cons, Utf8.size_append, List.length_append,
        String.length_utf8EncodeChar]
      omega
  have hquote : Utf8.size "\"" = 1 := by decide
  have hs : _ ≤ 6 * Utf8.size s := hbody s.toList
  rw [Printer.string, Utf8.size_append, Utf8.size_append, hquote]
  omega

/-- Texts between commas: each takes its own octets and a comma, but for one. -/
theorem size_commas (text : String) (texts : List String) :
    Utf8.size (",".intercalate (text :: texts)) + 1 =
      ((text :: texts).map (Utf8.size · + 1)).sum := by
  have hcomma : Utf8.size "," = 1 := by decide
  induction texts generalizing text with
  | nil => simp
  | cons next texts ih =>
    rw [String.intercalate_cons_cons, Utf8.size_append, Utf8.size_append, List.map_cons,
      List.sum_cons, ← ih, hcomma]
    omega

/-! ## Arrays and objects -/

theorem compactItems_eq_map (items : List Json) :
    Printer.compactItems items = items.map compact := by
  induction items with
  | nil => rfl
  | cons item rest ih => rw [Printer.compactItems, ih, List.map_cons, compact]

/-- An array takes its items, each with a comma, of which one is a bracket; an empty one has two. -/
theorem size_array (items : List Json) : Utf8.size (Json.array items).compact =
    max 1 (items.map fun item => Utf8.size item.compact + 1).sum + 1 := by
  have hopen : Utf8.size "[" = 1 := by decide
  have hclose : Utf8.size "]" = 1 := by decide
  rw [compact, Printer.compact, Utf8.size_append, Utf8.size_append, hopen, hclose,
    compactItems_eq_map]
  cases items with
  | nil => decide
  | cons item rest =>
    have hcommas := size_commas item.compact (rest.map compact)
    rw [← List.map_cons, List.map_map, Function.comp_def] at hcommas
    omega

/-- An object of two fields takes them, and five octets around them. -/
theorem size_object_pair (key other : String) (item last : Json) :
    Utf8.size (Json.object [(key, item), (other, last)]).compact =
      Utf8.size (Printer.string key) + Utf8.size item.compact +
        (Utf8.size (Printer.string other) + Utf8.size last.compact) + 5 := by
  have hpunctuation : Utf8.size "\x7b" = 1 ∧ Utf8.size ":" = 1 ∧ Utf8.size "," = 1 ∧
      Utf8.size "\x7d" = 1 := by decide
  obtain ⟨hopen, hcolon, hcomma, hclose⟩ := hpunctuation
  simp only [compact, Printer.compact, Printer.compactFields, String.intercalate_cons_cons,
    String.intercalate_singleton, Utf8.size_append, hopen, hcolon, hcomma, hclose]
  omega

end Json

namespace Engine

open Json

/-! ## Descriptions -/

/-- The octets of a load of one path in a description, at most. -/
theorem size_record_le (tag path : String) :
    Utf8.size (LoadRecord.toJson ⟨tag, [path]⟩).compact ≤
      6 * (Utf8.size tag + Utf8.size path) + 23 := by
  have htag := size_string_le tag
  have hpath := size_string_le path
  have hkeys : Utf8.size (Printer.string "tag") = 5 ∧ Utf8.size (Printer.string "paths") = 7 := by
    decide
  have hone : ([path].map Json.string).map (fun item => Utf8.size item.compact + 1) =
      [Utf8.size (Printer.string path) + 1] := rfl
  have hstring : Utf8.size (Json.string tag).compact = Utf8.size (Printer.string tag) := rfl
  rw [LoadRecord.toJson, size_object_pair, size_array, hone, hstring, hkeys.1, hkeys.2,
    List.sum_singleton]
  omega

/-- A description takes the octets of its names and loads, each with a comma, and of what stands
around them. -/
theorem size_toJson (e : Engine) : Utf8.size e.toJson.compact =
    max 1 (e.functionNames.map fun name => Utf8.size (Printer.string name) + 1).sum +
      max 1 (e.loads.map fun r => Utf8.size (LoadRecord.toJson r).compact + 1).sum + 26 := by
  have hkeys : Utf8.size (Printer.string "functions") = 11 ∧
      Utf8.size (Printer.string "loaded") = 8 := by decide
  have hstring (name : String) : Utf8.size (Json.string name).compact =
      Utf8.size (Printer.string name) := rfl
  rw [toJson, size_object_pair, size_array, size_array, hkeys.1, hkeys.2, List.map_map,
    List.map_map]
  simp only [Function.comp_def, hstring]
  omega

end Engine

end ForeignCall
