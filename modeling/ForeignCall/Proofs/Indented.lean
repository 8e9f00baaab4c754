import ForeignCall.Proofs.Description
import ForeignCall.Proofs.JsonTrees

/-!
# ForeignCall.Proofs.Indented

Indented JSON text is read as what was written.

The line breaks and spaces of the indentation stand where the grammar has
blanks (`spells_array_block`, `spells_object_block`).  So the indented text of
any JSON without numbers spells it, at whatever depth it stands
(`spells_pretty`), and is read back also when a line break follows
(`read_pretty`); the descriptions of engines are of this kind
(`read_described`).
-/

namespace ForeignCall

namespace Json

/-! ## JSON without numbers -/

mutual

/-- There is no number in it. -/
def Worded : Json → Prop
  | .number _ => False
  | .array items => WordedItems items
  | .object fields => WordedFields fields
  | _ => True

/-- The same for the items of an array. -/
def WordedItems : List Json → Prop
  | [] => True
  | item :: rest => item.Worded ∧ WordedItems rest

/-- The same for the fields of an object. -/
def WordedFields : List (String × Json) → Prop
  | [] => True
  | (_, item) :: rest => item.Worded ∧ WordedFields rest

end

/-! ## Indentation -/

theorem blank_newline (depth : Nat) : Blank (Printer.newline depth).toList := by
  intro c hc
  rw [Printer.newline, String.toList_append, List.mem_append] at hc
  rcases hc with hbreak | hspaces
  · rw [List.mem_singleton.mp hbreak]
    decide
  · rw [String.toList_ofList] at hspaces
    rw [(List.mem_replicate.mp hspaces).2]
    decide

theorem toList_block_cons (depth : Nat) (opening closing text : String) (texts : List String) :
    (Printer.block depth opening closing (text :: texts)).toList =
      opening.toList ++ ((Printer.newline (depth + 1)).toList ++ (text.toList ++
        (texts.flatMap (fun t => ',' :: (Printer.newline (depth + 1)).toList ++ t.toList) ++
          ((Printer.newline depth).toList ++ closing.toList)))) := by
  rw [Printer.block, if_neg (by simp), String.toList_append, String.toList_append,
    String.toList_append, String.toList_append, toList_intercalate]
  simp

variable {levels : Nat}

/-- Items that are spelled by texts are an array, each on a line of its own. -/
theorem spells_array_block {items : List Json} {texts : List String}
    (h : List.Forall₂ (fun item text => Spells levels item text.toList) items texts)
    (depth : Nat) :
    Spells (levels + 1) (.array items) (Printer.block depth "[" "]" texts).toList := by
  have hothers {items : List Json} {texts : List String}
      (h : List.Forall₂ (fun item text => Spells levels item text.toList) items texts) :
      SpellsItems levels false items
        (texts.flatMap (fun t => ',' :: (Printer.newline (depth + 1)).toList ++ t.toList) ++
          ((Printer.newline depth).toList ++ [']'])) := by
    induction h with
    | nil => exact .close (blank_newline depth)
    | cons hfirst _ ih =>
      have hitem := SpellsItems.item (.comma blank_nil (blank_newline (depth + 1))) hfirst ih
      simpa using hitem
  cases h with
  | nil =>
    have hclose : SpellsItems levels true [] ([] ++ [']']) := .close blank_nil
    simpa [Printer.block] using Spells.array hclose
  | cons hfirst hrest =>
    have hitem := SpellsItems.item (.first (blank_newline (depth + 1))) hfirst (hothers hrest)
    rw [toList_block_cons]
    exact .array hitem

/-- Fields whose values are spelled by texts are an object, each on a line of its own. -/
theorem spells_object_block {fields : List (String × Json)} {texts : List String}
    (h : List.Forall₂ (fun field text => ∃ value : String,
      text = Printer.string field.1 ++ ": " ++ value ∧ Spells levels field.2 value.toList)
      fields texts) (depth : Nat) :
    Spells (levels + 1) (.object (Entries.ofList fields))
      (Printer.block depth "\x7b" "\x7d" texts).toList := by
  have hspace : Blank [' '] := by
    intro c hc
    rw [List.mem_singleton.mp hc]
    decide
  have hothers {fields : List (String × Json)} {texts : List String}
      (h : List.Forall₂ (fun field text => ∃ value : String,
        text = Printer.string field.1 ++ ": " ++ value ∧ Spells levels field.2 value.toList)
        fields texts) :
      SpellsFields levels false fields
        (texts.flatMap (fun t => ',' :: (Printer.newline (depth + 1)).toList ++ t.toList) ++
          ((Printer.newline depth).toList ++ ['\x7d'])) := by
    induction h with
    | nil => exact .close (blank_newline depth)
    | @cons field _ _ _ hfirst _ ih =>
      obtain ⟨value, rfl, hvalue⟩ := hfirst
      have hfield := SpellsFields.field field.1 (.comma blank_nil (blank_newline (depth + 1)))
        hspace hvalue ih
      simpa using hfield
  cases h with
  | nil =>
    have hclose : SpellsFields levels true [] ([] ++ ['\x7d']) := .close blank_nil
    simpa [Printer.block] using Spells.object hclose
  | @cons field _ _ _ hfirst hrest =>
    obtain ⟨value, rfl, hvalue⟩ := hfirst
    have hfield := SpellsFields.field field.1 (.first (blank_newline (depth + 1))) hspace hvalue
      (hothers hrest)
    have hobject := Spells.object hfield
    rw [toList_block_cons]
    simpa using hobject

/-! ## Indented text -/

mutual

/-- **Indented text spells what it was written for**, if that has no numbers and no more than so
many levels. -/
theorem spells_pretty : ∀ {j : Json} {levels : Nat} (depth : Nat), j.Ordered → j.Worded →
    j.depth < levels → Spells levels j (Printer.pretty depth j).toList
  | .null, _, _, _, _, _ => by
    rw [Printer.pretty]
    exact .null
  | .bool b, _, _, _, _, _ => by
    rw [Printer.pretty]
    exact .bool b
  | .number _, _, _, _, hworded, _ => absurd hworded not_false
  | .string s, _, _, _, _, _ => by
    rw [Printer.pretty]
    exact .string s
  | .array items, levels, depth, hordered, hworded, hlevels => by
    obtain ⟨levels, rfl⟩ := Nat.exists_eq_add_one.mpr (Nat.lt_of_le_of_lt (Nat.zero_le _) hlevels)
    exact spells_array_block (spells_prettyItems (depth + 1) hordered hworded hlevels) depth
  | .object fields, levels, depth, hordered, hworded, hlevels => by
    obtain ⟨levels, rfl⟩ := Nat.exists_eq_add_one.mpr (Nat.lt_of_le_of_lt (Nat.zero_le _) hlevels)
    have hobject := spells_object_block
      (spells_prettyFields (depth + 1) hordered.2 hworded hlevels) depth
    rwa [Entries.ofList_of_sorted hordered.1] at hobject

theorem spells_prettyItems : ∀ {items : List Json} {levels : Nat} (depth : Nat),
    OrderedItems items → WordedItems items → depthItems items < levels + 1 →
    List.Forall₂ (fun item text => Spells levels item text.toList) items
      (Printer.prettyItems depth items)
  | [], _, _, _, _, _ => .nil
  | _ :: _, _, depth, hordered, hworded, hlevels => by
    rw [depthItems, Nat.max_lt, Nat.add_lt_add_iff_right] at hlevels
    exact .cons (spells_pretty depth hordered.1 hworded.1 hlevels.1)
      (spells_prettyItems depth hordered.2 hworded.2 hlevels.2)

theorem spells_prettyFields : ∀ {fields : List (String × Json)} {levels : Nat} (depth : Nat),
    OrderedFields fields → WordedFields fields → depthFields fields < levels + 1 →
    List.Forall₂ (fun field text => ∃ value : String,
      text = Printer.string field.1 ++ ": " ++ value ∧ Spells levels field.2 value.toList)
      fields (Printer.prettyFields depth fields)
  | [], _, _, _, _, _ => .nil
  | (_, _) :: _, _, depth, hordered, hworded, hlevels => by
    rw [depthFields, Nat.max_lt, Nat.add_lt_add_iff_right] at hlevels
    exact .cons ⟨_, rfl, spells_pretty depth hordered.1 hworded.1 hlevels.1⟩
      (spells_prettyFields depth hordered.2 hworded.2 hlevels.2)

end

/-- **Reading back** indented text and a line break. -/
theorem read_pretty {j : Canonical} (hworded : j.json.Worded)
    (hlevels : j.json.depth < maxNesting) : read (j.json.pretty ++ "\n") = .ok j := by
  have hspells : Spells maxNesting j.json j.json.pretty.toList :=
    spells_pretty 0 j.ordered hworded hlevels
  have hlength : j.json.pretty.toList.length ≤
      2 * (j.json.pretty.toList ++ ['\n']).length + 2 := by
    rw [List.length_append]
    omega
  have hvalue := hspells.value hlength ['\n']
  have htext : j.json.pretty.toList ++ ['\n'] = (j.json.pretty ++ "\n").toList := by simp
  rw [htext] at hvalue
  exact read_of_value hvalue (by decide)

/-! ## Descriptions -/

theorem strings_worded (texts : List String) :
    WordedItems (texts.map .string) ∧ depthItems (texts.map .string) ≤ 1 := by
  induction texts with
  | nil => exact ⟨trivial, Nat.zero_le 1⟩
  | cons text rest ih =>
    obtain ⟨hworded, hdepth⟩ := ih
    exact ⟨⟨trivial, hworded⟩, Nat.max_le.mpr ⟨Nat.le_refl 1, hdepth⟩⟩

theorem records_worded (records : List LoadRecord) :
    WordedItems (records.map fun r => (Engine.describedLoad r).json) ∧
      depthItems (records.map fun r => (Engine.describedLoad r).json) ≤ 3 := by
  induction records with
  | nil => exact ⟨trivial, Nat.zero_le 3⟩
  | cons r rest ih =>
    obtain ⟨hworded, hdepth⟩ := ih
    obtain ⟨hpaths, hpathsDepth⟩ := strings_worded r.paths
    refine ⟨⟨⟨hpaths, trivial, trivial⟩, hworded⟩, Nat.max_le.mpr ⟨?_, hdepth⟩⟩
    simp only [Engine.describedLoad, depth, depthFields]
    omega

/-- The description of an engine is read back from its indented text. -/
theorem read_described (names : List String) (records : List LoadRecord) :
    read ((Engine.described names records).json.pretty ++ "\n") =
      .ok (Engine.described names records) := by
  obtain ⟨hnames, hnamesDepth⟩ := strings_worded names
  obtain ⟨hrecords, hrecordsDepth⟩ := records_worded records
  refine read_pretty ⟨hnames, hrecords, trivial⟩ ?_
  simp only [Engine.described, depth, depthFields, maxNesting]
  omega

end Json

end ForeignCall
