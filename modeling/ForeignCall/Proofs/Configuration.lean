import ForeignCall.Proofs.Bounds

/-!
# ForeignCall.Proofs.Configuration

Configurations that name some of the limits.

What a configuration is written as is an object, and so is its one field
`limits`.  In both, fields may come in any order and among others that nobody
knows:

```
{"x": [1], "limits": {"max_nodes": 7, "y": null, "max_tag_len": 3}}
```

`FieldsText` splits such a text into the names of the fields and the texts of
their values.  Reading goes from field to field (`Gathers`): it skips those that
are not known, and fails at the first one that is given again or has a value of
the wrong kind.

`read_partial` — what is named counts, everything else keeps its default.
-/

namespace ForeignCall

open Json

namespace Config

/-! ## Fields in a text -/

/-- The fields of an object, by name, each with the text of its value, and the closing brace;
`first` before the first field.  A name is what its characters spell. -/
inductive FieldsText : Bool → List (String × List Char) → List Char → Prop where
  | close {first : Bool} {blanks : List Char} : Blank blanks →
      FieldsText first [] (blanks ++ ['\x7d'])
  | field {first : Bool} {lead name before after value more : List Char} {key : String}
      {rest : List (String × List Char)} : Lead first lead → NameText key.toList name →
      Blank before → Blank after → ValueText value → FieldsText false rest more →
      FieldsText first ((key, value) :: rest)
        (lead ++ '"' :: (name ++ '"' :: (before ++ ':' :: (after ++ (value ++ more)))))

/-- An object and its fields. -/
def Object (fields : List (String × List Char)) (text : List Char) : Prop :=
  ∃ members, text = '\x7b' :: members ∧ FieldsText true fields members

/-- A whole text that is an object, with blanks around it. -/
def Document (fields : List (String × List Char)) (text : String) : Prop :=
  ∃ before object after, Blank before ∧ Object fields object ∧ Blank after ∧
    text.toList = before ++ (object ++ after)

/-- The values of all fields with a name. -/
def valuesOf (name : String) (fields : List (String × List Char)) : List (List Char) :=
  (fields.filter (·.1 = name)).map Prod.snd

@[simp] theorem valuesOf_nil (name : String) : valuesOf name [] = [] := rfl

theorem valuesOf_cons_self (name : String) (value : List Char)
    (rest : List (String × List Char)) :
    valuesOf name ((name, value) :: rest) = value :: valuesOf name rest := by
  simp [valuesOf]

theorem valuesOf_cons_ne {name key : String} (h : key ≠ name) (value : List Char)
    (rest : List (String × List Char)) :
    valuesOf name ((key, value) :: rest) = valuesOf name rest := by
  simp [valuesOf, h]

theorem valuesOf_perm {fields fields' : List (String × List Char)} (h : fields.Perm fields')
    (name : String) : (valuesOf name fields).Perm (valuesOf name fields') :=
  (h.filter _).map _

/-- Such a text is one of members, and the object a value like any other. -/
theorem FieldsText.membersText {first : Bool} {fields : List (String × List Char)}
    {text : List Char} (h : FieldsText first fields text) : MembersText first text := by
  induction h with
  | close hblanks => exact .close hblanks
  | field hlead hname hbefore hafter hvalue _ ih =>
    exact .member hlead hname.stringText hbefore hafter hvalue ih

theorem Object.valueText {fields : List (String × List Char)} {text : List Char}
    (h : Object fields text) : ValueText text := by
  obtain ⟨members, rfl, hmembers⟩ := h
  exact .object hmembers.membersText

/-! ## From field to field -/

variable {σ : Type}

/-- A record is read and some text is left, or there is a fault. -/
def Yields (result : Except Fault (σ × List Char)) (rest : List Char) : Option σ → Prop
  | some r => result = .ok (r, rest)
  | none => ∃ fault, result = .error fault

/-- What reading a value into a record comes to, whatever is around it. -/
def Takes (field : Field σ) (r : σ) (value : List Char) (out : Option σ) : Prop :=
  ∀ blanks rest, Blank blanks → Stops rest →
    Yields (field.read r (blanks ++ (value ++ rest))) rest out

/-- What reading fields into a record comes to. -/
inductive Gathers (known : List (Field σ)) : σ → List (String × List Char) → Option σ → Prop where
  | done {r : σ} : Gathers known r [] (some r)
  | unknown {r : σ} {name : String} {value : List Char} {more : List (String × List Char)}
      {out : Option σ} : known.find? (·.name = name) = none → Gathers known r more out →
      Gathers known r ((name, value) :: more) out
  | again {r : σ} {name : String} {value : List Char} {more : List (String × List Char)}
      {field : Field σ} : known.find? (·.name = name) = some field → field.given r = true →
      Gathers known r ((name, value) :: more) none
  | refused {r : σ} {name : String} {value : List Char} {more : List (String × List Char)}
      {field : Field σ} : known.find? (·.name = name) = some field → field.given r = false →
      Takes field r value none → Gathers known r ((name, value) :: more) none
  | taken {r r' : σ} {name : String} {value : List Char} {more : List (String × List Char)}
      {field : Field σ} {out : Option σ} : known.find? (·.name = name) = some field →
      field.given r = false → Takes field r value (some r') → Gathers known r' more out →
      Gathers known r ((name, value) :: more) out

variable {known : List (Field σ)} {r : σ} {out : Option σ}

/-- The next field of an object. -/
theorem members_field {name : String} {fuel : Nat} {first : Bool}
    {lead spelled before text : List Char} (hlead : Lead first lead)
    (hname : NameText name.toList spelled) (hbefore : Blank before) :
    members known (fuel + 1) first r
        (lead ++ '"' :: (spelled ++ '"' :: (before ++ ':' :: text))) =
      (match known.find? (·.name = name) with
      | some field =>
        if field.given r then .error .mistyped
        else do
          let (r, rest) ← field.read r text
          members known fuel false r rest
      | none => do members known fuel false r (← json (skip text))) := by
  obtain ⟨d, behind, hskip, hd, hstart⟩ :=
    hlead.separated (by decide : '\x7d' ≠ ',') (by decide : Reader.isBlank '"' = false) (by decide)
      (spelled ++ '"' :: (before ++ ':' :: text))
  have hcharacters := hname.characters
    (show spelled.length < (spelled ++ '"' :: (before ++ ':' :: text)).length + 1 by
      simp only [List.length_append]; omega) (before ++ ':' :: text)
  have hkey : Reader.fieldKey ('"' :: (spelled ++ '"' :: (before ++ ':' :: text))) =
      .ok (name, before ++ ':' :: text) := by
    simp only [Reader.fieldKey, Reader.string, hcharacters, bind, Except.bind, pure, Except.pure,
      String.ofList_toList]
  have hcolon : Reader.colon (before ++ ':' :: text) = .ok text := by
    have hmark : Reader.isBlank ':' = false := by decide
    simp only [Reader.colon, hbefore.skip, skipBlank_cons hmark]
  rw [members]
  simp only [hskip, hstart, hkey, hcolon, json, Except.mapError, bind, Except.bind]
  rfl

theorem members_close {blanks : List Char} (h : Blank blanks) (fuel : Nat) (first : Bool)
    (rest : List Char) :
    members known (fuel + 1) first r (blanks ++ '\x7d' :: rest) = .ok (r, rest) := by
  have hbrace : Reader.isBlank '\x7d' = false := by decide
  simp only [members, h.skip, skipBlank_cons hbrace]

/-- **Reading goes from field to field.** -/
theorem FieldsText.yields {first : Bool} {fields : List (String × List Char)} {text : List Char}
    (h : FieldsText first fields text) (hgathers : Gathers known r fields out) {fuel : Nat}
    (hfuel : text.length ≤ fuel) (rest : List Char) :
    Yields (members known fuel first r (text ++ rest)) rest out := by
  induction h generalizing r fuel with
  | close hblanks =>
    rw [List.length_append] at hfuel
    obtain ⟨fuel, rfl⟩ := Nat.exists_eq_add_one.mpr (Nat.lt_of_lt_of_le (Nat.succ_pos _) hfuel)
    cases hgathers
    rw [List.append_assoc]
    exact members_close hblanks fuel _ rest
  | @field first lead spelled before after value text name more hlead hname hbefore hafter hvalue
      hmore ih =>
    simp only [List.length_append, List.length_cons] at hfuel
    obtain ⟨fuel, rfl⟩ := Nat.exists_eq_add_one.mpr (show 0 < fuel by omega)
    have hshorter : text.length ≤ fuel := by omega
    have hstops : Stops (text ++ rest) := hmore.membersText.stops rest
    simp only [List.append_assoc, List.cons_append]
    rw [members_field hlead hname hbefore]
    cases hgathers with
    | unknown hfind hgathers =>
      simp only [hfind, skip_append hafter hvalue hstops]
      exact ih hgathers hshorter
    | again hfind hgiven =>
      simp only [hfind, hgiven, if_true]
      exact ⟨_, rfl⟩
    | refused hfind hgiven htakes =>
      obtain ⟨fault, hfault⟩ := htakes after _ hafter hstops
      simp only [hfind, hgiven, hfault]
      exact ⟨fault, rfl⟩
    | taken hfind hgiven htakes hgathers =>
      have hread := htakes after _ hafter hstops
      simp only [Yields] at hread
      simp only [hfind, hgiven, hread]
      exact ih hgathers hshorter

/-- So it is with a whole object. -/
theorem Object.yields {fields : List (String × List Char)} {object blanks : List Char}
    (h : Object fields object) (hblanks : Blank blanks) (hgathers : Gathers known r fields out)
    (rest : List Char) : Yields (record known r (blanks ++ (object ++ rest))) rest out := by
  obtain ⟨text, rfl, htext⟩ := h
  have hbrace : Reader.isBlank '\x7b' = false := by decide
  simp only [record, hblanks.skip, List.cons_append, skipBlank_cons hbrace]
  exact htext.yields hgathers (by simp only [List.length_append]; omega) rest

/-! ## The limits -/

/-- The four limits. -/
inductive Bound where
  | tagLen
  | loadPaths
  | pathLen
  | nodes
deriving DecidableEq, Repr

namespace Bound

/-- What a limit is called. -/
def name : Bound → String
  | .tagLen => "max_tag_len"
  | .loadPaths => "max_load_paths"
  | .pathLen => "max_path_len"
  | .nodes => "max_nodes"

/-- What a limit is. -/
def of : Bound → Limits → UInt64
  | .tagLen => Limits.maxTagLen
  | .loadPaths => Limits.maxLoadPaths
  | .pathLen => Limits.maxPathLen
  | .nodes => Limits.maxNodes

/-- What has been given for a limit. -/
def given : Bound → GivenLimits → Option UInt64
  | .tagLen => GivenLimits.maxTagLen
  | .loadPaths => GivenLimits.maxLoadPaths
  | .pathLen => GivenLimits.maxPathLen
  | .nodes => GivenLimits.maxNodes

/-- Give a limit. -/
def give : Bound → GivenLimits → UInt64 → GivenLimits
  | .tagLen, r, n => { r with maxTagLen := some n }
  | .loadPaths, r, n => { r with maxLoadPaths := some n }
  | .pathLen, r, n => { r with maxPathLen := some n }
  | .nodes, r, n => { r with maxNodes := some n }

/-- The field of a limit. -/
def field (b : Bound) : Field GivenLimits :=
  boundField b.name b.given b.give

@[simp] theorem given_give_self (b : Bound) (r : GivenLimits) (n : UInt64) :
    b.given (b.give r n) = some n := by
  cases b <;> rfl

theorem given_give_ne {b b' : Bound} (h : b' ≠ b) (r : GivenLimits) (n : UInt64) :
    b'.given (b.give r n) = b'.given r := by
  cases b <;> cases b' <;> first | rfl | exact absurd rfl h

theorem name_inj {b b' : Bound} (h : b.name = b'.name) : b = b' := by
  cases b <;> cases b' <;> first | rfl | exact absurd h (by decide)

/-- A limit is what was given, or its default. -/
theorem of_complete (b : Bound) (r : GivenLimits) :
    b.of r.complete = (b.given r).getD (b.of {}) := by
  cases b <;> rfl

theorem find?_limitsFields (b : Bound) : limitsFields.find? (·.name = b.name) = some b.field := by
  cases b <;> rfl

/-- The fields that are known are those of the limits. -/
theorem find?_limitsFields_eq_none {name : String} (h : ∀ b : Bound, b.name ≠ name) :
    limitsFields.find? (·.name = name) = none := by
  have hall : limitsFields = [tagLen, loadPaths, pathLen, nodes].map field := rfl
  rw [hall, List.find?_eq_none]
  rintro _ hmem
  obtain ⟨b, -, rfl⟩ := List.mem_map.mp hmem
  exact fun heq => h b (of_decide_eq_true heq)

/-- A natural number below 2^64 is given, anything else refused. -/
theorem takes_natural {b : Bound} {r : GivenLimits} {n : Nat} {value : List Char}
    (h : Natural n value) (hn : n < 2 ^ 64) :
    Takes b.field r value (some (b.give r (UInt64.ofNat n))) := by
  intro blanks rest hblanks hrest
  simp only [field, boundField, readBound_natural hblanks h hn hrest]
  rfl

theorem takes_none {b : Bound} {r : GivenLimits} {value : List Char} (h : ValueText value)
    (hnot : ∀ n < 2 ^ 64, ¬ Natural n value) : Takes b.field r value none := by
  intro blanks rest hblanks hrest
  obtain ⟨fault, hfault⟩ := readBound_refused hblanks h hnot hrest
  simp only [field, boundField, hfault]
  exact ⟨fault, rfl⟩

end Bound

/-- A limit is given once at most, and then a natural number below 2^64. -/
def Bound.Proper (b : Bound) (bounds : List (String × List Char)) : Prop :=
  valuesOf b.name bounds = [] ∨
    ∃ value, valuesOf b.name bounds = [value] ∧ ∃ n < 2 ^ 64, Natural n value

/-- What fields make of the limits given before them, if they can be read. -/
def Settles (bounds : List (String × List Char)) (r r' : GivenLimits) : Prop :=
  ∀ b : Bound, valuesOf b.name bounds = [] ∧ b.given r' = b.given r ∨
    b.given r = none ∧ ∃ value n, valuesOf b.name bounds = [value] ∧ Natural n value ∧
      n < 2 ^ 64 ∧ b.given r' = some (UInt64.ofNat n)

theorem settles_nil {r r' : GivenLimits} : Settles [] r r' ↔ r = r' := by
  constructor
  · intro h
    have hsame (b : Bound) : b.given r = b.given r' := by
      rcases h b with ⟨-, hgiven⟩ | ⟨-, _, _, hnone, -⟩
      · exact hgiven.symm
      · cases hnone
    obtain ⟨_, _, _, _⟩ := r
    obtain ⟨_, _, _, _⟩ := r'
    exact GivenLimits.mk.injEq .. ▸ ⟨hsame .tagLen, hsame .loadPaths, hsame .pathLen, hsame .nodes⟩
  · rintro rfl b
    exact .inl ⟨rfl, rfl⟩

/-- A field that is not known makes no difference. -/
theorem settles_unknown {name : String} (h : ∀ b : Bound, b.name ≠ name) (value : List Char)
    (more : List (String × List Char)) {r r' : GivenLimits} :
    Settles ((name, value) :: more) r r' ↔ Settles more r r' := by
  simp only [Settles, valuesOf_cons_ne (Ne.symm (h _))]

/-- A field that is known counts if nothing was given before. -/
theorem settles_known (b : Bound) {value : List Char} {n : Nat} (h : Natural n value)
    (hn : n < 2 ^ 64) (more : List (String × List Char)) {r r' : GivenLimits}
    (hgiven : b.given r = none) :
    Settles ((b.name, value) :: more) r r' ↔ Settles more (b.give r (UInt64.ofNat n)) r' := by
  refine forall_congr' fun b' => ?_
  by_cases hb : b' = b
  · subst hb
    rw [valuesOf_cons_self, Bound.given_give_self]
    constructor
    · rintro (⟨hnone, -⟩ | ⟨-, v, m, hvalue, hm, -, hr'⟩)
      · cases hnone
      · obtain ⟨rfl, hmore⟩ := List.cons.inj hvalue
        exact .inl ⟨hmore, hm.unique h ▸ hr'⟩
    · rintro (⟨hmore, hr'⟩ | ⟨hnone, -⟩)
      · exact .inr ⟨hgiven, value, n, by rw [hmore], h, hn, hr'⟩
      · cases hnone
  · have hname : b.name ≠ b'.name := fun heq => hb (Bound.name_inj heq).symm
    rw [valuesOf_cons_ne hname, Bound.given_give_ne hb]

/-- What is given again or is no natural number below 2^64 cannot be read. -/
theorem Settles.head {b : Bound} {value : List Char} {more : List (String × List Char)}
    {r r' : GivenLimits} (h : Settles ((b.name, value) :: more) r r') :
    b.given r = none ∧ ∃ n < 2 ^ 64, Natural n value := by
  have hb := h b
  rw [valuesOf_cons_self] at hb
  rcases hb with ⟨hnone, -⟩ | ⟨hgiven, v, n, hvalue, hn, hlt, -⟩
  · cases hnone
  · exact ⟨hgiven, n, hlt, (List.cons.inj hvalue).1 ▸ hn⟩

/-- Reading the fields of the limits makes of them what they settle. -/
theorem gathers_limits {bounds : List (String × List Char)} (hvalues : ∀ f ∈ bounds, ValueText f.2)
    (r : GivenLimits) :
    ∃ out, Gathers limitsFields r bounds out ∧ ∀ r', out = some r' ↔ Settles bounds r r' := by
  induction bounds generalizing r with
  | nil => exact ⟨some r, .done, fun r' => by rw [Option.some.injEq, settles_nil]⟩
  | cons f more ih =>
    obtain ⟨name, value⟩ := f
    have hmore := ih fun f hf => hvalues f (List.mem_cons_of_mem _ hf)
    have hvalue : ValueText value := hvalues _ List.mem_cons_self
    by_cases hname : ∃ b : Bound, b.name = name
    · obtain ⟨b, rfl⟩ := hname
      have hfind := b.find?_limitsFields
      cases hgiven : b.given r with
      | some n =>
        have hagain : b.field.given r = true := by simp [Bound.field, boundField, hgiven]
        refine ⟨none, .again hfind hagain, fun r' => ⟨nofun, fun h => ?_⟩⟩
        cases hgiven.symm.trans h.head.1
      | none =>
        have hfirst : b.field.given r = false := by simp [Bound.field, boundField, hgiven]
        by_cases hnatural : ∃ n < 2 ^ 64, Natural n value
        · obtain ⟨n, hn, hnatural⟩ := hnatural
          obtain ⟨out, hout, hiff⟩ := hmore (b.give r (UInt64.ofNat n))
          exact ⟨out, .taken hfind hfirst (Bound.takes_natural hnatural hn) hout,
            fun r' => by rw [hiff, settles_known b hnatural hn more hgiven]⟩
        · have hnot : ∀ n < 2 ^ 64, ¬ Natural n value := fun n hn h => hnatural ⟨n, hn, h⟩
          exact ⟨none, .refused hfind hfirst (Bound.takes_none hvalue hnot),
            fun r' => ⟨nofun, fun h => absurd h.head.2 hnatural⟩⟩
    · have hunknown : ∀ b : Bound, b.name ≠ name := fun b heq => hname ⟨b, heq⟩
      obtain ⟨out, hout, hiff⟩ := hmore r
      exact ⟨out, .unknown (Bound.find?_limitsFields_eq_none hunknown) hout,
        fun r' => by rw [hiff, settles_unknown hunknown]⟩

/-! ## The configuration -/

/-- The one field of a configuration. -/
def limitsField : Field (Option Limits) where
  name := "limits"
  given := Option.isSome
  read _ text := do
    let (given, rest) ← record limitsFields {} text
    return (some given.complete, rest)

theorem configFields_eq : configFields = [limitsField] := rfl

theorem find?_configFields_self : configFields.find? (·.name = "limits") = some limitsField := rfl

theorem find?_configFields_ne {name : String} (h : name ≠ "limits") :
    configFields.find? (·.name = name) = none := by
  rw [configFields_eq, List.find?_eq_none]
  rintro _ hmem
  obtain rfl := List.mem_singleton.mp hmem
  exact fun heq => h (of_decide_eq_true heq).symm

/-- Where nothing is called `limits`, nothing is read. -/
theorem gathers_config_nil {fields : List (String × List Char)}
    (h : valuesOf "limits" fields = []) (r : Option Limits) :
    Gathers configFields r fields (some r) := by
  induction fields with
  | nil => exact .done
  | cons f more ih =>
    obtain ⟨name, value⟩ := f
    by_cases hname : name = "limits"
    · subst hname
      rw [valuesOf_cons_self] at h
      cases h
    · rw [valuesOf_cons_ne hname] at h
      exact .unknown (find?_configFields_ne hname) (ih h)

theorem gathers_config_again {fields : List (String × List Char)}
    (h : valuesOf "limits" fields ≠ []) (limits : Limits) :
    Gathers configFields (some limits) fields none := by
  induction fields with
  | nil => exact absurd rfl h
  | cons f more ih =>
    obtain ⟨name, value⟩ := f
    by_cases hname : name = "limits"
    · subst hname
      exact .again find?_configFields_self rfl
    · rw [valuesOf_cons_ne hname] at h
      exact .unknown (find?_configFields_ne hname) (ih h)

/-- The first limits are read, and there must be no others. -/
theorem gathers_config_cons {fields : List (String × List Char)} {value : List Char}
    {others : List (List Char)} (h : valuesOf "limits" fields = value :: others)
    {out : Option Limits} (htakes : Takes limitsField none value (out.map some)) :
    Gathers configFields none fields (if others = [] then out.map some else none) := by
  induction fields with
  | nil => cases h
  | cons f more ih =>
    obtain ⟨name, v⟩ := f
    by_cases hname : name = "limits"
    · subst hname
      rw [valuesOf_cons_self] at h
      obtain ⟨rfl, hothers⟩ := List.cons.inj h
      cases out with
      | none =>
        rw [Option.map_none, ite_self]
        exact .refused find?_configFields_self rfl htakes
      | some limits =>
        refine .taken find?_configFields_self rfl htakes ?_
        split_ifs with hnone
        · exact gathers_config_nil (hothers.trans hnone) _
        · exact gathers_config_again (hothers ▸ hnone) _
    · rw [valuesOf_cons_ne hname] at h
      exact .unknown (find?_configFields_ne hname) (ih h)

/-! ## What limits override -/

/-- Limits that are as the fields say, and as by default where they say nothing. -/
def Overrides (bounds : List (String × List Char)) (limits : Limits) : Prop :=
  ∀ b : Bound, valuesOf b.name bounds = [] ∧ b.of limits = b.of {} ∨
    ∃ value n, valuesOf b.name bounds = [value] ∧ Natural n value ∧ n < 2 ^ 64 ∧
      b.of limits = UInt64.ofNat n

theorem limits_ext {limits limits' : Limits} (h : ∀ b : Bound, b.of limits = b.of limits') :
    limits = limits' := by
  obtain ⟨_, _, _, _⟩ := limits
  obtain ⟨_, _, _, _⟩ := limits'
  exact Limits.mk.injEq .. ▸ ⟨h .tagLen, h .loadPaths, h .pathLen, h .nodes⟩

/-- What the fields settle overrides the defaults. -/
theorem overrides_iff {bounds : List (String × List Char)} {limits : Limits} :
    Overrides bounds limits ↔ ∃ g, Settles bounds {} g ∧ g.complete = limits := by
  have hempty (b : Bound) : b.given {} = none := by cases b <;> rfl
  constructor
  · intro h
    let given (b : Bound) : Option UInt64 :=
      if valuesOf b.name bounds = [] then none else some (b.of limits)
    let g : GivenLimits := ⟨given .tagLen, given .loadPaths, given .pathLen, given .nodes⟩
    have hg (b : Bound) : b.given g = given b := by cases b <;> rfl
    refine ⟨g, fun b => ?_, limits_ext fun b => ?_⟩
    · rw [hempty, hg]
      rcases h b with ⟨hnone, -⟩ | ⟨value, n, hvalue, hn, hlt, heq⟩
      · exact .inl ⟨hnone, if_pos hnone⟩
      · refine .inr ⟨rfl, value, n, hvalue, hn, hlt, ?_⟩
        rw [← heq]
        exact if_neg (by simp [hvalue])
    · rw [Bound.of_complete, hg]
      rcases h b with ⟨hnone, hdefault⟩ | ⟨value, n, hvalue, -, -, -⟩
      · simp only [given, if_pos hnone, hdefault, Option.getD_none]
      · simp [given, hvalue]
  · rintro ⟨g, hg, rfl⟩ b
    rw [Bound.of_complete]
    rcases hg b with ⟨hnone, hgiven⟩ | ⟨-, value, n, hvalue, hn, hlt, hgiven⟩
    · exact .inl ⟨hnone, by rw [hgiven, hempty, Option.getD_none]⟩
    · exact .inr ⟨value, n, hvalue, hn, hlt, by rw [hgiven, Option.getD_some]⟩

/-- Fields that give each limit once at most, and then a natural number below 2^64, override. -/
theorem exists_overrides {bounds : List (String × List Char)} (h : ∀ b : Bound, b.Proper bounds) :
    ∃ limits, Overrides bounds limits := by
  let named (b : Bound) : UInt64 :=
    ((valuesOf b.name bounds).head?.map fun value =>
      UInt64.ofNat (Numeral.decimalValue value)).getD (b.of {})
  let limits : Limits := ⟨named .tagLen, named .loadPaths, named .pathLen, named .nodes⟩
  have hlimits (b : Bound) : b.of limits = named b := by cases b <;> rfl
  refine ⟨limits, fun b => ?_⟩
  rw [hlimits]
  rcases h b with hnone | ⟨value, hvalue, n, hn, hnatural⟩
  · exact .inl ⟨hnone, by simp [named, hnone]⟩
  · exact .inr ⟨value, n, hvalue, hnatural, hn, by simp [named, hvalue, hnatural.2]⟩

theorem Overrides.proper {bounds : List (String × List Char)} {limits : Limits}
    (h : Overrides bounds limits) (b : Bound) : b.Proper bounds := by
  rcases h b with ⟨hnone, -⟩ | ⟨value, n, hvalue, hnatural, hn, -⟩
  · exact .inl hnone
  · exact .inr ⟨value, hvalue, n, hn, hnatural⟩

/-- What is named has the value given, and everything else its default. -/
theorem Overrides.of {bounds : List (String × List Char)} {limits : Limits}
    (h : Overrides bounds limits) (b : Bound) :
    (valuesOf b.name bounds = [] → b.of limits = b.of {}) ∧
      ∀ value ∈ valuesOf b.name bounds, Natural (b.of limits).toNat value := by
  rcases h b with ⟨hnone, hdefault⟩ | ⟨value, n, hvalue, hnatural, hn, heq⟩
  · exact ⟨fun _ => hdefault, by simp [hnone]⟩
  · refine ⟨by simp [hvalue], fun v hv => ?_⟩
    obtain rfl : v = value := by simpa [hvalue] using hv
    rw [heq, UInt64.toNat_ofNat', Nat.mod_eq_of_lt hn]
    exact hnatural

/-- The same fields in another order override the same. -/
theorem Overrides.perm {bounds bounds' : List (String × List Char)} {limits : Limits}
    (h : Overrides bounds limits) (hperm : bounds'.Perm bounds) : Overrides bounds' limits := by
  intro b
  have hvalues := valuesOf_perm hperm b.name
  rcases h b with ⟨hnone, hdefault⟩ | ⟨value, n, hvalue, hrest⟩
  · exact .inl ⟨List.perm_nil.mp (hnone ▸ hvalues), hdefault⟩
  · exact .inr ⟨value, n, List.perm_singleton.mp (hvalue ▸ hvalues), hrest⟩

theorem FieldsText.valueText {first : Bool} {fields : List (String × List Char)}
    {text : List Char} (h : FieldsText first fields text) : ∀ f ∈ fields, ValueText f.2 := by
  induction h with
  | close _ => simp
  | field _ _ _ _ hvalue _ ih => exact List.forall_mem_cons.mpr ⟨hvalue, ih⟩

/-- An object is read as the limits that it overrides, if there are any. -/
theorem takes_limits {bounds : List (String × List Char)} {value : List Char}
    (h : Object bounds value) : ∃ out : Option Limits,
      Takes limitsField none value (out.map some) ∧
        ∀ limits, out = some limits ↔ Overrides bounds limits := by
  have hvalues : ∀ f ∈ bounds, ValueText f.2 := by
    obtain ⟨_, -, hmembers⟩ := h
    exact hmembers.valueText
  obtain ⟨out, hout, hiff⟩ := gathers_limits hvalues {}
  refine ⟨out.map GivenLimits.complete, fun blanks rest hblanks _ => ?_, fun limits => ?_⟩
  · have hread := h.yields hblanks hout rest
    cases out with
    | none =>
      obtain ⟨fault, hfault⟩ := hread
      simp only [limitsField, hfault]
      exact ⟨fault, rfl⟩
    | some g =>
      simp only [Yields] at hread
      simp only [limitsField, hread]
      rfl
  · rw [overrides_iff, Option.map_eq_some_iff]
    simp only [hiff]

/-! ## Whole texts -/

theorem read_of_gathers {fields : List (String × List Char)} {text : String}
    (h : Document fields text) {out : Option (Option Limits)}
    (hgathers : Gathers configFields none fields out) (config : Config) :
    Config.read text = .ok config ↔ out = some none ∧ config = {} ∨
      ∃ limits, out = some (some limits) ∧ config = { limits } := by
  obtain ⟨before, object, after, hbefore, hobject, hafter, htext⟩ := h
  have hend : Reader.skipBlank after = [] := by
    rw [← List.append_nil after, hafter.skip]
    rfl
  have hread := hobject.yields hbefore hgathers after
  rw [Config.read, htext]
  cases out with
  | none =>
    obtain ⟨fault, hfault⟩ := hread
    simp [hfault, bind, Except.bind]
  | some limits =>
    simp only [Yields] at hread
    simp only [hread, hend, bind, Except.bind, List.isEmpty_nil, if_true, pure, Except.pure]
    cases limits with
    | none => simp [eq_comm]
    | some limits => simp [eq_comm]

/-- The fields of the limits that a configuration names; none if it names no limits. -/
def Names (fields bounds : List (String × List Char)) : Prop :=
  valuesOf "limits" fields = [] ∧ bounds = [] ∨
    ∃ value, valuesOf "limits" fields = [value] ∧ Object bounds value

/-- A configuration is read just if its limits override the defaults as its text names them. -/
theorem read_iff {fields bounds : List (String × List Char)} {text : String}
    (h : Document fields text) (hnames : Names fields bounds) (config : Config) :
    Config.read text = .ok config ↔ Overrides bounds config.limits := by
  rcases hnames with ⟨hnone, rfl⟩ | ⟨value, hvalue, hobject⟩
  · rw [read_of_gathers h (gathers_config_nil hnone none)]
    constructor
    · rintro (⟨-, rfl⟩ | ⟨_, hnone, -⟩)
      · exact fun b => .inl ⟨rfl, rfl⟩
      · cases hnone
    · intro hoverrides
      have hdefault : config.limits = {} := limits_ext fun b => by
        rcases hoverrides b with ⟨-, hdefault⟩ | ⟨_, _, hnone, -⟩
        · exact hdefault
        · cases hnone
      exact .inl ⟨rfl, by cases config; exact congrArg Config.mk hdefault⟩
  · obtain ⟨out, htakes, hiff⟩ := takes_limits hobject
    rw [read_of_gathers h (gathers_config_cons hvalue htakes), if_pos rfl, ← hiff]
    cases config
    cases out <;> simp [eq_comm]

/-- Limits that are named twice are refused. -/
theorem read_again {fields : List (String × List Char)} {text : String} (h : Document fields text)
    (hobjects : ∀ value ∈ valuesOf "limits" fields, ∃ bounds, Object bounds value)
    (hagain : 1 < (valuesOf "limits" fields).length) (config : Config) :
    Config.read text ≠ .ok config := by
  match hvalues : valuesOf "limits" fields with
  | [] | [_] => simp [hvalues] at hagain
  | value :: other :: others =>
    obtain ⟨bounds, hobject⟩ := hobjects value (by simp [hvalues])
    obtain ⟨out, htakes, -⟩ := takes_limits hobject
    have hgathers := gathers_config_cons hvalues htakes
    rw [if_neg (by simp)] at hgathers
    rw [Ne, read_of_gathers h hgathers]
    simp

theorem exists_error {α : Type} {result : Except Fault α} (h : ∀ a, result ≠ .ok a) :
    ∃ fault, result = .error fault := by
  cases result with
  | error fault => exact ⟨fault, rfl⟩
  | ok a => exact absurd rfl (h a)

/-- **Partial configurations.**  Of an object where `limits` are objects, if there are any, the
limits that are named have the values given and the others their defaults, whatever other fields
there are and however all are ordered.  What is given twice, or is no natural number below 2^64, is
refused. -/
theorem read_partial {fields : List (String × List Char)} {text : String}
    (htext : Document fields text)
    (hobjects : ∀ value ∈ valuesOf "limits" fields, ∃ bounds, Object bounds value) :
    (∀ bounds, Names fields bounds → (∀ b : Bound, b.Proper bounds) →
      ∃ limits : Limits, Config.read text = .ok { limits } ∧ ∀ b : Bound,
        (valuesOf b.name bounds = [] → b.of limits = b.of {}) ∧
        ∀ value ∈ valuesOf b.name bounds, Natural (b.of limits).toNat value) ∧
    (∀ bounds, Names fields bounds → ∀ b : Bound, ¬ b.Proper bounds →
      ∃ fault, Config.read text = .error fault) ∧
    (1 < (valuesOf "limits" fields).length → ∃ fault, Config.read text = .error fault) ∧
    ∀ bounds fields' bounds' text', Names fields bounds → Document fields' text' →
      Names fields' bounds' → bounds'.Perm bounds → ∀ config, Config.read text = .ok config →
        Config.read text' = .ok config := by
  refine ⟨fun bounds hnames hproper => ?_, fun bounds hnames b hnot => ?_, fun hagain => ?_,
    fun bounds fields' bounds' text' hnames htext' hnames' hperm config hread => ?_⟩
  · obtain ⟨limits, hoverrides⟩ := exists_overrides hproper
    exact ⟨limits, (read_iff htext hnames _).mpr hoverrides, hoverrides.of⟩
  · exact exists_error fun config hread => hnot (((read_iff htext hnames config).mp hread).proper b)
  · exact exists_error (read_again htext hobjects hagain)
  · rw [read_iff htext hnames] at hread
    exact (read_iff htext' hnames' config).mpr (hread.perm hperm)

/-- Of two limits that are named, both count, and the others keep their defaults. -/
theorem read_partial_two :
    let bounds := [("max_nodes", "7".toList), ("y", "null".toList), ("max_tag_len", "3".toList)]
    let object := "\x7b\"max_nodes\":7,\"y\":null,\"max_tag_len\":3\x7d".toList
    let fields := [("x", "[true]".toList), ("limits", object)]
    let text :=
      "\x7b\"x\":[true],\"limits\":\x7b\"max_nodes\":7,\"y\":null,\"max_tag_len\":3\x7d\x7d"
    Document fields text ∧ (∀ value ∈ valuesOf "limits" fields, ∃ bounds, Object bounds value) ∧
      Names fields bounds ∧ ∃ limits : Limits, Config.read text = .ok { limits } ∧
        Natural limits.maxNodes.toNat "7".toList ∧ Natural limits.maxTagLen.toNat "3".toList ∧
        limits.maxPathLen = 4096 ∧ limits.maxLoadPaths = 256 := by
  intro bounds object fields text
  have hfirst : Lead true [] := .first blank_nil
  have hcomma : Lead false [','] := .comma blank_nil blank_nil
  have hwhole (c : Char) (hc : c.isDigit = true) : WholePart [c] :=
    ⟨⟨List.cons_ne_nil c [], by simpa using hc⟩, fun _ => rfl⟩
  have hdigit (c : Char) (hc : c.isDigit = true) : Magnitude [c] :=
    .parts (hwhole c hc) .none .none
  have hbounds : FieldsText true bounds
      "\"max_nodes\":7,\"y\":null,\"max_tag_len\":3\x7d".toList :=
    .field hfirst (nameText_plain rfl) blank_nil blank_nil (.number (hdigit '7' rfl))
      (.field hcomma (nameText_plain rfl) blank_nil blank_nil .null
        (.field hcomma (nameText_plain rfl) blank_nil blank_nil (.number (hdigit '3' rfl))
          (.close blank_nil)))
  have hobject : Object bounds object := ⟨_, rfl, hbounds⟩
  have hfields : FieldsText true fields
      "\"x\":[true],\"limits\":\x7b\"max_nodes\":7,\"y\":null,\"max_tag_len\":3\x7d\x7d".toList :=
    .field hfirst (nameText_plain rfl) blank_nil blank_nil
      (.array (.item hfirst (.bool true) (.close blank_nil)))
      (.field hcomma (nameText_plain rfl) blank_nil blank_nil hobject.valueText
        (.close blank_nil))
  have htext : Document fields text :=
    ⟨[], text.toList, [], blank_nil, ⟨_, by simp [text], hfields⟩, blank_nil, by simp⟩
  have hobjects : ∀ value ∈ valuesOf "limits" fields, ∃ bounds, Object bounds value := by
    intro value hvalue
    obtain rfl : value = object := by simpa [fields, valuesOf] using hvalue
    exact ⟨bounds, hobject⟩
  have hnames : Names fields bounds := .inr ⟨object, by simp [fields, valuesOf], hobject⟩
  have hproper : ∀ b : Bound, b.Proper bounds
    | .tagLen => .inr ⟨['3'], rfl, 3, by decide, hwhole '3' rfl, rfl⟩
    | .nodes => .inr ⟨['7'], rfl, 7, by decide, hwhole '7' rfl, rfl⟩
    | .loadPaths | .pathLen => .inl rfl
  obtain ⟨limits, hread, hlimits⟩ := (read_partial htext hobjects).1 bounds hnames hproper
  exact ⟨htext, hobjects, hnames, limits, hread, (hlimits .nodes).2 _ List.mem_cons_self,
    (hlimits .tagLen).2 _ List.mem_cons_self, (hlimits .pathLen).1 rfl, (hlimits .loadPaths).1 rfl⟩

end Config

end ForeignCall
