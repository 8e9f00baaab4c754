import ForeignCall.Proofs.Doubles
import ForeignCall.Value.View

/-!
# ForeignCall.Proofs.NormalForm

Values that are seen as JSON and read again, and JSON that is read and seen
again.

JSON has one kind of integer and one of floating point numbers, no numbers that
are not finite, and neither functions nor pointers.  So a value comes back in a
normal form (`Value.ReadsBack`), which seen again is the same JSON, and it comes
back as it was if it is in normal form already (`Value.Plain`).  JSON comes back
as it was unless there is an integer in it that no signed word holds
(`Json.Signed`).

`Value.toJson_ofJson_exact` — both ways.
-/

namespace ForeignCall

theorem Json.ofBinary64_of_finite {x : Binary64} (finite : x.isFinite = true) :
    Json.ofBinary64 x = .number (.real x finite) :=
  dif_pos finite

/-! ## Values in normal form -/

namespace Value

/-- The number of an integer of any width. -/
def integer? : Value → Option Int
  | .s8 n => some n.toInt
  | .s16 n => some n.toInt
  | .s32 n => some n.toInt
  | .s64 n => some n.toInt
  | _ => none

/-- What a floating point number of either width stands for. -/
def datum? : Value → Option Datum
  | .f32 x => some x.datum
  | .f64 x => some x.datum
  | _ => none

mutual

/-- The second value is the first in normal form: integers have 64 bits, finite numbers double
precision, numbers that are not finite are null, and functions and pointers are strings. -/
inductive ReadsBack : Value → Value → Prop where
  | null : ReadsBack .null .null
  | bool (b : Bool) : ReadsBack (.bool b) (.bool b)
  | integer {v : Value} {n : Int64} : v.integer? = some n.toInt → ReadsBack v (.s64 n)
  | finite {v : Value} {d : Datum} {x : Binary64} :
      v.datum? = some d → d.Finite → x.datum.Same d → ReadsBack v (.f64 x)
  | notFinite {v : Value} {d : Datum} : v.datum? = some d → ¬ d.Finite → ReadsBack v .null
  | string (s : String) : ReadsBack (.string s) (.string s)
  | array {items items' : List Value} : ReadsBackAll items items' →
      ReadsBack (.array items) (.array items')
  | map {entries entries' : List (String × Value)} : ReadsBackEntries entries entries' →
      ReadsBack (.map entries) (.map entries')
  | function (name : String) :
      ReadsBack (.function name) (.string ("<function " ++ name ++ ">"))
  | ptr (address : UInt64) :
      ReadsBack (.ptr address) (.string ("<ptr 0x" ++ Quoted.hex address.toNat ++ ">"))

/-- The same for the items of an array, in order. -/
inductive ReadsBackAll : List Value → List Value → Prop where
  | nil : ReadsBackAll [] []
  | cons {v w : Value} {vs ws : List Value} : ReadsBack v w → ReadsBackAll vs ws →
      ReadsBackAll (v :: vs) (w :: ws)

/-- The same for the entries of a map, with the same keys. -/
inductive ReadsBackEntries : List (String × Value) → List (String × Value) → Prop where
  | nil : ReadsBackEntries [] []
  | cons {key : String} {v w : Value} {vs ws : List (String × Value)} : ReadsBack v w →
      ReadsBackEntries vs ws → ReadsBackEntries ((key, v) :: vs) ((key, w) :: ws)

end

mutual

/-- A value is made of nothing but null, truth values, integers of 64 bits, finite doubles and
strings, in arrays and maps. -/
def Plain : Value → Prop
  | .null | .bool _ | .s64 _ | .string _ => True
  | .f64 x => x.datum.Finite
  | .array items => PlainItems items
  | .map entries => PlainEntries entries
  | _ => False

/-- The same for the items of an array. -/
def PlainItems : List Value → Prop
  | [] => True
  | v :: rest => v.Plain ∧ PlainItems rest

/-- The same for the entries of a map. -/
def PlainEntries : List (String × Value) → Prop
  | [] => True
  | (_, v) :: rest => v.Plain ∧ PlainEntries rest

end

/-! ### There and back -/

theorem ofJson_ofInt64 (n : Int64) : ofJson (.ofInt64 n) = .s64 n := by
  rw [Json.ofInt64, ofJson, ofNumber, Json.Number.toInt64?, if_pos n.toInt_lt]
  exact congrArg Value.s64 (Int64.ofInt_toInt n)

theorem ofJson_ofBinary64 {x : Binary64} (hfinite : x.datum.Finite) :
    ofJson (.ofBinary64 x) = .f64 x := by
  rw [Json.ofBinary64_of_finite (Binary64.isFinite_iff.mpr hfinite)]
  rfl

theorem ofJson_ofBinary64_not {x : Binary64} (hfinite : ¬ x.datum.Finite) :
    ofJson (.ofBinary64 x) = .null := by
  rw [Json.ofBinary64, dif_neg (mt Binary64.isFinite_iff.mp hfinite)]
  rfl

theorem readsBack_integer {v : Value} {n : Int64} (hv : v.integer? = some n.toInt) :
    v.ReadsBack (ofJson (.ofInt64 n)) := by
  rw [ofJson_ofInt64]
  exact .integer hv

/-- A double is read back as itself, or as null. -/
theorem readsBack_double {v : Value} {d : Datum} {x : Binary64} (hv : v.datum? = some d)
    (hx : x.datum.Same d) : v.ReadsBack (ofJson (.ofBinary64 x)) := by
  by_cases hfinite : d.Finite
  · rw [ofJson_ofBinary64 (hx.finite_iff.mpr hfinite)]
    exact .finite hv hfinite hx
  · rw [ofJson_ofBinary64_not (mt hx.finite_iff.mp hfinite)]
    exact .notFinite hv hfinite

mutual

/-- A value is read back in normal form. -/
theorem readsBack_ofJson : ∀ v : Value, v.ReadsBack (ofJson v.toJson)
  | .null => .null
  | .bool b => .bool b
  | .s8 n => readsBack_integer (congrArg some n.toInt_toInt64.symm)
  | .s16 n => readsBack_integer (congrArg some n.toInt_toInt64.symm)
  | .s32 n => readsBack_integer (congrArg some n.toInt_toInt64.symm)
  | .s64 _ => readsBack_integer rfl
  | .f32 x => readsBack_double rfl x.toBinary64_same
  | .f64 _ => readsBack_double rfl (.refl _)
  | .string s => .string s
  | .array items => .array (readsBackAll_ofJson items)
  | .map entries => .map (readsBackEntries_ofJson entries)
  | .function name => .function name
  | .ptr address => .ptr address

theorem readsBackAll_ofJson : ∀ items : List Value,
    ReadsBackAll items (ofJsonItems (toJsonItems items))
  | [] => .nil
  | v :: rest => .cons (readsBack_ofJson v) (readsBackAll_ofJson rest)

theorem readsBackEntries_ofJson : ∀ entries : List (String × Value),
    ReadsBackEntries entries (ofJsonFields (toJsonFields entries))
  | [] => .nil
  | (_, v) :: rest => .cons (readsBack_ofJson v) (readsBackEntries_ofJson rest)

end

/-- Integers of all widths are seen as JSON by their number. -/
theorem toJson_of_integer? {v : Value} {n : Int64} (hv : v.integer? = some n.toInt) :
    v.toJson = .ofInt64 n := by
  cases v with
  | s8 m =>
    have heq : m.toInt64 = n := Int64.toInt_inj.mp (m.toInt_toInt64.trans (Option.some.inj hv))
    rw [toJson, heq]
  | s16 m =>
    have heq : m.toInt64 = n := Int64.toInt_inj.mp (m.toInt_toInt64.trans (Option.some.inj hv))
    rw [toJson, heq]
  | s32 m =>
    have heq : m.toInt64 = n := Int64.toInt_inj.mp (m.toInt_toInt64.trans (Option.some.inj hv))
    rw [toJson, heq]
  | s64 m => rw [toJson, Int64.toInt_inj.mp (Option.some.inj hv)]
  | _ => cases hv

/-- Floating point numbers of both widths are seen as JSON by a double that is the same number. -/
theorem toJson_of_datum? {v : Value} {d : Datum} (hv : v.datum? = some d) :
    ∃ x : Binary64, v.toJson = .ofBinary64 x ∧ x.datum.Same d := by
  cases v with
  | f32 x =>
    cases hv
    exact ⟨_, rfl, x.toBinary64_same⟩
  | f64 x =>
    cases hv
    exact ⟨_, rfl, .refl _⟩
  | _ => cases hv

mutual

/-- There is no other normal form than what is read back. -/
theorem ReadsBack.ofJson_eq : ∀ {v w : Value}, v.ReadsBack w → ofJson v.toJson = w
  | _, _, .null => rfl
  | _, _, .bool _ => rfl
  | _, _, .integer hv => by rw [toJson_of_integer? hv, ofJson_ofInt64]
  | _, _, .finite hv hfinite hx => by
    obtain ⟨y, hy, hsame⟩ := toJson_of_datum? hv
    have hyfinite : y.datum.Finite := hsame.finite_iff.mpr hfinite
    rw [hy, ofJson_ofBinary64 hyfinite, Binary64.eq_of_same hyfinite (hsame.trans hx.symm)]
  | _, _, .notFinite hv hfinite => by
    obtain ⟨y, hy, hsame⟩ := toJson_of_datum? hv
    rw [hy, ofJson_ofBinary64_not (mt hsame.finite_iff.mp hfinite)]
  | _, _, .string _ => rfl
  | _, _, .array hall => congrArg Value.array hall.ofJsonItems_eq
  | _, _, .map hall => congrArg Value.map hall.ofJsonFields_eq
  | _, _, .function _ => rfl
  | _, _, .ptr _ => rfl

theorem ReadsBackAll.ofJsonItems_eq : ∀ {vs ws : List Value}, ReadsBackAll vs ws →
    ofJsonItems (toJsonItems vs) = ws
  | _, _, .nil => rfl
  | _, _, .cons hfirst hrest => by
    rw [toJsonItems, ofJsonItems, hfirst.ofJson_eq, hrest.ofJsonItems_eq]

theorem ReadsBackEntries.ofJsonFields_eq : ∀ {vs ws : List (String × Value)},
    ReadsBackEntries vs ws → ofJsonFields (toJsonFields vs) = ws
  | _, _, .nil => rfl
  | _, _, .cons hfirst hrest => by
    rw [toJsonFields, ofJsonFields, hfirst.ofJson_eq, hrest.ofJsonFields_eq]

end

theorem ofJson_toJson_iff {v w : Value} : ofJson v.toJson = w ↔ v.ReadsBack w :=
  ⟨fun h => h ▸ readsBack_ofJson v, ReadsBack.ofJson_eq⟩

/-! ### Values that come back as they were -/

mutual

/-- A value in normal form comes back as it was. -/
theorem ofJson_toJson_of_plain : ∀ {v : Value}, v.Plain → ofJson v.toJson = v
  | .null, _ => rfl
  | .bool _, _ => rfl
  | .s64 n, _ => ofJson_ofInt64 n
  | .f64 _, hfinite => ofJson_ofBinary64 hfinite
  | .string _, _ => rfl
  | .array _, hall => congrArg Value.array (ofJsonItems_toJsonItems_of_plain hall)
  | .map _, hall => congrArg Value.map (ofJsonFields_toJsonFields_of_plain hall)

theorem ofJsonItems_toJsonItems_of_plain : ∀ {items : List Value}, PlainItems items →
    ofJsonItems (toJsonItems items) = items
  | [], _ => rfl
  | _ :: _, ⟨hfirst, hrest⟩ => by
    rw [toJsonItems, ofJsonItems, ofJson_toJson_of_plain hfirst,
      ofJsonItems_toJsonItems_of_plain hrest]

theorem ofJsonFields_toJsonFields_of_plain : ∀ {entries : List (String × Value)},
    PlainEntries entries → ofJsonFields (toJsonFields entries) = entries
  | [], _ => rfl
  | (_, _) :: _, ⟨hfirst, hrest⟩ => by
    rw [toJsonFields, ofJsonFields, ofJson_toJson_of_plain hfirst,
      ofJsonFields_toJsonFields_of_plain hrest]

end

/-- An integer too long for a signed word is read as the nearest double. -/
theorem plain_ofNumber (n : Json.Number) : (ofNumber n).Plain := by
  cases n with
  | integer n lower upper =>
    by_cases hsigned : n < 2 ^ 63
    · rw [ofNumber, Json.Number.toInt64?, if_pos hsigned]
      trivial
    · rw [ofNumber, Json.Number.toInt64?, if_neg hsigned]
      have hbits : n.natAbs < 2 ^ 64 := by omega
      exact Binary64.isFinite_iff.mp (Binary64.ofInt_nearest hbits).isFinite
  | real x finite => exact Binary64.isFinite_iff.mp finite

mutual

/-- Whatever is read from JSON is in normal form. -/
theorem plain_ofJson : ∀ j : Json, (ofJson j).Plain
  | .null => trivial
  | .bool _ => trivial
  | .number n => plain_ofNumber n
  | .string _ => trivial
  | .array items => plainItems_ofJsonItems items
  | .object fields => plainEntries_ofJsonFields fields

theorem plainItems_ofJsonItems : ∀ items : List Json, PlainItems (ofJsonItems items)
  | [] => trivial
  | j :: rest => ⟨plain_ofJson j, plainItems_ofJsonItems rest⟩

theorem plainEntries_ofJsonFields : ∀ fields : List (String × Json),
    PlainEntries (ofJsonFields fields)
  | [] => trivial
  | (_, j) :: rest => ⟨plain_ofJson j, plainEntries_ofJsonFields rest⟩

end

/-- The values that come back as they were are those in normal form. -/
theorem ofJson_toJson_eq_self_iff {v : Value} : ofJson v.toJson = v ↔ v.Plain :=
  ⟨fun h => h ▸ plain_ofJson v.toJson, ofJson_toJson_of_plain⟩

/-! ### Values that come back equal -/

mutual

/-- A value in normal form is equal to itself: there is no number in it that is not one. -/
theorem equal_self_of_plain : ∀ {v : Value}, v.Plain → v.equal v = true
  | .null, _ => rfl
  | .bool _, _ => decide_eq_true rfl
  | .s64 _, _ => decide_eq_true rfl
  | .f64 _, hfinite => Binary64.equal_self hfinite
  | .string _, _ => decide_eq_true rfl
  | .array _, hall => equalItems_self_of_plain hall
  | .map _, hall => equalEntries_self_of_plain hall

theorem equalItems_self_of_plain : ∀ {items : List Value}, PlainItems items →
    equalItems items items = true
  | [], _ => rfl
  | _ :: _, ⟨hfirst, hrest⟩ => by
    rw [equalItems, equal_self_of_plain hfirst, equalItems_self_of_plain hrest]
    rfl

theorem equalEntries_self_of_plain : ∀ {entries : List (String × Value)}, PlainEntries entries →
    equalEntries entries entries = true
  | [], _ => rfl
  | (_, _) :: _, ⟨hfirst, hrest⟩ => by
    simp [equalEntries, equal_self_of_plain hfirst, equalEntries_self_of_plain hrest]

end

mutual

/-- What is equal to a value in normal form is in normal form. -/
theorem plain_of_equal : ∀ {v w : Value}, v.Plain → v.equal w = true → w.Plain
  | .null, w, _, h => by cases w <;> trivial
  | .bool _, w, _, h => by cases w <;> trivial
  | .s64 _, w, _, h => by cases w <;> trivial
  | .string _, w, _, h => by cases w <;> trivial
  | .f64 x, w, hfinite, h => by
    cases w with
    | f64 y => exact Binary64.finite_of_equal h hfinite
    | _ => cases h
  | .array items, w, hall, h => by
    cases w with
    | array items' => exact plainItems_of_equal hall h
    | _ => cases h
  | .map entries, w, hall, h => by
    cases w with
    | map entries' => exact plainEntries_of_equal hall h
    | _ => cases h

theorem plainItems_of_equal : ∀ {vs ws : List Value}, PlainItems vs → equalItems vs ws = true →
    PlainItems ws
  | [], [], _, _ => trivial
  | _ :: _, _ :: _, ⟨hfirst, hrest⟩, h => by
    obtain ⟨hequal, hequals⟩ := Bool.and_eq_true_iff.mp h
    exact ⟨plain_of_equal hfirst hequal, plainItems_of_equal hrest hequals⟩

theorem plainEntries_of_equal : ∀ {vs ws : List (String × Value)}, PlainEntries vs →
    equalEntries vs ws = true → PlainEntries ws
  | [], [], _, _ => trivial
  | (_, _) :: _, (_, _) :: _, ⟨hfirst, hrest⟩, h => by
    obtain ⟨hkey, hequals⟩ := Bool.and_eq_true_iff.mp h
    have hequal := (Bool.and_eq_true_iff.mp hkey).2
    exact ⟨plain_of_equal hfirst hequal, plainEntries_of_equal hrest hequals⟩

end

/-- The values that come back equal are those in normal form too. -/
theorem equal_ofJson_toJson_iff {v : Value} : (ofJson v.toJson).equal v = true ↔ v.Plain := by
  refine ⟨plain_of_equal (plain_ofJson v.toJson), fun hplain => ?_⟩
  rw [ofJson_toJson_of_plain hplain]
  exact equal_self_of_plain hplain

end Value

/-! ## JSON that comes back -/

namespace Json

mutual

/-- JSON without integers above those of a signed word. -/
def Signed : Json → Prop
  | .number (.integer n _ _) => n < 2 ^ 63
  | .array items => SignedItems items
  | .object fields => SignedFields fields
  | _ => True

/-- The same for the items of an array. -/
def SignedItems : List Json → Prop
  | [] => True
  | j :: rest => j.Signed ∧ SignedItems rest

/-- The same for the fields of an object. -/
def SignedFields : List (String × Json) → Prop
  | [] => True
  | (_, j) :: rest => j.Signed ∧ SignedFields rest

end

theorem signed_ofBinary64 (x : Binary64) : (ofBinary64 x).Signed := by
  unfold ofBinary64
  split <;> trivial

end Json

namespace Value

mutual

/-- No value is seen as an integer above those of a signed word. -/
theorem signed_toJson : ∀ v : Value, v.toJson.Signed
  | .null => trivial
  | .bool _ => trivial
  | .s8 n => n.toInt64.toInt_lt
  | .s16 n => n.toInt64.toInt_lt
  | .s32 n => n.toInt64.toInt_lt
  | .s64 n => n.toInt_lt
  | .f32 x => Json.signed_ofBinary64 x.toBinary64
  | .f64 x => Json.signed_ofBinary64 x
  | .string _ => trivial
  | .array items => signed_toJsonItems items
  | .map entries => signed_toJsonFields entries
  | .function _ => trivial
  | .ptr _ => trivial

theorem signed_toJsonItems : ∀ items : List Value, Json.SignedItems (toJsonItems items)
  | [] => trivial
  | v :: rest => ⟨signed_toJson v, signed_toJsonItems rest⟩

theorem signed_toJsonFields : ∀ entries : List (String × Value),
    Json.SignedFields (toJsonFields entries)
  | [] => trivial
  | (_, v) :: rest => ⟨signed_toJson v, signed_toJsonFields rest⟩

end

/-- An integer above those of a signed word comes back as a double, and stays one. -/
theorem toJson_ofNumber_iff (n : Json.Number) :
    (ofNumber n).toJson = .number n ↔ (Json.number n).Signed := by
  cases n with
  | integer n lower upper =>
    by_cases hsigned : n < 2 ^ 63
    · rw [ofNumber, Json.Number.toInt64?, if_pos hsigned]
      refine iff_of_true ?_ hsigned
      have hword : (Int64.ofInt n).toInt = n := Int64.toInt_ofInt_of_le lower hsigned
      simp [toJson, Json.ofInt64, hword]
    · rw [ofNumber, Json.Number.toInt64?, if_neg hsigned]
      -- the double may be the same number, but it is not the same JSON
      refine iff_of_false (fun h => ?_) hsigned
      have hbits : n.natAbs < 2 ^ 64 := by omega
      rw [Json.Number.toBinary64, toJson,
        Json.ofBinary64_of_finite (Binary64.ofInt_nearest hbits).isFinite] at h
      cases h
  | real x finite => exact iff_of_true (Json.ofBinary64_of_finite finite) trivial

mutual

/-- JSON comes back as it was unless there is an integer above those of a signed word in it. -/
theorem toJson_ofJson_iff : ∀ j : Json, (ofJson j).toJson = j ↔ j.Signed
  | .null => iff_of_true rfl trivial
  | .bool _ => iff_of_true rfl trivial
  | .number n => toJson_ofNumber_iff n
  | .string _ => iff_of_true rfl trivial
  | .array items => by
    rw [ofJson, toJson, Json.array.injEq, toJsonItems_ofJsonItems_iff, Json.Signed]
  | .object fields => by
    rw [ofJson, toJson, Json.object.injEq, toJsonFields_ofJsonFields_iff, Json.Signed]

theorem toJsonItems_ofJsonItems_iff : ∀ items : List Json,
    toJsonItems (ofJsonItems items) = items ↔ Json.SignedItems items
  | [] => iff_of_true rfl trivial
  | j :: rest => by
    rw [ofJsonItems, toJsonItems, List.cons.injEq, toJson_ofJson_iff j,
      toJsonItems_ofJsonItems_iff rest, Json.SignedItems]

theorem toJsonFields_ofJsonFields_iff : ∀ fields : List (String × Json),
    toJsonFields (ofJsonFields fields) = fields ↔ Json.SignedFields fields
  | [] => iff_of_true rfl trivial
  | (key, j) :: rest => by
    rw [ofJsonFields, toJsonFields, List.cons.injEq, Prod.mk.injEq, toJson_ofJson_iff j,
      toJsonFields_ofJsonFields_iff rest, Json.SignedFields]
    exact and_congr_left' (and_iff_right rfl)

end

/-- **There and back**: what is seen of a value, read and seen again, is the same; the value that is
read is the normal form of the value that was seen, which is that value itself — the same, or
equal — just if it was in normal form.  JSON that is read and seen is the same just if there is no
integer above those of a signed word in it. -/
theorem toJson_ofJson_exact :
    (∀ v : Value, (ofJson v.toJson).toJson = v.toJson ∧
      (ofJson v.toJson = v ↔ v.Plain) ∧
      ((ofJson v.toJson).equal v = true ↔ v.Plain) ∧
      ∀ w, ofJson v.toJson = w ↔ v.ReadsBack w) ∧
    ∀ j : Json, (ofJson j).toJson = j ↔ j.Signed :=
  ⟨fun v => ⟨(toJson_ofJson_iff v.toJson).mpr (signed_toJson v), ofJson_toJson_eq_self_iff,
    equal_ofJson_toJson_iff, fun _ => ofJson_toJson_iff⟩, toJson_ofJson_iff⟩

end Value

end ForeignCall
