import ForeignCall.Proofs.Growth

/-!
# ForeignCall.Proofs.Coercion

The text of a value, whatever refers to whatever.

`Shows` says what is written for a value so many arrays below the one that is
coerced: the texts of its items between commas for an array, from left to
right, up to the first that has none.  It follows handles through arrays only,
and no farther than `maxNesting` of them, so every value has an answer and none
has two, in cycles too.

What is reached in this way is said on its own (`Opens`), without a bound: a
value has no text if and only if something is reached that has none, or an
array beyond the bound (`Faulty`).  An array that reaches itself is reached at
all depths, and hence beyond the bound.

`coerceToString_exact` — all of this for the host's own request.
-/

namespace ForeignCall

/-- A value without a look at what is inside an object. -/
def HostValue.closed : HostValue → HostValue
  | .object _ => .object []
  | v => v

namespace Arena

/-! ## Rules -/

mutual

/-- A value has this text, or none for this reason, so many arrays below the one that is
coerced. -/
inductive Shows (a : Arena) : Nat → Handle → Except HostError String → Prop where
  | missing {depth : Nat} {h : Handle} {e : HostError} :
      a.get h = .error e → Shows a depth h (.error e)
  | plain {depth : Nat} {h : Handle} {v : HostValue} :
      a.get h = .ok v → (∀ items, v ≠ .array items) → Shows a depth h (plainText v)
  | array {depth : Nat} {h : Handle} {items : List Handle} {r : Except HostError (List String)} :
      a.get h = .ok (.array items) → depth ≤ maxNesting → ShowsAll a (depth + 1) items r →
      Shows a depth h (r.map (",".intercalate ·))
  | deep {depth : Nat} {h : Handle} {items : List Handle} :
      a.get h = .ok (.array items) → maxNesting < depth → Shows a depth h (.error .arraysTooDeep)

/-- The items of an array have these texts, where undefined and null are empty, or one of them has
none for this reason, and those before it have one. -/
inductive ShowsAll (a : Arena) : Nat → List Handle → Except HostError (List String) → Prop where
  | nil {depth : Nat} : ShowsAll a depth [] (.ok [])
  | nullish {depth : Nat} {item : Handle} {items : List Handle} {v : HostValue}
      {r : Except HostError (List String)} :
      a.get item = .ok v → v.isNullish = true → ShowsAll a depth items r →
      ShowsAll a depth (item :: items) (r.map ("" :: ·))
  | text {depth : Nat} {item : Handle} {items : List Handle} {v : HostValue} {text : String}
      {r : Except HostError (List String)} :
      a.get item = .ok v → v.isNullish = false → Shows a depth item (.ok text) →
      ShowsAll a depth items r → ShowsAll a depth (item :: items) (r.map (text :: ·))
  | failed {depth : Nat} {item : Handle} {items : List Handle} {e : HostError} :
      Shows a depth item (.error e) → ShowsAll a depth (item :: items) (.error e)

end

/-- Writing out a value comes to another, so many arrays below it. -/
inductive Opens (a : Arena) (root : Handle) : Nat → Handle → Prop where
  | root : Opens a root 0 root
  | item {depth : Nat} {h item : Handle} {items : List Handle} :
      Opens a root depth h → a.get h = .ok (.array items) → item ∈ items →
      Opens a root (depth + 1) item

/-- A value so many arrays below the one that is coerced has no text of its own: it is missing, a
symbol, or an array too far down. -/
def Faulty (a : Arena) (depth : Nat) (h : Handle) : Prop :=
  (∃ e, a.get h = .error e) ∨ a.get h = .ok .symbol ∨
    maxNesting < depth ∧ ∃ items, a.get h = .ok (.array items)

/-- Two arenas differ inside objects at most. -/
def SameOutsideObjects (a b : Arena) : Prop :=
  ∀ h, (a.get h).map HostValue.closed = (b.get h).map HostValue.closed

variable {a b : Arena} {depth levels : Nat} {h g f : Handle}

/-! ## One answer -/

/-- Undefined and null have a text, though none is written for them in an array. -/
theorem Shows.of_nullish {v : HostValue} {r : Except HostError String} (hget : a.get h = .ok v)
    (hnullish : v.isNullish = true) (hs : a.Shows depth h r) : ∃ text, r = .ok text := by
  cases hs with
  | missing hget' => cases hget.symm.trans hget'
  | plain hget' _ =>
    cases hget.symm.trans hget'
    cases v with
    | undefined => exact ⟨_, rfl⟩
    | null => exact ⟨_, rfl⟩
    | _ => cases hnullish
  | array hget' _ _ =>
    cases hget.symm.trans hget'
    cases hnullish
  | deep hget' _ =>
    cases hget.symm.trans hget'
    cases hnullish

mutual

/-- No value has two answers. -/
theorem Shows.unique {depth : Nat} {h : Handle} {r r' : Except HostError String} :
    a.Shows depth h r → a.Shows depth h r' → r = r'
  | .missing hget, hs => by
    cases hs with
    | missing hget' => exact congrArg _ (Except.error.inj (hget.symm.trans hget'))
    | plain hget' _ => cases hget.symm.trans hget'
    | array hget' _ _ => cases hget.symm.trans hget'
    | deep hget' _ => cases hget.symm.trans hget'
  | .plain hget hplain, hs => by
    cases hs with
    | missing hget' => cases hget.symm.trans hget'
    | plain hget' _ => exact congrArg plainText (Except.ok.inj (hget.symm.trans hget'))
    | array hget' _ _ => exact absurd (Except.ok.inj (hget.symm.trans hget')) (hplain _)
    | deep hget' _ => exact absurd (Except.ok.inj (hget.symm.trans hget')) (hplain _)
  | .array hget hdepth hall, hs => by
    cases hs with
    | missing hget' => cases hget.symm.trans hget'
    | plain hget' hplain => exact absurd (Except.ok.inj (hget'.symm.trans hget)) (hplain _)
    | array hget' _ hall' =>
      cases hget.symm.trans hget'
      rw [hall.unique hall']
    | deep _ hdeep => exact absurd hdepth (Nat.not_le.mpr hdeep)
  | .deep hget hdeep, hs => by
    cases hs with
    | missing hget' => cases hget.symm.trans hget'
    | plain hget' hplain => exact absurd (Except.ok.inj (hget'.symm.trans hget)) (hplain _)
    | array _ hdepth _ => exact absurd hdepth (Nat.not_le.mpr hdeep)
    | deep _ _ => rfl

theorem ShowsAll.unique {depth : Nat} {items : List Handle}
    {r r' : Except HostError (List String)} :
    a.ShowsAll depth items r → a.ShowsAll depth items r' → r = r'
  | .nil, .nil => rfl
  | .nullish hget hnullish hrest, hs => by
    cases hs with
    | nullish _ _ hrest' => rw [hrest.unique hrest']
    | text hget' hsolid _ _ =>
      cases hget.symm.trans hget'
      cases hnullish.symm.trans hsolid
    | failed hfirst => cases (hfirst.of_nullish hget hnullish).choose_spec
  | .text hget hsolid hfirst hrest, hs => by
    cases hs with
    | nullish hget' hnullish _ =>
      cases hget.symm.trans hget'
      cases hnullish.symm.trans hsolid
    | text _ _ hfirst' hrest' => rw [Except.ok.inj (hfirst.unique hfirst'), hrest.unique hrest']
    | failed hfirst' => cases hfirst.unique hfirst'
  | .failed hfirst, hs => by
    cases hs with
    | nullish hget hnullish _ => cases (hfirst.of_nullish hget hnullish).choose_spec
    | text _ _ hfirst' _ => cases hfirst.unique hfirst'
    | failed hfirst' => exact congrArg _ (Except.error.inj (hfirst.unique hfirst'))

end

/-! ## Every answer -/

theorem display_missing {e : HostError} (hget : a.get h = .error e) :
    a.display levels h = .error e := by
  cases levels <;> rw [display, hget] <;> rfl

theorem display_plain {v : HostValue} (hget : a.get h = .ok v)
    (hplain : ∀ items, v ≠ .array items) :
    a.display levels h = plainText v := by
  cases levels with
  | zero =>
    rw [display, hget]
    rfl
  | succ levels =>
    rw [display, hget]
    cases v with
    | array items => exact absurd rfl (hplain items)
    | _ => rfl

/-- What is written for an item of an array. -/
def itemText (a : Arena) (levels : Nat) (item : Handle) : Except HostError String := do
  if (← a.get item).isNullish then return "" else a.display levels item

theorem display_array {items : List Handle} (hget : a.get h = .ok (.array items)) :
    a.display (levels + 1) h = (items.mapM (a.itemText levels)).map (",".intercalate ·) := by
  rw [display, hget]
  rfl

theorem itemText_of_ok {v : HostValue} (hget : a.get h = .ok v) :
    a.itemText levels h = if v.isNullish then .ok "" else a.display levels h := by
  rw [itemText, hget]
  rfl

theorem itemText_missing {e : HostError} (hget : a.get h = .error e) :
    a.itemText levels h = .error e := by
  rw [itemText, hget]
  rfl

/-- The items of an array are written from left to right. -/
theorem showsAll_itemText (hshows : ∀ item, a.Shows depth item (a.display levels item))
    (items : List Handle) : a.ShowsAll depth items (items.mapM (a.itemText levels)) := by
  induction items with
  | nil => exact .nil
  | cons item rest ih =>
    have hfirst : a.Shows depth item (a.display levels item) := hshows item
    rw [List.mapM_cons]
    cases hget : a.get item with
    | error e =>
      rw [itemText_missing hget]
      exact .failed (.missing hget)
    | ok v =>
      rw [itemText_of_ok hget]
      cases hnullish : v.isNullish with
      | true => exact .nullish hget hnullish ih
      | false =>
        cases htext : a.display levels item with
        | error e => exact .failed (htext ▸ hfirst)
        | ok text => exact .text hget hnullish (htext ▸ hfirst) ih

/-- Every value has an answer: what the host writes. -/
theorem shows_display (hlevels : depth + levels = maxNesting + 1) :
    a.Shows depth h (a.display levels h) := by
  induction levels generalizing depth h with
  | zero =>
    cases hget : a.get h with
    | error e => exact display_missing hget ▸ .missing hget
    | ok v =>
      by_cases harray : ∃ items, v = .array items
      · obtain ⟨items, rfl⟩ := harray
        rw [display, hget]
        exact .deep hget (by omega)
      · rw [not_exists] at harray
        exact display_plain hget harray ▸ .plain hget harray
  | succ levels ih =>
    cases hget : a.get h with
    | error e => exact display_missing hget ▸ .missing hget
    | ok v =>
      by_cases harray : ∃ items, v = .array items
      · obtain ⟨items, rfl⟩ := harray
        rw [display_array hget]
        exact .array hget (by omega) (showsAll_itemText (fun item => ih (by omega)) items)
      · rw [not_exists] at harray
        exact display_plain hget harray ▸ .plain hget harray

theorem shows_iff {r : Except HostError String} :
    a.Shows 0 h r ↔ a.display (maxNesting + 1) h = r := by
  have hshows : a.Shows 0 h (a.display (maxNesting + 1) h) := shows_display (Nat.zero_add _)
  exact ⟨hshows.unique, fun heq => heq ▸ hshows⟩

/-! ## Values that have no text -/

theorem map_eq_ok {ε α β : Type} {f : α → β} {r : Except ε α} {y : β} :
    r.map f = .ok y ↔ ∃ x, r = .ok x ∧ f x = y := by
  cases r <;> simp [Except.map]

theorem map_eq_error {ε α β : Type} {f : α → β} {r : Except ε α} {e : ε} :
    r.map f = .error e ↔ r = .error e := by
  cases r <;> simp [Except.map]

theorem Shows.not_faulty {text : String} (hs : a.Shows depth h (.ok text)) :
    ¬ a.Faulty depth h := by
  rintro (⟨e, hget⟩ | hget | ⟨hdeep, items, hget⟩)
  · exact nomatch hs.unique (.missing hget)
  · exact nomatch hs.unique (.plain hget nofun)
  · exact nomatch hs.unique (.deep hget hdeep)

/-- If the items of an array are written, then each has a text. -/
theorem ShowsAll.of_mem {items : List Handle} {texts : List String}
    (hall : a.ShowsAll depth items (.ok texts)) {item : Handle} (hitem : item ∈ items) :
    ∃ text, a.Shows depth item (.ok text) := by
  induction items generalizing texts with
  | nil => cases hitem
  | cons first rest ih =>
    generalize hr : Except.ok texts = r at hall
    cases hall with
    | @nullish _ _ _ v _ hget hnullish hrest =>
      obtain ⟨others, rfl, -⟩ := map_eq_ok.mp hr.symm
      rcases List.mem_cons.mp hitem with rfl | hitem
      · have hplain : a.Shows depth item (plainText v) :=
          .plain hget (by rintro items rfl; cases hnullish)
        obtain ⟨text, htext⟩ := hplain.of_nullish hget hnullish
        exact ⟨text, htext ▸ hplain⟩
      · exact ih hrest hitem
    | text _ _ hfirst hrest =>
      obtain ⟨others, rfl, -⟩ := map_eq_ok.mp hr.symm
      rcases List.mem_cons.mp hitem with rfl | hitem
      · exact ⟨_, hfirst⟩
      · exact ih hrest hitem
    | failed _ => cases hr

theorem Shows.item {text : String} (hs : a.Shows depth h (.ok text)) {items : List Handle}
    (hget : a.get h = .ok (.array items)) {item : Handle} (hitem : item ∈ items) :
    ∃ text, a.Shows (depth + 1) item (.ok text) := by
  generalize hr : Except.ok text = r at hs
  cases hs with
  | missing _ => cases hr
  | plain hget' hplain => exact absurd (Except.ok.inj (hget'.symm.trans hget)) (hplain items)
  | array hget' _ hall =>
    cases hget.symm.trans hget'
    obtain ⟨texts, rfl, -⟩ := map_eq_ok.mp hr.symm
    exact hall.of_mem hitem
  | deep _ _ => cases hr

/-- If a value has a text, then so has all that is reached in writing it. -/
theorem Opens.shows {n : Nat} (ho : a.Opens h n g) {text : String}
    (hs : a.Shows depth h (.ok text)) : ∃ text, a.Shows (depth + n) g (.ok text) := by
  induction ho with
  | root => exact ⟨text, hs⟩
  | item _ hget hitem ih =>
    obtain ⟨text, ih⟩ := ih
    exact ih.item hget hitem

/-- An array comes to what one of its items comes to. -/
theorem Opens.of_item {n : Nat} {item : Handle} {items : List Handle}
    (hget : a.get h = .ok (.array items)) (hitem : item ∈ items) (ho : a.Opens item n g) :
    a.Opens h (n + 1) g := by
  induction ho with
  | root => exact .item .root hget hitem
  | item _ hget' hitem' ih => exact .item ih hget' hitem'

theorem Opens.trans {m n : Nat} (hg : a.Opens h m g) (hf : a.Opens g n f) :
    a.Opens h (m + n) f := by
  induction hf with
  | root => exact hg
  | item _ hget hitem ih => exact .item ih hget hitem

mutual

/-- What has no text comes to a fault. -/
theorem Shows.exists_faulty {depth : Nat} {h : Handle} {r : Except HostError String} :
    a.Shows depth h r → ∀ e, r = .error e → ∃ n g, a.Opens h n g ∧ a.Faulty (depth + n) g
  | .missing hget, _, _ => ⟨0, h, .root, .inl ⟨_, hget⟩⟩
  | .plain (v := v) hget hplain, e, hr => by
    cases v with
    | symbol => exact ⟨0, h, .root, .inr (.inl hget)⟩
    | array items => exact absurd rfl (hplain items)
    | _ => cases hr
  | .array hget _ hall, e, hr => by
    obtain ⟨item, hitem, n, g, ho, hfaulty⟩ := hall.exists_faulty e (map_eq_error.mp hr)
    rw [Nat.add_assoc, Nat.add_comm 1] at hfaulty
    exact ⟨n + 1, g, ho.of_item hget hitem, hfaulty⟩
  | .deep hget hdeep, _, _ => ⟨0, h, .root, .inr (.inr ⟨hdeep, _, hget⟩)⟩

theorem ShowsAll.exists_faulty {depth : Nat} {items : List Handle}
    {r : Except HostError (List String)} :
    a.ShowsAll depth items r → ∀ e, r = .error e →
      ∃ item ∈ items, ∃ n g, a.Opens item n g ∧ a.Faulty (depth + n) g
  | .nil, _, hr => nomatch hr
  | .nullish _ _ hrest, e, hr => by
    obtain ⟨item, hitem, hfaulty⟩ := hrest.exists_faulty e (map_eq_error.mp hr)
    exact ⟨item, List.mem_cons_of_mem _ hitem, hfaulty⟩
  | .text _ _ _ hrest, e, hr => by
    obtain ⟨item, hitem, hfaulty⟩ := hrest.exists_faulty e (map_eq_error.mp hr)
    exact ⟨item, List.mem_cons_of_mem _ hitem, hfaulty⟩
  | .failed hfirst, _, _ => ⟨_, List.mem_cons_self, hfirst.exists_faulty _ rfl⟩

end

/-- A value has no text if and only if writing it comes to a fault. -/
theorem shows_error_iff : (∃ e, a.Shows 0 h (.error e)) ↔ ∃ n g, a.Opens h n g ∧ a.Faulty n g := by
  constructor
  · rintro ⟨e, hs⟩
    simpa using hs.exists_faulty e rfl
  · rintro ⟨n, g, ho, hfaulty⟩
    have hs : a.Shows 0 h (a.display (maxNesting + 1) h) := shows_display (Nat.zero_add _)
    cases hd : a.display (maxNesting + 1) h with
    | error e => exact ⟨e, hd ▸ hs⟩
    | ok text =>
      obtain ⟨text, hg⟩ := ho.shows (hd ▸ hs)
      rw [Nat.zero_add] at hg
      exact absurd hfaulty hg.not_faulty

/-! ## Cycles -/

/-- What comes to something else is an array. -/
theorem Opens.array {n : Nat} (ho : a.Opens h (n + 1) g) :
    ∃ items, a.get h = .ok (.array items) := by
  induction n generalizing g with
  | zero =>
    cases ho with
    | item hroot hget _ =>
      cases hroot
      exact ⟨_, hget⟩
  | succ n ih =>
    cases ho with
    | item ho _ _ => exact ih ho

/-- What comes to itself does so again and again. -/
theorem Opens.again {n : Nat} (ho : a.Opens h (n + 1) h) (k : Nat) : a.Opens h (k * (n + 1)) h := by
  induction k with
  | zero =>
    rw [Nat.zero_mul]
    exact .root
  | succ k ih => exact Nat.succ_mul k _ ▸ ih.trans ho

/-- An array that comes to itself is reached too far down. -/
theorem exists_faulty_of_cycle {m n : Nat} (hg : a.Opens h m g) (hcycle : a.Opens g (n + 1) g) :
    ∃ n g, a.Opens h n g ∧ a.Faulty n g := by
  have hlow : maxNesting < m + (maxNesting + 1) * (n + 1) := by
    rw [Nat.mul_succ]
    omega
  exact ⟨_, g, hg.trans (hcycle.again (maxNesting + 1)), .inr (.inr ⟨hlow, hcycle.array⟩)⟩

/-! ## Objects -/

theorem SameOutsideObjects.symm (hab : a.SameOutsideObjects b) : b.SameOutsideObjects a :=
  fun h => (hab h).symm

theorem SameOutsideObjects.missing (hab : a.SameOutsideObjects b) {e : HostError}
    (hget : a.get h = .error e) : b.get h = .error e := by
  have hsame := hab h
  rw [hget] at hsame
  exact map_eq_error.mp hsame.symm

theorem SameOutsideObjects.get (hab : a.SameOutsideObjects b) {v : HostValue}
    (hget : a.get h = .ok v) : ∃ w, b.get h = .ok w ∧ w.closed = v.closed := by
  have hsame := hab h
  rw [hget] at hsame
  exact map_eq_ok.mp hsame.symm

theorem closed_eq_array {v : HostValue} {items : List Handle} :
    v.closed = .array items ↔ v = .array items := by
  cases v <;> simp [HostValue.closed]

theorem SameOutsideObjects.array (hab : a.SameOutsideObjects b) {items : List Handle}
    (hget : a.get h = .ok (.array items)) : b.get h = .ok (.array items) := by
  obtain ⟨w, hw, hclosed⟩ := hab.get hget
  rw [hw, closed_eq_array.mp hclosed]

theorem plainText_of_closed {v w : HostValue} (hclosed : w.closed = v.closed) :
    plainText w = plainText v := by
  have hsame (u : HostValue) : plainText u = plainText u.closed := by cases u <;> rfl
  rw [hsame w, hsame v, hclosed]

theorem isNullish_of_closed {v w : HostValue} (hclosed : w.closed = v.closed) :
    w.isNullish = v.isNullish := by
  have hsame (u : HostValue) : u.isNullish = u.closed.isNullish := by cases u <;> rfl
  rw [hsame w, hsame v, hclosed]

mutual

/-- What is inside an object makes no difference. -/
theorem Shows.congr {depth : Nat} {h : Handle} {r : Except HostError String}
    (hab : a.SameOutsideObjects b) : a.Shows depth h r → b.Shows depth h r
  | .missing hget => .missing (hab.missing hget)
  | .plain hget hplain => by
    obtain ⟨w, hw, hclosed⟩ := hab.get hget
    rw [← plainText_of_closed hclosed]
    refine .plain hw fun items hitems => ?_
    rw [hitems] at hclosed
    exact hplain items (closed_eq_array.mp hclosed.symm)
  | .array hget hdepth hall => .array (hab.array hget) hdepth (hall.congr hab)
  | .deep hget hdeep => .deep (hab.array hget) hdeep

theorem ShowsAll.congr {depth : Nat} {items : List Handle} {r : Except HostError (List String)}
    (hab : a.SameOutsideObjects b) : a.ShowsAll depth items r → b.ShowsAll depth items r
  | .nil => .nil
  | .nullish hget hnullish hrest => by
    obtain ⟨w, hw, hclosed⟩ := hab.get hget
    exact .nullish hw ((isNullish_of_closed hclosed).trans hnullish) (hrest.congr hab)
  | .text hget hsolid hfirst hrest => by
    obtain ⟨w, hw, hclosed⟩ := hab.get hget
    exact .text hw ((isNullish_of_closed hclosed).trans hsolid) (hfirst.congr hab) (hrest.congr hab)
  | .failed hfirst => .failed (hfirst.congr hab)

end

/-! ## Coercion -/

theorem coerceToString_of_string {s : String} (hget : a.get h = .ok (.string s)) :
    HostRuntime.coerceToString h a = .ok h a := by
  have hc : a.coerce h = .ok (h, a) := by
    rw [coerce, hget]
    rfl
  simp only [HostRuntime.coerceToString, hc]

theorem coerceToString_of_shows {text : String} (hstring : ∀ s, a.get h ≠ .ok (.string s))
    (hs : a.Shows 0 h (.ok text)) :
    HostRuntime.coerceToString h a = .ok (handleAt a.slots.size) (a.addAll [.string text]) := by
  have hc : a.coerce h = .ok (a.alloc (.string text)) := by
    rw [coerce]
    cases hget : a.get h with
    | error e => exact nomatch hs.unique (.missing hget)
    | ok v =>
      cases v with
      | string s => exact absurd hget (hstring s)
      | _ =>
        simp only [bind, Except.bind, shows_iff.mp hs]
        rfl
  simp only [HostRuntime.coerceToString, hc, alloc_eq]

theorem coerceToString_of_fails {e : HostError} (hs : a.Shows 0 h (.error e)) :
    HostRuntime.coerceToString h a = .error (.error e) a := by
  have hc : a.coerce h = .error e := by
    rw [coerce]
    cases hget : a.get h with
    | error e' =>
      cases hs.unique (.missing hget)
      rfl
    | ok v =>
      cases v with
      | string s => exact nomatch hs.unique (.plain hget nofun)
      | _ =>
        simp only [bind, Except.bind, shows_iff.mp hs]
  simp only [HostRuntime.coerceToString, hc]

theorem coerceToString_error_iff :
    (∃ abort b, HostRuntime.coerceToString h a = .error abort b) ↔ ∃ e, a.Shows 0 h (.error e) := by
  constructor
  · rintro ⟨abort, b, hc⟩
    have hs : a.Shows 0 h (a.display (maxNesting + 1) h) := shows_display (Nat.zero_add _)
    cases hd : a.display (maxNesting + 1) h with
    | error e => exact ⟨e, hd ▸ hs⟩
    | ok text =>
      by_cases hstring : ∃ s, a.get h = .ok (.string s)
      · obtain ⟨s, hget⟩ := hstring
        cases hc.symm.trans (coerceToString_of_string hget)
      · rw [not_exists] at hstring
        cases hc.symm.trans (coerceToString_of_shows hstring (hd ▸ hs))
  · rintro ⟨e, hs⟩
    exact ⟨_, _, coerceToString_of_fails hs⟩

/-- **The text of a value.**  A string stays what it is.  For any other value there is one answer,
by the rules of `Shows`: a text, which is added as a string behind all other slots, or a reason why
there is none, and then nothing is added.  There is none if and only if writing the value comes to
one that is missing, a symbol, or an array too far down, so an array that comes to itself never has
a text.  What is inside an object makes no difference, and its own text is always the same. -/
theorem coerceToString_exact (a : Arena) (h : Handle) :
    (∀ s, a.get h = .ok (.string s) → HostRuntime.coerceToString h a = .ok h a) ∧
    ((∀ s, a.get h ≠ .ok (.string s)) →
      (∃ r, a.Shows 0 h r ∧ ∀ r', a.Shows 0 h r' → r' = r) ∧
      (∀ text, a.Shows 0 h (.ok text) →
        HostRuntime.coerceToString h a = .ok (handleAt a.slots.size) (a.addAll [.string text]) ∧
        (a.slots.size < 2 ^ 32 →
          (a.addAll [.string text]).get (handleAt a.slots.size) = .ok (.string text))) ∧
      ∀ e, a.Shows 0 h (.error e) → HostRuntime.coerceToString h a = .error (.error e) a) ∧
    ((∃ abort b, HostRuntime.coerceToString h a = .error abort b) ↔
      ∃ depth g, a.Opens h depth g ∧ a.Faulty depth g) ∧
    (∀ depth g n, a.Opens h depth g → a.Opens g (n + 1) g →
      ∃ abort b, HostRuntime.coerceToString h a = .error abort b) ∧
    (∀ properties, a.get h = .ok (.object properties) →
      HostRuntime.coerceToString h a =
        .ok (handleAt a.slots.size) (a.addAll [.string "[object Object]"])) ∧
    ∀ b, a.SameOutsideObjects b → ∀ r, a.Shows 0 h r ↔ b.Shows 0 h r := by
  have hfails := coerceToString_error_iff.trans (shows_error_iff (a := a) (h := h))
  refine ⟨fun s => coerceToString_of_string,
    fun hstring => ⟨?_, fun text hs => ⟨?_, fun hsize => ?_⟩, fun e => coerceToString_of_fails⟩,
    hfails, fun depth g n hg hcycle => ?_, fun properties hget => ?_,
    fun b hab r => ⟨.congr hab, .congr hab.symm⟩⟩
  · have hs : a.Shows 0 h (a.display (maxNesting + 1) h) := shows_display (Nat.zero_add _)
    exact ⟨_, hs, fun r' hr' => hr'.unique hs⟩
  · exact coerceToString_of_shows hstring hs
  · exact get_addAll_new (i := 0) rfl (by rw [size_addAll]; exact hsize)
  · exact hfails.mpr (exists_faulty_of_cycle hg hcycle)
  · refine coerceToString_of_shows (fun s hs => ?_) (.plain hget nofun)
    cases hget.symm.trans hs

/-- An array in which there is nothing for null, and an object that refers to the array. -/
example : Arena.coerce { slots := #[.array [⟨1⟩, ⟨2⟩, ⟨3⟩], .string "a", .null,
      .object [("k", ⟨0⟩)]] } ⟨0⟩ =
    .ok (⟨4⟩, { slots := #[.array [⟨1⟩, ⟨2⟩, ⟨3⟩], .string "a", .null, .object [("k", ⟨0⟩)],
      .string "a,,[object Object]"] }) := by
  rfl

end Arena

end ForeignCall
