import ForeignCall.Proofs.Growth
import ForeignCall.Proofs.Invocation

/-!
# ForeignCall.Proofs.Loading

What loading sources comes to, from a tag and an array to what the engine has
loaded.

The rules of `Loading` say it for a host that is an arena, in the order in
which a load can end: there is no tag, there is no array, an item is refused,
or the engine answers.  Items are taken one after the other, each in the arena
that coercing the ones before has left (`TakesAll`), so an index means the same
item throughout.  The engine occurs only in the rules where all items have been
taken, and there once.

`bulkLoad_iff` — a load ends so if and only if a rule says so.
-/

namespace ForeignCall

/-! ## Native strings acquired and released -/

namespace Ledger

/-- Enter some acquisitions and releases of a resource. -/
def book (ledger : Ledger) (r : Resource) (acquired released : Nat) : Ledger :=
  ledger.modify (fun a => ⟨a.acquired + acquired, a.released + released⟩) r

@[simp] theorem book_book (ledger : Ledger) (r : Resource) (m n m' n' : Nat) :
    (ledger.book r m n).book r m' n' = ledger.book r (m + m') (n + n') := by
  cases r <;> simp [book, modify, Nat.add_assoc]

@[simp] theorem book_zero (ledger : Ledger) (r : Resource) : ledger.book r 0 0 = ledger := by
  cases r <;> rfl

end Ledger

namespace Arena

/-- The text that a value is coerced to, and the arena then. -/
def coerceText (a : Arena) (h : Handle) : Except HostError String × Arena :=
  match a.coerce h with
  | .ok (h, b) => (b.stringOf h, b)
  | .error e => (.error e, a)

end Arena

/-- What is said when there can be no buffer for the longest tag allowed. -/
def Limits.tagBreakdown (limits : Limits) : String :=
  if limits.maxTagLen.toNat + 1 < 2 ^ 64 then "capacity overflow"
  else "attempt to add with overflow"

namespace Bridge

open Operation

/-- The world when loading is over: the host, the engine and the streams, and as many native strings
as this acquired and released. -/
def World.spent {σ : Type} (w : World σ) (host : σ) (engine : Engine) (streams : Log.Streams)
    (natives : Nat) : World σ :=
  ⟨host, { engine with ledger := w.engine.ledger.book .nativeString natives natives }, streams⟩

/-! ## The rules -/

/-- An item is coerced to a path that is not empty and not too long, has no NUL in it, and for which
there is memory. -/
structure Takes [Memory] (limits : Limits) (a : Arena) (item : Handle) (path : String) (b : Arena) :
    Prop where
  coerced : a.coerceText item = (.ok path, b)
  nonempty : path ≠ ""
  short : Utf8.size path ≤ limits.maxPathLen.toNat
  fits : Memory.grants (Utf8.size path + 1)
  noNul : 0 ∉ Utf8.octets path

/-- Items are taken, one after the other. -/
inductive TakesAll [Memory] (limits : Limits) :
    Arena → List Handle → List String → Arena → Prop where
  | nil {a : Arena} : TakesAll limits a [] [] a
  | cons {a b c : Arena} {item : Handle} {path : String} {items : List Handle}
      {paths : List String} :
      Takes limits a item path b → TakesAll limits b items paths c →
      TakesAll limits a (item :: items) (path :: paths) c

/-- The item at an index is refused. -/
inductive Refuses [Memory] (limits : Limits) (index : Nat) (a : Arena) (item : Handle) :
    Abort BridgeError → Arena → Prop where
  | host {e : HostError} {b : Arena} : a.coerceText item = (.error e, b) →
      Refuses limits index a item (.error (.host e)) b
  | empty {b : Arena} : a.coerceText item = (.ok "", b) →
      Refuses limits index a item (.error (.nameDecode (.emptyPath index))) b
  | long {path : String} {b : Arena} : a.coerceText item = (.ok path, b) →
      limits.maxPathLen.toNat < Utf8.size path →
      Refuses limits index a item
        (.error (.capacityExceeded .path (Utf8.size path) limits.maxPathLen.toNat)) b
  /-- There is no number for the size of the path and a terminator. -/
  | size {path : String} {b : Arena} : a.coerceText item = (.ok path, b) →
      Utf8.size path ≤ limits.maxPathLen.toNat → 2 ^ 64 ≤ Utf8.size path + 1 →
      Refuses limits index a item (.panic (some "attempt to add with overflow")) b
  | memory {path : String} {b : Arena} : a.coerceText item = (.ok path, b) → path ≠ "" →
      Utf8.size path ≤ limits.maxPathLen.toNat → Utf8.size path + 1 < 2 ^ 64 →
      ¬ Memory.grants (Utf8.size path + 1) →
      Refuses limits index a item (.error (.allocation .path)) b
  /-- The first NUL is behind so many octets. -/
  | nul {path : String} {before after : List UInt8} {b : Arena} :
      a.coerceText item = (.ok path, b) → Utf8.size path ≤ limits.maxPathLen.toNat →
      Memory.grants (Utf8.size path + 1) →
      Utf8.octets path = before ++ 0 :: after → 0 ∉ before →
      Refuses limits index a item (.error (.conversion (.interiorNul before.length))) b

/-- A load has a tag. -/
structure Tagged (limits : Limits) (a : Arena) (tag : Handle) (name : String) : Prop where
  text : a.stringOf tag = .ok name
  nonempty : name ≠ ""
  short : Utf8.size name ≤ limits.maxTagLen.toNat

/-- A load has a tag, and an array of paths. -/
structure Listed (limits : Limits) (a : Arena) (tag paths : Handle) (name : String)
    (items : List Handle) : Prop extends Tagged limits a tag name where
  array : a.itemsOf paths = .ok items
  few : items.length ≤ limits.maxLoadPaths.toNat

/-- A load is prepared: there are paths, and there is memory for the list of them. -/
structure Prepared [Memory] (limits : Limits) (a : Arena) (tag paths : Handle) (name : String)
    (items : List Handle) : Prop extends Listed limits a tag paths name items where
  some : items ≠ []
  fits : Memory.grants (items.length * nativeWidth)

/-- How loading ends. -/
inductive Loading [Memory] (limits : Limits) (w : World Arena) (tag paths : Handle) :
    EStateM.Result (Abort BridgeError) (World Arena) Unit → Prop where
  /-- The tag is stale, or not a string. -/
  | noTag {e : HostError} : w.host.stringOf tag = .error e →
      Loading limits w tag paths (.error (.error (.nameDecode (.host e))) w)
  | emptyTag : w.host.stringOf tag = .ok "" →
      Loading limits w tag paths (.error (.error (.nameDecode .emptyLanguageTag)) w)
  | longTag {name : String} : w.host.stringOf tag = .ok name →
      limits.maxTagLen.toNat < Utf8.size name →
      Loading limits w tag paths (.error (.error
        (.capacityExceeded .languageTag (Utf8.size name) limits.maxTagLen.toNat)) w)
  /-- The array is stale, or no array. -/
  | noArray {name : String} {e : HostError} : Tagged limits w.host tag name →
      w.host.itemsOf paths = .error e → Loading limits w tag paths (.error (.error (.host e)) w)
  | longArray {name : String} {items : List Handle} : Tagged limits w.host tag name →
      w.host.itemsOf paths = .ok items → limits.maxLoadPaths.toNat < items.length →
      Loading limits w tag paths (.error (.error
        (.capacityExceeded .pathList items.length limits.maxLoadPaths.toNat)) w)
  /-- The array is empty. -/
  | nothing {name : String} : Listed limits w.host tag paths name [] →
      Loading limits w tag paths (.ok () w)
  /-- There is no memory for the list of the paths. -/
  | noList {name : String} {items : List Handle} :
      Listed limits w.host tag paths name items → items ≠ [] →
      ¬ Memory.grants (items.length * nativeWidth) →
      Loading limits w tag paths (.error (.error (.allocation .pathList)) w)
  /-- An item is refused, but all before it are taken. -/
  | path {name : String} {before after : List Handle} {item : Handle} {texts : List String}
      {a b : Arena} {abort : Abort BridgeError} :
      Prepared limits w.host tag paths name (before ++ item :: after) →
      TakesAll limits w.host before texts a → Refuses limits before.length a item abort b →
      Loading limits w tag paths (.error abort (w.spent b w.engine w.streams before.length))
  /-- The engine has loaded the paths. -/
  | loaded {name : String} {items : List Handle} {texts : List String} {b : Arena}
      {engine : Engine} {streams : Log.Streams} :
      Prepared limits w.host tag paths name items → TakesAll limits w.host items texts b →
      w.engine.loadFromFile name (texts.map Utf8.octets) w.streams = (0, engine, streams) →
      engine.loads = w.engine.loads ++ [⟨name, texts⟩] →
      Loading limits w tag paths (.ok () (w.spent b engine streams items.length))
  /-- The engine has loaded nothing. -/
  | failed {name : String} {items : List Handle} {texts : List String} {b : Arena}
      {status : Int32} {engine : Engine} {streams : Log.Streams} :
      Prepared limits w.host tag paths name items → TakesAll limits w.host items texts b →
      w.engine.loadFromFile name (texts.map Utf8.octets) w.streams = (status, engine, streams) →
      status ≠ 0 → engine.loads = w.engine.loads →
      Loading limits w tag paths (.error (.error (.callFailure (.loadStatus status)))
        (w.spent b engine streams items.length))

/-! ## Coercion -/

variable {limits : Limits} {w : World Arena} {a b c : Arena}

theorem extends_of_coerceText {item : Handle} {text : Except HostError String}
    (h : a.coerceText item = (text, b)) : a.Extends b := by
  unfold Arena.coerceText at h
  split at h
  · next hc =>
    cases h
    exact (Arena.grows_of_coerce hc).extends
  · cases h
    exact .refl _

theorem TakesAll.extends [Memory] {items : List Handle} {texts : List String}
    (h : TakesAll limits a items texts b) : a.Extends b := by
  induction h with
  | nil => exact .refl _
  | cons hfirst _ ih => exact (extends_of_coerceText hfirst.coerced).trans ih

/-- An array is not changed by what is added. -/
theorem itemsOf_extends {paths : Handle} {items : List Handle} (he : a.Extends b)
    (h : a.itemsOf paths = .ok items) : b.itemsOf paths = .ok items := by
  unfold Arena.itemsOf at h ⊢
  cases hget : a.get paths with
  | error e =>
    rw [hget] at h
    cases h
  | ok v =>
    rw [hget] at h
    rw [he.get hget]
    exact h

/-! ## Paths -/

variable {paths item : Handle} {items : List Handle} {index : Nat} {text : String}

theorem size_ne_zero (h : text ≠ "") : Utf8.size text ≠ 0 :=
  fun hzero => h (Utf8.size_eq_zero.mp hzero)

theorem arrayGet_of_items (harray : w.host.itemsOf paths = .ok items)
    (hitem : items[index]? = some item) :
    (onHost .host (HostRuntime.arrayGet paths index) : Operation Arena Handle) w = .ok item w := by
  have hget : HostRuntime.arrayGet paths index w.host = .ok item w.host := by
    refine Action.look_of_ok ?_
    simp only [Arena.arrayGet, harray, bind, Except.bind, hitem]
    rfl
  exact onHost_of_ok hget

theorem coerceToString_of_ok {h : Handle} (hc : w.host.coerce item = .ok (h, b)) :
    (onHost .host (HostRuntime.coerceToString item) : Operation Arena Handle) w =
      .ok h { w with host := b } := by
  have hcoerced : HostRuntime.coerceToString item w.host = .ok h b := by
    simp only [HostRuntime.coerceToString, hc]
  exact onHost_of_ok hcoerced

theorem coerceToString_of_error {e : HostError} (hc : w.host.coerce item = .error e) :
    (onHost .host (HostRuntime.coerceToString item) : Operation Arena Handle) w =
      .error (.error (.host e)) w := by
  have hcoerced : HostRuntime.coerceToString item w.host = .error (.error e) w.host := by
    simp only [HostRuntime.coerceToString, hc]
  exact onHost_of_error hcoerced

/-- A path is not copied from what is not coerced to a text. -/
theorem copyPath_of_error [Memory] {e : HostError} (hc : w.host.coerceText item = (.error e, b)) :
    copyPath limits index item w = .error (.error (.host e)) { w with host := b } := by
  unfold Arena.coerceText at hc
  split at hc
  · next h b' hcoerce =>
    obtain ⟨htext, rfl⟩ := Prod.mk.inj hc
    have hlen : (onHost .host (HostRuntime.utf8Len h) : Operation Arena Nat) { w with host := b' } =
        .error (.error (.host e)) { w with host := b' } :=
      onHost_of_error (Arena.utf8Len_of_error htext)
    rw [copyPath, Action.bind_of_ok (coerceToString_of_ok hcoerce), Action.bind_of_error hlen]
  · next hcoerce =>
    cases hc
    rw [copyPath, Action.bind_of_error (coerceToString_of_error hcoerce)]

/-- What happens to a path once its text is known. -/
theorem copyPath_of_text [Memory] (limits : Limits) (index : Nat)
    (hc : w.host.coerceText item = (.ok text, b)) :
    ∃ h, b.stringOf h = .ok text ∧ copyPath limits index item w =
      (if Utf8.size text = 0 then Action.fail (.nameDecode (.emptyPath index))
      else if limits.maxPathLen.toNat < Utf8.size text then
        Action.fail (.capacityExceeded .path (Utf8.size text) limits.maxPathLen.toNat)
      else do
        let size ← terminatedSize (Utf8.size text)
        reserve .path size
        onHost .host (HostRuntime.readUtf8 h size) : Operation Arena (List UInt8))
        { w with host := b } := by
  unfold Arena.coerceText at hc
  split at hc
  · next h b' hcoerce =>
    obtain ⟨htext, rfl⟩ := Prod.mk.inj hc
    have hlen : (onHost .host (HostRuntime.utf8Len h) : Operation Arena Nat) { w with host := b' } =
        .ok (Utf8.size text) { w with host := b' } := onHost_of_ok (Arena.utf8Len_of_ok htext)
    refine ⟨h, htext, ?_⟩
    rw [copyPath, Action.bind_of_ok (coerceToString_of_ok hcoerce), Action.bind_of_ok hlen]
  · cases hc

/-- A path that is not empty and not too long is copied if there is memory for it. -/
theorem copyPath_of_fits [Memory] (hc : w.host.coerceText item = (.ok text, b)) (hne : text ≠ "")
    (hshort : Utf8.size text ≤ limits.maxPathLen.toNat)
    (hfits : Memory.grants (Utf8.size text + 1)) :
    copyPath limits index item w = .ok (Utf8.octets text) { w with host := b } := by
  obtain ⟨h, htext, hcopy⟩ := copyPath_of_text limits index hc
  rw [hcopy, if_neg (size_ne_zero hne), if_neg (Nat.not_lt.mpr hshort),
    Action.bind_of_ok (terminatedSize_of_lt (Memory.lt_of_grants hfits)),
    Action.bind_of_ok (reserve_of_fits hfits)]
  exact onHost_of_ok (Arena.readUtf8_of_room htext (Nat.le_refl _))

/-- The first NUL is as far in as there are octets in front of it. -/
theorem findIdx?_nul_append {before : List UInt8} (h : 0 ∉ before) (after : List UInt8) :
    (before ++ 0 :: after).findIdx? (· = 0) = some before.length := by
  rw [List.findIdx?_append, findIdx?_nul_eq_none_iff.mpr h]
  simp [List.findIdx?_cons]

/-- An item that is taken is a native string. -/
theorem nativePath_of_takes [Memory] (harray : w.host.itemsOf paths = .ok items)
    (hitem : items[index]? = some item) (ht : Takes limits w.host item text b) :
    nativePath limits paths index w = .ok (Utf8.octets text) { w with host := b } := by
  have hcopy : copyPath limits index item w = .ok (Utf8.octets text) { w with host := b } :=
    copyPath_of_fits ht.coerced ht.nonempty ht.short ht.fits
  rw [nativePath, Action.bind_of_ok (arrayGet_of_items harray hitem), Action.bind_of_ok hcopy]
  simp only [findIdx?_nul_eq_none_iff.mpr ht.noNul]
  rfl

/-- An item that is refused is not copied, or has a NUL in it. -/
theorem nativePath_of_refuses [Memory] {abort : Abort BridgeError}
    (harray : w.host.itemsOf paths = .ok items) (hitem : items[index]? = some item)
    (hr : Refuses limits index w.host item abort b) :
    nativePath limits paths index w = .error abort { w with host := b } := by
  rw [nativePath, Action.bind_of_ok (arrayGet_of_items harray hitem)]
  cases hr with
  | host hc => exact Action.bind_of_error (copyPath_of_error hc)
  | empty hc =>
    obtain ⟨h, _, hcopy⟩ := copyPath_of_text limits index hc
    rw [if_pos (Utf8.size_eq_zero.mpr rfl)] at hcopy
    exact Action.bind_of_error hcopy
  | @long path _ hc hlong =>
    obtain ⟨h, _, hcopy⟩ := copyPath_of_text limits index hc
    rw [if_neg (by omega), if_pos hlong] at hcopy
    exact Action.bind_of_error hcopy
  | @size path _ hc hshort hlong =>
    obtain ⟨h, _, hcopy⟩ := copyPath_of_text limits index hc
    rw [if_neg (by omega), if_neg (Nat.not_lt.mpr hshort),
      Action.bind_of_error (terminatedSize_of_le hlong)] at hcopy
    exact Action.bind_of_error hcopy
  | memory hc hne hshort hlong hroom =>
    obtain ⟨h, _, hcopy⟩ := copyPath_of_text limits index hc
    rw [if_neg (size_ne_zero hne), if_neg (Nat.not_lt.mpr hshort),
      Action.bind_of_ok (terminatedSize_of_lt hlong),
      Action.bind_of_error (reserve_of_not hroom)] at hcopy
    exact Action.bind_of_error hcopy
  | @nul path before after _ hc hshort hfits hoctets hbefore =>
    have hne : path ≠ "" := by
      rintro rfl
      cases before <;> cases hoctets
    rw [Action.bind_of_ok (copyPath_of_fits hc hne hshort hfits)]
    simp only [hoctets, findIdx?_nul_append hbefore after]
    rfl

/-- An item is taken, or refused. -/
theorem takes_or_refuses [Memory] (limits : Limits) (index : Nat) (a : Arena) (item : Handle) :
    (∃ text b, Takes limits a item text b) ∨ ∃ abort b, Refuses limits index a item abort b := by
  rcases hc : a.coerceText item with ⟨e | text, b⟩
  · exact .inr ⟨_, b, .host hc⟩
  · by_cases hne : text = ""
    · subst hne
      exact .inr ⟨_, b, .empty hc⟩
    · by_cases hshort : Utf8.size text ≤ limits.maxPathLen.toNat
      · by_cases hfits : Memory.grants (Utf8.size text + 1)
        · by_cases hnul : 0 ∈ Utf8.octets text
          · obtain ⟨before, after, hoctets, hbefore⟩ := List.eq_append_cons_of_mem hnul
            exact .inr ⟨_, b, .nul hc hshort hfits hoctets hbefore⟩
          · exact .inl ⟨text, b, hc, hne, hshort, hfits, hnul⟩
        · by_cases hlong : Utf8.size text + 1 < 2 ^ 64
          · exact .inr ⟨_, b, .memory hc hne hshort hlong hfits⟩
          · exact .inr ⟨_, b, .size hc hshort (Nat.not_lt.mp hlong)⟩
      · exact .inr ⟨_, b, .long hc (Nat.not_le.mp hshort)⟩

/-- All items are taken, or there is a first one that is refused. -/
theorem takesAll_or_first [Memory] (limits : Limits) (a : Arena) (index : Nat)
    (items : List Handle) :
    (∃ texts b, TakesAll limits a items texts b) ∨
      ∃ before item after texts b abort c, items = before ++ item :: after ∧
        TakesAll limits a before texts b ∧
        Refuses limits (index + before.length) b item abort c := by
  induction items generalizing a index with
  | nil => exact .inl ⟨[], a, .nil⟩
  | cons item rest ih =>
    rcases takes_or_refuses limits index a item with ⟨text, b, ht⟩ | ⟨abort, b, hr⟩
    · rcases ih b (index + 1) with ⟨texts, c, hall⟩ |
        ⟨before, item', after, texts, c, abort, d, rfl, hall, hr⟩
      · exact .inl ⟨text :: texts, c, .cons ht hall⟩
      · refine .inr ⟨item :: before, item', after, text :: texts, c, abort, d, rfl,
          .cons ht hall, ?_⟩
        rw [List.length_cons, Nat.add_comm before.length, ← Nat.add_assoc]
        exact hr
    · exact .inr ⟨[], item, rest, [], a, abort, b, rfl, .nil, hr⟩

/-! ## The engine -/

/-- A world on whose ledger some acquisitions and releases of native strings have been entered. -/
def World.book {σ : Type} (w : World σ) (acquired released : Nat) : World σ :=
  onLedger w (·.book .nativeString acquired released)

@[simp] theorem World.book_book {σ : Type} (w : World σ) (m n m' n' : Nat) :
    (w.book m n).book m' n' = w.book (m + m') (n + n') := by
  simp [World.book, onLedger]

@[simp] theorem World.book_zero {σ : Type} (w : World σ) : w.book 0 0 = w := by
  simp [World.book, onLedger]

theorem borrowing_nativeString {α : Type} (body : Operation Arena α) (w : World Arena) :
    borrowing .nativeString body w = Action.endIn (·.book 0 1) (body w) := by
  rw [borrowing]
  cases body w <;> rfl

theorem endIn_book_book {α : Type} (r : EStateM.Result (Abort BridgeError) (World Arena) α)
    (m n m' n' : Nat) :
    Action.endIn (·.book m' n') (Action.endIn (·.book m n) r) =
      Action.endIn (·.book (m + m') (n + n')) r := by
  cases r <;> simp [Action.endIn]

theorem endIn_book_zero {α : Type} (r : EStateM.Result (Abort BridgeError) (World Arena) α) :
    Action.endIn (·.book 0 0) r = r := by
  cases r <;> simp [Action.endIn]

/-- An item that is taken is held around all that follows. -/
theorem withPaths_takes [Memory] {α : Type} (ht : Takes limits w.host item text b)
    (body : List (List UInt8) → Operation Arena α) (count : Nat)
    (harray : w.host.itemsOf paths = .ok items) (hitem : items[index]? = some item) :
    withPaths limits paths index body (count + 1) w =
      Action.endIn (·.book 0 1)
        (withPaths limits paths (index + 1) (fun more => body (Utf8.octets text :: more)) count
          (World.book { w with host := b } 1 0)) := by
  have hnative := nativePath_of_takes harray hitem ht
  have hacquired : onLedger { w with host := b } (·.acquire .nativeString) =
      World.book { w with host := b } 1 0 := rfl
  rw [withPaths, Action.bind_of_ok hnative, holding, borrowing_nativeString, hacquired]

/-- Items that are taken are held around all that follows. -/
theorem withPaths_takesAll [Memory] {α : Type} {before : List Handle} {texts : List String}
    (h : TakesAll limits a before texts b) (body : List (List UInt8) → Operation Arena α)
    (count : Nat) {earlier rest : List Handle} (hw : w.host = a)
    (harray : w.host.itemsOf paths = .ok (earlier ++ before ++ rest)) :
    withPaths limits paths earlier.length body (before.length + count) w =
      Action.endIn (·.book 0 before.length)
        (withPaths limits paths (earlier.length + before.length)
          (fun more => body (texts.map Utf8.octets ++ more)) count
          (World.book { w with host := b } before.length 0)) := by
  -- the item taken joins `earlier`, in the arena that coercing it has left
  induction h generalizing w body earlier with
  | nil =>
    subst hw
    rw [List.length_nil, Nat.zero_add, Nat.add_zero, endIn_book_zero, World.book_zero]
    rfl
  | @cons a b c item text before texts hfirst _ ih =>
    subst hw
    have hcount : (item :: before).length + count = before.length + count + 1 := by
      rw [List.length_cons]
      omega
    have hitem : (earlier ++ item :: before ++ rest)[earlier.length]? = some item := by simp
    have harray' : b.itemsOf paths = .ok ((earlier ++ [item]) ++ before ++ rest) := by
      rw [itemsOf_extends (extends_of_coerceText hfirst.coerced) harray]
      simp
    have hrest := @ih (World.book { w with host := b } 1 0)
      (fun more => body (Utf8.octets text :: more)) (earlier ++ [item]) rfl harray'
    have hheld : World.book { World.book { w with host := b } 1 0 with host := c } before.length 0 =
        World.book { w with host := c } (before.length + 1) 0 :=
      (World.book_book { w with host := c } 1 0 before.length 0).trans (by rw [Nat.add_comm])
    have hindex : earlier.length + 1 + before.length = earlier.length + (before.length + 1) := by
      omega
    rw [List.length_append, List.length_singleton, hheld, hindex] at hrest
    rw [hcount, withPaths_takes hfirst body _ harray hitem, hrest, endIn_book_book, Nat.add_zero]
    rfl

/-- Loading takes no notice of the ledger. -/
theorem loadFromFile_withLedger {e e' : Engine} {name : String} {natives : List (List UInt8)}
    {streams streams' : Log.Streams} {status : Int32}
    (h : e.loadFromFile name natives streams = (status, e', streams')) (ledger : Ledger) :
    ({ e with ledger := ledger } : Engine).loadFromFile name natives streams =
      (status, { e' with ledger := ledger }, streams') := by
  unfold Engine.loadFromFile at h ⊢
  dsimp only at h ⊢
  by_cases hstatus : e.loadStatus = 0
  · rw [if_pos hstatus] at h ⊢
    cases h
    rfl
  · rw [if_neg hstatus] at h ⊢
    cases h
    rfl

theorem nativeText_octets (text : String) : Engine.nativeText (Utf8.octets text) = text := by
  rw [Engine.nativeText, Utf8.decode_octets]

theorem map_nativeText_octets (texts : List String) :
    (texts.map Utf8.octets).map Engine.nativeText = texts := by
  rw [List.map_map]
  exact List.map_id'' nativeText_octets texts

/-- What has been loaded is one more, if the status says that it has been. -/
theorem loads_of_loadFromFile {e e' : Engine} {name : String} {texts : List String}
    {streams streams' : Log.Streams} {status : Int32}
    (h : e.loadFromFile name (texts.map Utf8.octets) streams = (status, e', streams')) :
    e'.loads = if status = 0 then e.loads ++ [⟨name, texts⟩] else e.loads := by
  unfold Engine.loadFromFile at h
  dsimp only at h
  rw [map_nativeText_octets] at h
  by_cases hstatus : e.loadStatus = 0
  · rw [if_pos hstatus] at h
    cases h
    rw [if_pos hstatus]
  · rw [if_neg hstatus] at h
    cases h
    rw [if_neg hstatus]

/-! ## Items -/

/-- Load what native strings say. -/
def request (name : String) (natives : List (List UInt8)) : Operation Arena Int32 :=
  onEngine fun engine streams => engine.loadFromFile name natives streams

/-- The engine answers once all items have been taken, whatever else is in the array. -/
theorem withPaths_loads_front [Memory] {name : String} {texts : List String} {status : Int32}
    {engine : Engine} {streams : Log.Streams} (rest : List Handle)
    (harray : w.host.itemsOf paths = .ok (items ++ rest))
    (hall : TakesAll limits w.host items texts b)
    (hload : w.engine.loadFromFile name (texts.map Utf8.octets) w.streams =
      (status, engine, streams)) :
    withPaths limits paths 0 (request name) items.length w =
      .ok status (w.spent b engine streams items.length) := by
  have harray' : w.host.itemsOf paths = .ok ([] ++ items ++ rest) := by simpa using harray
  have htaken := withPaths_takesAll hall (request name) 0 rfl harray'
  have hheld := loadFromFile_withLedger hload (w.engine.ledger.book .nativeString items.length 0)
  have hanswer : request name (texts.map Utf8.octets)
      (World.book { w with host := b } items.length 0) = .ok status
        ⟨b, { engine with ledger := w.engine.ledger.book .nativeString items.length 0 },
          streams⟩ := by
    rw [request, onEngine_apply]
    simp only [World.book, onLedger]
    rw [hheld]
  rw [withPaths, List.append_nil, hanswer] at htaken
  rw [List.length_nil, Nat.add_zero] at htaken
  rw [htaken, World.spent]
  simp [Action.endIn, World.book, onLedger]

/-- The engine answers once all items have been taken. -/
theorem withPaths_loads [Memory] {name : String} {texts : List String} {status : Int32}
    {engine : Engine} {streams : Log.Streams} (harray : w.host.itemsOf paths = .ok items)
    (hall : TakesAll limits w.host items texts b)
    (hload : w.engine.loadFromFile name (texts.map Utf8.octets) w.streams =
      (status, engine, streams)) :
    withPaths limits paths 0 (request name) items.length w =
      .ok status (w.spent b engine streams items.length) :=
  withPaths_loads_front [] (by rwa [List.append_nil]) hall hload

/-- The first item that is refused ends the load, whatever comes behind it. -/
theorem withPaths_refuses_front [Memory] {α : Type} {before rest : List Handle}
    {texts : List String} {abort : Abort BridgeError}
    (body : List (List UInt8) → Operation Arena α) (more : Nat)
    (harray : w.host.itemsOf paths = .ok (before ++ item :: rest))
    (hall : TakesAll limits w.host before texts b)
    (hr : Refuses limits before.length b item abort c) :
    withPaths limits paths 0 body (before.length + (more + 1)) w =
      .error abort (w.spent c w.engine w.streams before.length) := by
  have harray' : w.host.itemsOf paths = .ok ([] ++ before ++ item :: rest) := by
    simpa using harray
  have htaken := withPaths_takesAll hall body (more + 1) rfl harray'
  have hitem : (before ++ item :: rest)[before.length]? = some item := by simp
  have hnative := nativePath_of_refuses (w := World.book { w with host := b } before.length 0)
    (itemsOf_extends hall.extends harray) hitem hr
  rw [List.length_nil, Nat.zero_add, withPaths, Action.bind_of_error hnative] at htaken
  rw [htaken, World.spent]
  simp [Action.endIn, World.book, onLedger]

/-- The first item that is refused ends the load. -/
theorem withPaths_refuses [Memory] {α : Type} {before after : List Handle} {texts : List String}
    {abort : Abort BridgeError} (body : List (List UInt8) → Operation Arena α)
    (harray : w.host.itemsOf paths = .ok (before ++ item :: after))
    (hall : TakesAll limits w.host before texts b)
    (hr : Refuses limits before.length b item abort c) :
    withPaths limits paths 0 body (before ++ item :: after).length w =
      .error abort (w.spent c w.engine w.streams before.length) := by
  rw [List.length_append, List.length_cons]
  exact withPaths_refuses_front body after.length harray hall hr

/-! ## Tags and arrays -/

variable {tag : Handle} {name : String}

theorem decodeTag_of_error {e : HostError} (h : w.host.stringOf tag = .error e) :
    (decodeTag limits tag : Operation Arena String) w =
      .error (.error (.nameDecode (.host e))) w := by
  rw [decodeTag]
  exact Action.bind_of_error (utf8Len_of_none h)

theorem decodeTag_empty (h : w.host.stringOf tag = .ok "") :
    (decodeTag limits tag : Operation Arena String) w =
      .error (.error (.nameDecode .emptyLanguageTag)) w := by
  rw [decodeTag]
  refine (Action.bind_of_ok (utf8Len_of_text h)).trans ?_
  rw [if_pos (Utf8.size_eq_zero.mpr rfl)]
  rfl

theorem decodeTag_long (h : w.host.stringOf tag = .ok name)
    (hlong : limits.maxTagLen.toNat < Utf8.size name) :
    (decodeTag limits tag : Operation Arena String) w = .error (.error
      (.capacityExceeded .languageTag (Utf8.size name) limits.maxTagLen.toNat)) w := by
  rw [decodeTag]
  refine (Action.bind_of_ok (utf8Len_of_text h)).trans ?_
  rw [if_neg (by omega), if_pos hlong]
  rfl

/-- A tag is read into a buffer for the longest one allowed, if there can be such a buffer. -/
theorem decodeTag_of_tagged (htag : limits.maxTagLen.toNat < Allocation.maxSize)
    (h : Tagged limits w.host tag name) :
    (decodeTag limits tag : Operation Arena String) w = .ok name w := by
  have hword : limits.maxTagLen.toNat + 1 < 2 ^ 64 := by
    rw [Allocation.maxSize] at htag
    omega
  have hbuffer : (fixedBuffer (limits.maxTagLen.toNat + 1) : Operation Arena Unit) w =
      .ok () w := by
    rw [fixedBuffer, if_neg (by omega)]
    rfl
  rw [decodeTag]
  refine (Action.bind_of_ok (utf8Len_of_text h.text)).trans ?_
  rw [if_neg (size_ne_zero h.nonempty), if_neg (Nat.not_lt.mpr h.short),
    Action.bind_of_ok (terminatedSize_of_lt hword), Action.bind_of_ok hbuffer,
    Action.bind_of_ok (readUtf8_of_text h.text h.short), asName_octets]

/-- No tag is read into a buffer that has no valid size. -/
theorem decodeTag_unsized (hsize : Allocation.maxSize ≤ limits.maxTagLen.toNat)
    (h : Tagged limits w.host tag name) :
    (decodeTag limits tag : Operation Arena String) w =
      .error (.panic (some limits.tagBreakdown)) w := by
  rw [decodeTag]
  refine (Action.bind_of_ok (utf8Len_of_text h.text)).trans ?_
  rw [if_neg (size_ne_zero h.nonempty), if_neg (Nat.not_lt.mpr h.short), Limits.tagBreakdown]
  split
  · next hword =>
    rw [Action.bind_of_ok (terminatedSize_of_lt hword), fixedBuffer,
      if_pos (Nat.lt_succ_of_le hsize)]
    exact Action.bind_of_error rfl
  · next hword => exact Action.bind_of_error (terminatedSize_of_le (Nat.not_lt.mp hword))

/-- The length of an array is known as a word. -/
theorem arrayLen_of_items (harray : w.host.itemsOf paths = .ok items) :
    (onHost .host (HostRuntime.arrayLen paths) : Operation Arena Nat) w =
      .ok (items.length % 2 ^ 32) w := by
  have hlen : HostRuntime.arrayLen paths w.host = .ok (items.length % 2 ^ 32) w.host := by
    refine Action.look_of_ok ?_
    rw [Arena.arrayLen, harray]
    rfl
  exact onHost_of_ok hlen

theorem arrayLen_of_error {e : HostError} (harray : w.host.itemsOf paths = .error e) :
    (onHost .host (HostRuntime.arrayLen paths) : Operation Arena Nat) w =
      .error (.error (.host e)) w := by
  have hlen : HostRuntime.arrayLen paths w.host = .error (.error e) w.host := by
    refine Action.look_of_error ?_
    rw [Arena.arrayLen, harray]
    rfl
  exact onHost_of_error hlen

/-! ## Loads -/

/-- What happens once the tag and the array are known. -/
theorem bulkLoad_of_array [Memory] (htag : limits.maxTagLen.toNat < Allocation.maxSize)
    (htagged : Tagged limits w.host tag name) (harray : w.host.itemsOf paths = .ok items) :
    bulkLoad limits tag paths w =
      (if limits.maxLoadPaths.toNat < items.length % 2 ^ 32 then
        Action.fail (.capacityExceeded .pathList (items.length % 2 ^ 32) limits.maxLoadPaths.toNat)
      else if items.length % 2 ^ 32 = 0 then return
      else do
        reserve .pathList (items.length % 2 ^ 32 * nativeWidth)
        let status ← withPaths limits paths 0 (request name) (items.length % 2 ^ 32)
        if status = 0 then return else Action.fail (.callFailure (.loadStatus status)) :
        Operation Arena Unit) w := by
  rw [bulkLoad]
  refine (Action.bind_of_ok (decodeTag_of_tagged htag htagged)).trans ?_
  rw [Action.bind_of_ok (arrayLen_of_items harray)]
  rfl

section Load

variable (htag : limits.maxTagLen.toNat < Allocation.maxSize)
  (hpaths : ∀ items, w.host.itemsOf paths = .ok items → items.length < 2 ^ 32)
include htag hpaths

/-- What happens once it is known that there is something to load. -/
theorem bulkLoad_listed [Memory] (h : Listed limits w.host tag paths name items)
    (hne : items ≠ []) :
    bulkLoad limits tag paths w =
      (do
        reserve .pathList (items.length * nativeWidth)
        let status ← withPaths limits paths 0 (request name) items.length
        if status = 0 then return else Action.fail (.callFailure (.loadStatus status)) :
        Operation Arena Unit) w := by
  rw [bulkLoad_of_array htag h.toTagged h.array, Nat.mod_eq_of_lt (hpaths items h.array),
    if_neg (Nat.not_lt.mpr h.few), if_neg (fun hzero => hne (List.length_eq_zero_iff.mp hzero))]

/-- What happens once there is memory for the list of the paths. -/
theorem bulkLoad_prepared [Memory] (h : Prepared limits w.host tag paths name items) :
    bulkLoad limits tag paths w =
      (withPaths limits paths 0 (request name) items.length >>= fun status =>
        if status = 0 then return else Action.fail (.callFailure (.loadStatus status)) :
        Operation Arena Unit) w := by
  rw [bulkLoad_listed htag hpaths h.toListed h.some, Action.bind_of_ok (reserve_of_fits h.fits)]

/-- A rule that applies says how loading ends. -/
theorem bulkLoad_of_loading [Memory] {r : EStateM.Result (Abort BridgeError) (World Arena) Unit}
    (h : Loading limits w tag paths r) : bulkLoad limits tag paths w = r := by
  cases h with
  | noTag htext => exact Action.bind_of_error (decodeTag_of_error htext)
  | emptyTag htext => exact Action.bind_of_error (decodeTag_empty htext)
  | longTag htext hlong => exact Action.bind_of_error (decodeTag_long htext hlong)
  | noArray htagged harray =>
    rw [bulkLoad]
    refine (Action.bind_of_ok (decodeTag_of_tagged htag htagged)).trans ?_
    exact Action.bind_of_error (arrayLen_of_error harray)
  | longArray htagged harray hlong =>
    rw [bulkLoad_of_array htag htagged harray, Nat.mod_eq_of_lt (hpaths _ harray), if_pos hlong]
    rfl
  | nothing hlisted =>
    rw [bulkLoad_of_array htag hlisted.toTagged hlisted.array]
    rfl
  | noList hlisted hne hroom =>
    rw [bulkLoad_listed htag hpaths hlisted hne, Action.bind_of_error (reserve_of_not hroom)]
  | path hprepared hall hr =>
    rw [bulkLoad_prepared htag hpaths hprepared,
      Action.bind_of_error (withPaths_refuses (request _) hprepared.array hall hr)]
  | loaded hprepared hall hload =>
    rw [bulkLoad_prepared htag hpaths hprepared,
      Action.bind_of_ok (withPaths_loads hprepared.array hall hload)]
    rfl
  | failed hprepared hall hload hstatus =>
    rw [bulkLoad_prepared htag hpaths hprepared,
      Action.bind_of_ok (withPaths_loads hprepared.array hall hload), if_neg hstatus]
    rfl

end Load

theorem loading_prepared [Memory] (h : Prepared limits w.host tag paths name items) :
    ∃ r, Loading limits w tag paths r := by
  rcases takesAll_or_first limits w.host 0 items with
    ⟨texts, b, hall⟩ | ⟨before, item, after, texts, b, abort, c, rfl, hall, hr⟩
  · rcases hload : w.engine.loadFromFile name (texts.map Utf8.octets) w.streams with
      ⟨status, engine, streams⟩
    have hloads := loads_of_loadFromFile hload
    by_cases hstatus : status = 0
    · subst hstatus
      exact ⟨_, .loaded h hall hload (hloads.trans (if_pos rfl))⟩
    · exact ⟨_, .failed h hall hload hstatus (hloads.trans (if_neg hstatus))⟩
  · rw [Nat.zero_add] at hr
    exact ⟨_, .path h hall hr⟩

theorem loading_listed [Memory] (h : Listed limits w.host tag paths name items) :
    ∃ r, Loading limits w tag paths r := by
  by_cases hne : items = []
  · subst hne
    exact ⟨_, .nothing h⟩
  · by_cases hroom : Memory.grants (items.length * nativeWidth)
    · exact loading_prepared ⟨h, hne, hroom⟩
    · exact ⟨_, .noList h hne hroom⟩

/-- Some rule applies to every load. -/
theorem loading_total [Memory] (limits : Limits) (w : World Arena) (tag paths : Handle) :
    ∃ r, Loading limits w tag paths r := by
  cases htext : w.host.stringOf tag with
  | error e => exact ⟨_, .noTag htext⟩
  | ok name =>
    by_cases hne : name = ""
    · subst hne
      exact ⟨_, .emptyTag htext⟩
    · by_cases hshort : Utf8.size name ≤ limits.maxTagLen.toNat
      · have htagged : Tagged limits w.host tag name := ⟨htext, hne, hshort⟩
        cases harray : w.host.itemsOf paths with
        | error e => exact ⟨_, .noArray htagged harray⟩
        | ok items =>
          by_cases hfew : items.length ≤ limits.maxLoadPaths.toNat
          · exact loading_listed ⟨htagged, harray, hfew⟩
          · exact ⟨_, .longArray htagged harray (Nat.not_le.mp hfew)⟩
      · exact ⟨_, .longTag htext (Nat.not_le.mp hshort)⟩

/-- **Loads end to end**: a load ends as one of the rules says.  Assumed is that there can be a
buffer for the longest tag allowed, and that the length of the array fits a word of 32 bits. -/
theorem bulkLoad_iff [Memory] (limits : Limits) (w : World Arena) (tag paths : Handle)
    (r : EStateM.Result (Abort BridgeError) (World Arena) Unit)
    (htag : limits.maxTagLen.toNat < Allocation.maxSize)
    (hpaths : ∀ items, w.host.itemsOf paths = .ok items → items.length < 2 ^ 32) :
    bulkLoad limits tag paths w = r ↔ Loading limits w tag paths r := by
  refine ⟨fun h => ?_, bulkLoad_of_loading htag hpaths⟩
  obtain ⟨r', hr'⟩ := loading_total limits w tag paths
  rw [← h, bulkLoad_of_loading htag hpaths hr']
  exact hr'

/-- Of two paths the second has a NUL behind its first octet: the first is acquired and released,
and the engine is not asked. -/
theorem bulkLoad_iff_nul :
    let w : World Arena := ⟨{ slots := #[.string "py", .boolean true, .string "b\x00c",
      .array [⟨1⟩, ⟨2⟩]] }, {}, default⟩
    ({} : Limits).maxTagLen.toNat < Allocation.maxSize ∧
      (∀ items, w.host.itemsOf ⟨3⟩ = .ok items → items.length < 2 ^ 32) ∧
      bulkLoad {} ⟨0⟩ ⟨3⟩ w = .error (.error (.conversion (.interiorNul 1)))
        (w.spent (w.host.addAll [.string "true"]) w.engine w.streams 1) := by
  intro w
  have htag : ({} : Limits).maxTagLen.toNat < Allocation.maxSize := by decide
  have hpaths : ∀ items, w.host.itemsOf ⟨3⟩ = .ok items → items.length < 2 ^ 32 := by
    rintro items ⟨⟩
    decide
  have hprepared : Prepared {} w.host ⟨0⟩ ⟨3⟩ "py" ([⟨1⟩] ++ ⟨2⟩ :: []) :=
    ⟨⟨⟨rfl, by decide, by decide⟩, rfl, by decide⟩, by decide, by decide⟩
  have hfirst : Takes {} w.host ⟨1⟩ "true" (w.host.addAll [.string "true"]) :=
    ⟨rfl, by decide, by decide, by decide, by decide⟩
  have hsecond : Refuses {} 1 (w.host.addAll [.string "true"]) ⟨2⟩
      (.error (.conversion (.interiorNul [98].length))) (w.host.addAll [.string "true"]) :=
    @Refuses.nul _ _ _ _ _ "b\x00c" [98] [99] _ rfl (by decide) (by decide) rfl (by decide)
  exact ⟨htag, hpaths, (bulkLoad_iff {} w ⟨0⟩ ⟨3⟩ _ htag hpaths).mpr
    (.path hprepared (.cons hfirst .nil) hsecond)⟩

end Bridge

end ForeignCall
