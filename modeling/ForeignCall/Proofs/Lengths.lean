import ForeignCall.Proofs.Limits

/-!
# ForeignCall.Proofs.Lengths

Arrays of paths of any length.

The host tells the length of an array as a word of 32 bits, and a load knows no
other length.  So it gets to see as many items from the front as the word says
(`seen`), and whatever is behind them is left out without notice: too many
paths are those that are too many by the word, and the engine gets what has
been seen.

`bulkLoad_length` — what becomes of an array of any length, and for which ones
a load goes by their length (`Counted`).
-/

namespace ForeignCall

namespace Bridge

open Operation

/-- The items of an array that a load gets to see. -/
def seen (items : List Handle) : List Handle :=
  items.take (items.length % 2 ^ 32)

theorem seen_prefix (items : List Handle) : seen items <+: items :=
  List.take_prefix _ _

theorem length_seen (items : List Handle) : (seen items).length = items.length % 2 ^ 32 := by
  rw [seen, List.length_take, Nat.min_eq_left (Nat.mod_le ..)]

/-- All items are seen unless there are more of them than a word can say. -/
theorem length_seen_eq_iff {items : List Handle} :
    (seen items).length = items.length ↔ items.length < 2 ^ 32 := by
  rw [length_seen]
  omega

theorem TakesAll.length_eq [Memory] {limits : Limits} {a b : Arena} {items : List Handle}
    {texts : List String} (h : TakesAll limits a items texts b) : texts.length = items.length := by
  induction h with
  | nil => rfl
  | cons _ _ ih => exact congrArg (· + 1) ih

/-- A load goes by the length of the array: if it is too long, this is the length that is refused,
and nothing else happens; and if there is something to load and the load comes through, the engine
has got as many paths. -/
structure Counted [Memory] (limits : Limits) (w : World Arena) (tag paths : Handle) (name : String)
    (items : List Handle) : Prop where
  refused : limits.maxLoadPaths.toNat < items.length → bulkLoad limits tag paths w =
    .error (.error (.capacityExceeded .pathList items.length limits.maxLoadPaths.toNat)) w
  received (w' : World Arena) : bulkLoad limits tag paths w = .ok () w' → items ≠ [] →
    ∃ texts : List String, texts.length = items.length ∧
      w'.engine.loads = w.engine.loads ++ [⟨name, texts⟩]

section
variable [Memory] {limits : Limits} {w w' : World Arena} {tag paths : Handle} {name : String}
  {items : List Handle} (htag : limits.maxTagLen.toNat < Allocation.maxSize)
  (htagged : Tagged limits w.host tag name) (harray : w.host.itemsOf paths = .ok items)
include htag htagged harray

/-- Too many items are seen. -/
theorem bulkLoad_of_many (hmany : limits.maxLoadPaths.toNat < (seen items).length) :
    bulkLoad limits tag paths w = .error
      (.error (.capacityExceeded .pathList (seen items).length limits.maxLoadPaths.toNat)) w := by
  rw [length_seen] at hmany ⊢
  rw [bulkLoad_of_array htag htagged harray, if_pos hmany]
  rfl

/-- No items are seen. -/
theorem bulkLoad_of_none (hnone : seen items = []) : bulkLoad limits tag paths w = .ok () w := by
  have hzero : items.length % 2 ^ 32 = 0 := by rw [← length_seen, hnone, List.length_nil]
  rw [bulkLoad_of_array htag htagged harray, if_neg (by omega), if_pos hzero]
  rfl

/-- The items that are seen stand at the front of the array. -/
theorem bulkLoad_of_front (hsome : seen items ≠ [])
    (hfew : (seen items).length ≤ limits.maxLoadPaths.toNat) :
    bulkLoad limits tag paths w =
      (do
        reserve .pathList ((seen items).length * nativeWidth)
        let status ← withPaths limits paths 0 (request name) (seen items).length
        if status = 0 then return else Action.fail (.callFailure (.loadStatus status)) :
        Operation Arena Unit) w := by
  have hcount : (seen items).length ≠ 0 := fun hzero => hsome (List.length_eq_zero_iff.mp hzero)
  rw [bulkLoad_of_array htag htagged harray, ← length_seen, if_neg (Nat.not_lt.mpr hfew),
    if_neg hcount]

/-- The items that are seen are all taken, and the engine answers. -/
theorem bulkLoad_of_takesAll {texts : List String} {b : Arena} {status : Int32} {engine : Engine}
    {streams : Log.Streams} (hsome : seen items ≠ [])
    (hfew : (seen items).length ≤ limits.maxLoadPaths.toNat)
    (hroom : Memory.grants ((seen items).length * nativeWidth))
    (hall : TakesAll limits w.host (seen items) texts b)
    (hanswer : w.engine.loadFromFile name (texts.map Utf8.octets) w.streams =
      (status, engine, streams)) :
    bulkLoad limits tag paths w =
      (if status = 0 then return else Action.fail (.callFailure (.loadStatus status)) :
        Operation Arena Unit) (w.spent b engine streams (seen items).length) := by
  obtain ⟨rest, hrest⟩ := seen_prefix items
  have hfront : w.host.itemsOf paths = .ok (seen items ++ rest) := by rw [hrest, harray]
  rw [bulkLoad_of_front htag htagged harray hsome hfew, Action.bind_of_ok (reserve_of_fits hroom)]
  exact Action.bind_of_ok (withPaths_loads_front rest hfront hall hanswer)

/-- The items that are seen are loaded, or the load fails for another reason than their number. -/
theorem bulkLoad_of_seen (hsome : seen items ≠ [])
    (hfew : (seen items).length ≤ limits.maxLoadPaths.toNat) :
    (∃ texts b w', TakesAll limits w.host (seen items) texts b ∧
      bulkLoad limits tag paths w = .ok () w' ∧
      w'.engine.loads = w.engine.loads ++ [⟨name, texts⟩]) ∨
    ∃ abort w', bulkLoad limits tag paths w = .error abort w' ∧
      ∀ len most, abort ≠ .error (.capacityExceeded .pathList len most) := by
  by_cases hroom : Memory.grants ((seen items).length * nativeWidth)
  case neg =>
    rw [bulkLoad_of_front htag htagged harray hsome hfew,
      Action.bind_of_error (reserve_of_not hroom)]
    exact .inr ⟨.error (.allocation .pathList), w, rfl, nofun⟩
  rcases takesAll_or_first limits w.host 0 (seen items) with
    ⟨texts, b, hall⟩ | ⟨before, item, after, texts, b, abort, c, hsplit, hall, hr⟩
  · rcases hanswer : w.engine.loadFromFile name (texts.map Utf8.octets) w.streams with
      ⟨status, engine, streams⟩
    rw [bulkLoad_of_takesAll htag htagged harray hsome hfew hroom hall hanswer]
    by_cases hstatus : status = 0
    · rw [if_pos hstatus]
      exact .inl ⟨texts, b, _, hall, rfl, (loads_of_loadFromFile hanswer).trans (if_pos hstatus)⟩
    · rw [if_neg hstatus]
      exact .inr ⟨.error (.callFailure (.loadStatus status)), _, rfl, nofun⟩
  · obtain ⟨rest, hrest⟩ := seen_prefix items
    have hfront : w.host.itemsOf paths = .ok (before ++ item :: (after ++ rest)) := by
      rw [harray, ← hrest, hsplit, List.append_assoc, List.cons_append]
    rw [Nat.zero_add] at hr
    rw [bulkLoad_of_front htag htagged harray hsome hfew, Action.bind_of_ok (reserve_of_fits hroom),
      hsplit, List.length_append, List.length_cons,
      Action.bind_of_error (withPaths_refuses_front _ _ hfront hall hr)]
    refine .inr ⟨_, _, rfl, fun len most => ?_⟩
    cases hr <;> nofun

/-- All ways in which a load of an array can end. -/
theorem bulkLoad_cases :
    (bulkLoad limits tag paths w = .error
      (.error (.capacityExceeded .pathList (seen items).length limits.maxLoadPaths.toNat)) w) ∨
    (seen items = [] ∧ bulkLoad limits tag paths w = .ok () w) ∨
    (∃ texts b w', TakesAll limits w.host (seen items) texts b ∧
      bulkLoad limits tag paths w = .ok () w' ∧
      w'.engine.loads = w.engine.loads ++ [⟨name, texts⟩]) ∨
    ∃ abort w', bulkLoad limits tag paths w = .error abort w' ∧
      ∀ len most, abort ≠ .error (.capacityExceeded .pathList len most) := by
  by_cases hmany : limits.maxLoadPaths.toNat < (seen items).length
  · exact .inl (bulkLoad_of_many htag htagged harray hmany)
  by_cases hnone : seen items = []
  · exact .inr (.inl ⟨hnone, bulkLoad_of_none htag htagged harray hnone⟩)
  · exact .inr (.inr (bulkLoad_of_seen htag htagged harray hnone (Nat.not_lt.mp hmany)))

/-- What a load that comes through has loaded. -/
theorem seen_of_bulkLoad (hok : bulkLoad limits tag paths w = .ok () w') :
    seen items = [] ∧ w' = w ∨ ∃ texts b, TakesAll limits w.host (seen items) texts b ∧
      w'.engine.loads = w.engine.loads ++ [⟨name, texts⟩] := by
  rcases bulkLoad_cases htag htagged harray with
    hv | ⟨hnone, hv⟩ | ⟨texts, b, v, hall, hv, hloads⟩ | ⟨_, _, hv, -⟩ <;> cases hok.symm.trans hv
  · exact .inl ⟨hnone, rfl⟩
  · exact .inr ⟨texts, b, hall, hloads⟩

/-- The number that is refused is that of the items that are seen. -/
theorem length_seen_of_bulkLoad {len most : Nat} (herror : bulkLoad limits tag paths w =
    .error (.error (.capacityExceeded .pathList len most)) w') : len = (seen items).length := by
  rcases bulkLoad_cases htag htagged harray with
    hv | ⟨-, hv⟩ | ⟨_, _, _, -, hv, -⟩ | ⟨_, _, hv, hother⟩ <;> cases herror.symm.trans hv
  · rfl
  · exact absurd rfl (hother len most)

/-- A load goes by the length of an array that it sees as a whole, and never really by that of
another one. -/
theorem counted_iff : Counted limits w tag paths name items ↔
    (seen items).length = items.length ∨
      items.length ≤ limits.maxLoadPaths.toNat ∧ ∀ w', bulkLoad limits tag paths w ≠ .ok () w' := by
  constructor
  · intro hcounted
    by_cases hlength : (seen items).length = items.length
    · exact .inl hlength
    refine .inr ⟨Nat.not_lt.mp fun hmany => ?_, fun w' hok => ?_⟩
    · exact hlength (length_seen_of_bulkLoad htag htagged harray (hcounted.refused hmany)).symm
    · -- the engine would have got as many texts as were seen, and as many as there are items
      have hne : items ≠ [] := by
        rintro rfl
        exact hlength rfl
      obtain ⟨texts, htexts, hloads⟩ := hcounted.received w' hok hne
      rcases seen_of_bulkLoad htag htagged harray hok with ⟨-, rfl⟩ | ⟨texts', b, hall, hloads'⟩
      · simp at hloads
      · have hsame : texts = texts' := by simpa using hloads.symm.trans hloads'
        exact hlength (by rw [← hall.length_eq, ← hsame, htexts])
  · rintro (hlength | ⟨hfew, hnever⟩)
    · constructor
      · rw [← hlength]
        exact bulkLoad_of_many htag htagged harray
      · intro w' hok hne
        rcases seen_of_bulkLoad htag htagged harray hok with ⟨hnone, -⟩ | ⟨texts, b, hall, hloads⟩
        · rw [hnone, List.length_nil, eq_comm, List.length_eq_zero_iff] at hlength
          exact absurd hlength hne
        · exact ⟨texts, hall.length_eq.trans hlength, hloads⟩
    · exact ⟨fun hmany => absurd hfew (Nat.not_le.mpr hmany), fun w' hok => absurd hok (hnever w')⟩

end

/-- **Arrays of any length.**  If the items that are seen are too many, a load says how many they
are and does nothing; if it comes through, the engine has got the texts of those that are seen, or
there are none.  So a load goes by the length of the array if this fits 32 bits.  Of a longer array
that is true only for want of an occasion: its length is allowed, and something else fails. -/
theorem bulkLoad_length [Memory] {limits : Limits} {w : World Arena} {tag paths : Handle}
    {name : String} {items : List Handle} (hroom : Memory.grants (limits.maxTagLen.toNat + 1))
    (htagged : Tagged limits w.host tag name) (harray : w.host.itemsOf paths = .ok items) :
    (limits.maxLoadPaths.toNat < (seen items).length → bulkLoad limits tag paths w = .error
      (.error (.capacityExceeded .pathList (seen items).length limits.maxLoadPaths.toNat)) w) ∧
    (∀ w', bulkLoad limits tag paths w = .ok () w' → seen items = [] ∧ w' = w ∨
      ∃ texts b, TakesAll limits w.host (seen items) texts b ∧
        w'.engine.loads = w.engine.loads ++ [⟨name, texts⟩]) ∧
    (Counted limits w tag paths name items ↔ items.length < 2 ^ 32 ∨
      items.length ≤ limits.maxLoadPaths.toNat ∧
        ∀ w', bulkLoad limits tag paths w ≠ .ok () w') := by
  have htag : limits.maxTagLen.toNat < Allocation.maxSize := Memory.le_maxSize_of_grants hroom
  refine ⟨bulkLoad_of_many htag htagged harray, fun w' => seen_of_bulkLoad htag htagged harray, ?_⟩
  rw [counted_iff htag htagged harray, length_seen_eq_iff]

/-- A tag, a path, and an array of as many copies of the path. -/
def World.copies (n : Nat) : World Arena :=
  ⟨{ slots := #[.string "py", .string "a.py", .array (List.replicate n ⟨1⟩)] }, {}, default⟩

theorem tagged_copies (n : Nat) : Tagged {} (World.copies n).host ⟨0⟩ "py" :=
  ⟨rfl, by decide, by decide⟩

/-- One path too many by default. -/
theorem bulkLoad_length_oneTooMany :
    let w := World.copies 257
    Memory.grants (({} : Limits).maxTagLen.toNat + 1) ∧
      Tagged {} w.host ⟨0⟩ "py" ∧ w.host.itemsOf ⟨2⟩ = .ok (List.replicate 257 ⟨1⟩) ∧
      Counted {} w ⟨0⟩ ⟨2⟩ "py" (List.replicate 257 ⟨1⟩) ∧
      bulkLoad {} ⟨0⟩ ⟨2⟩ w = .error (.error (.capacityExceeded .pathList 257 256)) w := by
  intro w
  have hroom : Memory.grants (({} : Limits).maxTagLen.toNat + 1) := by decide
  have hlength : (List.replicate 257 (⟨1⟩ : Handle)).length = 257 := List.length_replicate
  have hcounted : Counted {} w ⟨0⟩ ⟨2⟩ "py" (List.replicate 257 ⟨1⟩) :=
    (bulkLoad_length hroom (tagged_copies 257) rfl).2.2.mpr (.inl (by rw [hlength]; decide))
  refine ⟨hroom, tagged_copies 257, rfl, hcounted, ?_⟩
  have hrefused := hcounted.refused (by rw [hlength]; decide)
  rwa [hlength] at hrefused

/-- Of so many copies one is seen, and loaded. -/
theorem bulkLoad_copies {n : Nat} (hn : n % 2 ^ 32 = 1) : ∃ w',
    bulkLoad {} ⟨0⟩ ⟨2⟩ (World.copies n) = .ok () w' ∧ w'.engine.loads = [⟨"py", ["a.py"]⟩] := by
  have hseen : seen (List.replicate n (⟨1⟩ : Handle)) = [⟨1⟩] := by
    have hle : 1 ≤ n := hn ▸ Nat.mod_le n (2 ^ 32)
    rw [seen, List.length_replicate, hn, List.take_replicate, Nat.min_eq_left hle]
    rfl
  have hpath : Takes {} (World.copies n).host ⟨1⟩ "a.py" (World.copies n).host :=
    ⟨rfl, by decide, by decide, by decide, by decide⟩
  have hall : TakesAll {} (World.copies n).host (seen (List.replicate n ⟨1⟩)) ["a.py"]
      (World.copies n).host := hseen ▸ .cons hpath .nil
  exact ⟨_, bulkLoad_of_takesAll (by decide) (tagged_copies n) rfl (by simp [hseen])
    (by rw [hseen]; decide) (by rw [hseen]; decide) hall rfl, rfl⟩

/-- More copies than a word can say: they are not too many, and one of them is loaded. -/
theorem bulkLoad_unseen :
    let w := World.copies (2 ^ 32 + 1)
    Tagged {} w.host ⟨0⟩ "py" ∧ w.host.itemsOf ⟨2⟩ = .ok (List.replicate (2 ^ 32 + 1) ⟨1⟩) ∧
      (∃ w', bulkLoad {} ⟨0⟩ ⟨2⟩ w = .ok () w' ∧ w'.engine.loads = [⟨"py", ["a.py"]⟩]) ∧
      ¬ Counted {} w ⟨0⟩ ⟨2⟩ "py" (List.replicate (2 ^ 32 + 1) ⟨1⟩) := by
  intro w
  have hloaded := bulkLoad_copies (n := 2 ^ 32 + 1) (by decide)
  refine ⟨tagged_copies _, rfl, hloaded, fun hcounted => ?_⟩
  obtain ⟨w', hok, -⟩ := hloaded
  have hmany : ({} : Limits).maxLoadPaths.toNat <
      (List.replicate (2 ^ 32 + 1) (⟨1⟩ : Handle)).length := by
    rw [List.length_replicate]
    decide
  cases hok.symm.trans (hcounted.refused hmany)

end Bridge

end ForeignCall
