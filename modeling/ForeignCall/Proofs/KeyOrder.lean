import Mathlib.Data.List.Forall2
import Mathlib.Data.List.Perm.Subperm
import Mathlib.Data.List.Sort
import ForeignCall.Entries
import ForeignCall.Proofs.Utf8

/-!
# ForeignCall.Proofs.KeyOrder

What is left of entries that may repeat keys: the last one of each key, sorted
by the octets of the keys.

`Entries.ofList` comes to this by insertion, and compares keys by code point.
That the two orders are one is a property of UTF-8: of two characters the
lesser one has the lesser octets, and they differ before either ends.

* `Utf8.octets_lt_octets` — texts are ordered as their octets are;
* `Entries.ofList_eq_reduce` — what insertion leaves is what is left;
* `Entries.Alike.ofList` — it does the same whatever the keys hold.
-/

namespace ForeignCall

namespace Utf8

/-! ## Order of texts -/

/-- The first octets decide, unless they are equal. -/
theorem ofNat_cons_lt {m n : Nat} {xs ys : List UInt8} (hn : n < 256) (hle : m ≤ n)
    (h : m = n → xs < ys) : UInt8.ofNat m :: xs < UInt8.ofNat n :: ys := by
  rw [List.cons_lt_cons_iff]
  by_cases heq : m = n
  · exact .inr ⟨by rw [heq], h heq⟩
  · left
    rw [UInt8.lt_iff_toNat_lt, toNat_ofNat hn, toNat_ofNat (Nat.lt_of_le_of_lt hle hn)]
    exact Nat.lt_of_le_of_ne hle heq

/-- The octets of the lesser of two characters are less, whatever follows them. -/
theorem encodeChar_append_lt {c d : Char} (h : c < d) (x y : List UInt8) :
    String.utf8EncodeChar c ++ x < String.utf8EncodeChar d ++ y := by
  have hlt : c.val.toNat < d.val.toNat := h
  have hlimit : d.val.toNat < 0xD800 ∨ 0xDFFF < d.val.toNat ∧ d.val.toNat < 0x110000 := d.valid
  unfold String.utf8EncodeChar
  generalize c.val.toNat = m at hlt
  generalize d.val.toNat = n at hlt hlimit
  dsimp only
  -- a longer character has a greater first octet; equally long ones compare as digits to base 64
  split
  · split
    · exact ofNat_cons_lt (by omega) (by omega) (by omega)
    · split
      · exact ofNat_cons_lt (by omega) (by omega) (by omega)
      · split
        · exact ofNat_cons_lt (by omega) (by omega) (by omega)
        · exact ofNat_cons_lt (by omega) (by omega) (by omega)
  · split
    · rw [if_neg (by omega)]
      split
      · refine ofNat_cons_lt (by omega) (by omega) fun _ => ?_
        exact ofNat_cons_lt (by omega) (by omega) (by omega)
      · split
        · exact ofNat_cons_lt (by omega) (by omega) (by omega)
        · exact ofNat_cons_lt (by omega) (by omega) (by omega)
    · split
      · rw [if_neg (by omega), if_neg (by omega)]
        split
        · refine ofNat_cons_lt (by omega) (by omega) fun _ => ?_
          refine ofNat_cons_lt (by omega) (by omega) fun _ => ?_
          exact ofNat_cons_lt (by omega) (by omega) (by omega)
        · exact ofNat_cons_lt (by omega) (by omega) (by omega)
      · rw [if_neg (by omega), if_neg (by omega), if_neg (by omega)]
        refine ofNat_cons_lt (by omega) (by omega) fun _ => ?_
        refine ofNat_cons_lt (by omega) (by omega) fun _ => ?_
        refine ofNat_cons_lt (by omega) (by omega) fun _ => ?_
        exact ofNat_cons_lt (by omega) (by omega) (by omega)

theorem flatMap_encodeChar_lt {cs ds : List Char} (h : cs < ds) :
    cs.flatMap String.utf8EncodeChar < ds.flatMap String.utf8EncodeChar := by
  induction cs generalizing ds with
  | nil =>
    cases ds with
    | nil => exact absurd h (List.not_lt_nil _)
    | cons d ds =>
      rw [List.flatMap_cons]
      obtain ⟨octet, more, hcons⟩ := List.exists_cons_of_ne_nil (encodeChar_ne_nil d)
      rw [hcons]
      exact List.nil_lt_cons _ _
  | cons c cs ih =>
    cases ds with
    | nil => exact absurd h (List.not_lt_nil _)
    | cons d ds =>
      rw [List.flatMap_cons, List.flatMap_cons]
      rcases List.cons_lt_cons_iff.mp h with hlt | ⟨rfl, hrest⟩
      · exact encodeChar_append_lt hlt _ _
      · exact List.append_left_lt (ih hrest)

/-- **One order**: texts compare as their octets do. -/
theorem octets_lt_octets {s t : String} : octets s < octets t ↔ s < t := by
  constructor
  · intro h
    by_contra hnot
    rcases eq_or_ne s t with rfl | hne
    · exact List.lt_irrefl _ h
    · have hgt : t < s := Std.lt_of_le_of_ne (String.not_lt.mp hnot) hne.symm
      have hback : octets t < octets s := flatMap_encodeChar_lt (String.lt_iff.mp hgt)
      exact List.lt_irrefl _ (List.lt_trans h hback)
  · intro h
    exact flatMap_encodeChar_lt (String.lt_iff.mp h)

end Utf8

namespace Entries

variable {α : Type u} {β : Type v}

/-! ## The last of each key -/

/-- The last entry of each key, these in their order. -/
def lastOfEach : List (String × α) → List (String × α)
  | [] => []
  | entry :: rest =>
    if contains entry.1 rest then lastOfEach rest else entry :: lastOfEach rest

/-- The last entry of each key, sorted by the octets of the keys. -/
def reduce (entries : List (String × α)) : List (String × α) :=
  (lastOfEach entries).mergeSort fun p q => decide (Utf8.octets p.1 ≤ Utf8.octets q.1)

theorem find?_eq_none {key : String} {entries : List (String × α)} :
    find? key entries = none ↔ key ∉ keys entries := by
  induction entries with
  | nil => simp [find?, keys]
  | cons entry rest ih =>
    obtain ⟨k, v⟩ := entry
    by_cases hk : key = k
    · simp [find?, keys, hk]
    · simpa [find?, keys, hk] using ih

theorem find?_append (key : String) (entries more : List (String × α)) :
    find? key (entries ++ more) = (find? key entries).or (find? key more) := by
  induction entries with
  | nil => rfl
  | cons entry rest ih =>
    obtain ⟨k, v⟩ := entry
    by_cases hk : key = k
    · simp [find?, hk]
    · simp [find?, hk, ih]

/-- Where no key is repeated, an entry is what its key holds. -/
theorem mem_iff_find? {entries : List (String × α)} (h : (keys entries).Nodup)
    {entry : String × α} : entry ∈ entries ↔ find? entry.1 entries = some entry.2 := by
  induction entries with
  | nil => simp [find?]
  | cons first rest ih =>
    obtain ⟨k, v⟩ := first
    obtain ⟨hfirst, hrest⟩ := List.nodup_cons.mp h
    rw [List.mem_cons, ih hrest]
    by_cases hk : entry.1 = k
    · have hnone : find? entry.1 rest = none := find?_eq_none.mpr (by rw [hk]; exact hfirst)
      rw [hnone, find?, if_pos hk, Prod.ext_iff]
      simp [hk, eq_comm]
    · rw [find?, if_neg hk, Prod.ext_iff]
      simp [hk]

theorem contains_eq_true {key : String} {entries : List (String × α)} :
    contains key entries = true ↔ key ∈ keys entries := by
  rw [contains, Option.isSome_iff_ne_none, ne_eq, find?_eq_none, not_not]

theorem sublist_lastOfEach (entries : List (String × α)) :
    (lastOfEach entries).Sublist entries := by
  induction entries with
  | nil => exact .slnil
  | cons entry rest ih =>
    rw [lastOfEach]
    split
    · exact ih.cons _
    · exact ih.cons_cons _

theorem mem_keys_lastOfEach {key : String} {entries : List (String × α)}
    (h : key ∈ keys (lastOfEach entries)) : key ∈ keys entries :=
  ((sublist_lastOfEach entries).map Prod.fst).subset h

theorem nodup_keys_lastOfEach (entries : List (String × α)) :
    (keys (lastOfEach entries)).Nodup := by
  induction entries with
  | nil => exact List.nodup_nil
  | cons entry rest ih =>
    rw [lastOfEach]
    split
    · exact ih
    · next hnot =>
      refine List.nodup_cons.mpr ⟨fun hmem => ?_, ih⟩
      exact hnot (contains_eq_true.mpr (mem_keys_lastOfEach hmem))

theorem lastOfEach_of_nodup {entries : List (String × α)} (h : (keys entries).Nodup) :
    lastOfEach entries = entries := by
  induction entries with
  | nil => rfl
  | cons entry rest ih =>
    obtain ⟨hfirst, hrest⟩ := List.nodup_cons.mp h
    rw [lastOfEach, if_neg (fun hmem => hfirst (contains_eq_true.mp hmem)), ih hrest]

/-- What a key holds is its last entry. -/
theorem find?_lastOfEach (key : String) (entries : List (String × α)) :
    find? key (lastOfEach entries) = find? key entries.reverse := by
  induction entries with
  | nil => rfl
  | cons entry rest ih =>
    obtain ⟨k, v⟩ := entry
    rw [List.reverse_cons, find?_append, ← ih, lastOfEach]
    split
    · next hlater =>
      by_cases hk : key = k
      · have hsome : find? key (lastOfEach rest) ≠ none := by
          rw [ih, ne_eq, find?_eq_none, not_not, keys, List.map_reverse, List.mem_reverse, hk]
          exact contains_eq_true.mp hlater
        obtain ⟨u, hu⟩ := Option.ne_none_iff_exists'.mp hsome
        rw [hu, Option.some_or]
      · rw [find?, if_neg hk, find?, Option.or_none]
    · next hlast =>
      by_cases hk : key = k
      · have hnone : find? key (lastOfEach rest) = none := by
          rw [find?_eq_none]
          intro hmem
          exact hlast (contains_eq_true.mpr (hk ▸ mem_keys_lastOfEach hmem))
        rw [hnone, find?, if_pos hk, Option.none_or, find?, if_pos hk]
      · rw [find?, if_neg hk, find?, if_neg hk, find?, Option.or_none]

/-! ## Insertion -/

/-- Whether entries are sorted is up to their keys. -/
theorem sorted_iff {entries : List (String × α)} :
    Sorted entries ↔ (keys entries).Pairwise (· < ·) :=
  List.pairwise_map.symm

theorem nodup_keys_of_sorted {entries : List (String × α)} (h : Sorted entries) :
    (keys entries).Nodup := by
  rw [List.nodup_iff_pairwise_ne]
  apply List.Pairwise.imp _ (sorted_iff.mp h)
  rintro k _ hlt rfl
  exact String.lt_irrefl k hlt

theorem nodup_of_keys {entries : List (String × α)} (h : (keys entries).Nodup) :
    entries.Nodup :=
  List.Nodup.of_map _ h

theorem ofList_perm_lastOfEach (entries : List (String × α)) :
    (ofList entries).Perm (lastOfEach entries) := by
  have hsorted : (keys (ofList entries)).Nodup := nodup_keys_of_sorted (sorted_ofList entries)
  have hlast : (keys (lastOfEach entries)).Nodup := nodup_keys_lastOfEach entries
  rw [List.perm_ext_iff_of_nodup (nodup_of_keys hsorted) (nodup_of_keys hlast)]
  intro entry
  rw [mem_iff_find? hsorted, mem_iff_find? hlast, find?_ofList, find?_lastOfEach]

/-- **What is left**: insertion leaves the last entry of each key, in the order of the octets. -/
theorem ofList_eq_reduce (entries : List (String × α)) : ofList entries = reduce entries := by
  have hperm : (ofList entries).Perm (reduce entries) :=
    (ofList_perm_lastOfEach entries).trans (List.mergeSort_perm _ _).symm
  have hsorted : Sorted (ofList entries) := sorted_ofList entries
  have hleft : (ofList entries).Pairwise fun p q => Utf8.octets p.1 ≤ Utf8.octets q.1 :=
    hsorted.imp fun hlt => List.le_of_lt (Utf8.octets_lt_octets.mpr hlt)
  have hright : (reduce entries).Pairwise fun p q => Utf8.octets p.1 ≤ Utf8.octets q.1 := by
    have htrans : ∀ p q r : String × α,
        decide (Utf8.octets p.1 ≤ Utf8.octets q.1) = true →
        decide (Utf8.octets q.1 ≤ Utf8.octets r.1) = true →
        decide (Utf8.octets p.1 ≤ Utf8.octets r.1) = true := by
      simpa using fun _ _ _ _ _ _ => List.le_trans
    have htotal : ∀ p q : String × α,
        (decide (Utf8.octets p.1 ≤ Utf8.octets q.1) ||
          decide (Utf8.octets q.1 ≤ Utf8.octets p.1)) = true := by
      simpa using fun _ _ _ _ => List.le_total _ _
    have hmerge := List.pairwise_mergeSort htrans htotal (lastOfEach entries)
    exact hmerge.imp of_decide_eq_true
  refine hperm.eq_of_pairwise (fun p q hp hq hle hge => ?_) hleft hright
  have hkey : p.1 = q.1 := by
    have hnlt : ¬p.1 < q.1 := fun h => absurd (Utf8.octets_lt_octets.mpr h) (List.not_lt.mpr hge)
    have hngt : ¬q.1 < p.1 := fun h => absurd (Utf8.octets_lt_octets.mpr h) (List.not_lt.mpr hle)
    exact String.le_antisymm (String.not_lt.mp hngt) (String.not_lt.mp hnlt)
  -- of one key the entries have one, whose value both are
  have hnodup : (keys (ofList entries)).Nodup := nodup_keys_of_sorted hsorted
  have hfindp := (mem_iff_find? hnodup).mp hp
  have hfindq := (mem_iff_find? hnodup).mp (hperm.mem_iff.mpr hq)
  rw [hkey, hfindq] at hfindp
  exact Prod.ext hkey (Option.some.inj hfindp).symm

/-- Sorted keys are known by which they are. -/
theorem keys_ext {xs : List (String × α)} {ys : List (String × β)} (hx : Sorted xs) (hy : Sorted ys)
    (h : ∀ key, key ∈ keys xs ↔ key ∈ keys ys) : keys xs = keys ys := by
  have hperm : (keys xs).Perm (keys ys) :=
    (List.perm_ext_iff_of_nodup (nodup_keys_of_sorted hx) (nodup_keys_of_sorted hy)).mpr h
  refine hperm.eq_of_pairwise (fun k l _ _ hlt hgt => ?_) (sorted_iff.mp hx) (sorted_iff.mp hy)
  exact absurd (String.lt_trans hlt hgt) (String.lt_irrefl k)

theorem mem_keys_insert {key other : String} {value : α} {entries : List (String × α)} :
    other ∈ keys (insert key value entries) ↔ other = key ∨ other ∈ keys entries := by
  rw [← contains_eq_true, ← contains_eq_true, contains, contains]
  by_cases h : other = key
  · subst h
    simp
  · simp [find?_insert_ne h, h]

/-- To change what a key holds changes no keys. -/
theorem keys_insert_of_mem {key : String} {value : α} {entries : List (String × α)}
    (hsorted : Sorted entries) (h : key ∈ keys entries) :
    keys (insert key value entries) = keys entries := by
  refine keys_ext (sorted_insert key value hsorted) hsorted fun other => ?_
  rw [mem_keys_insert]
  exact or_iff_right_of_imp fun heq => heq ▸ h

/-- Insertion leaves some of the values. -/
theorem values_subperm_ofList (entries : List (String × α)) :
    ((ofList entries).map Prod.snd).Subperm (entries.map Prod.snd) :=
  ((ofList_perm_lastOfEach entries).map Prod.snd).subperm.trans
    ((sublist_lastOfEach entries).map Prod.snd).subperm

/-- Insertion leaves sorted entries as they are. -/
theorem ofList_of_sorted {entries : List (String × α)} (h : Sorted entries) :
    ofList entries = entries := by
  have hlast : lastOfEach entries = entries := lastOfEach_of_nodup (nodup_keys_of_sorted h)
  have hperm : (ofList entries).Perm (lastOfEach entries) := ofList_perm_lastOfEach entries
  rw [hlast] at hperm
  refine hperm.eq_of_pairwise (fun p q _ _ hlt hgt => ?_) (sorted_ofList entries) h
  exact absurd (String.lt_trans hlt hgt) (String.lt_irrefl p.1)

/-- So it does when the keys come to hold other values. -/
theorem ofList_zip {entries : List (String × α)} {values : List β} (h : Sorted entries)
    (hlength : values.length = entries.length) :
    ofList ((keys entries).zip values) = (keys entries).zip values := by
  have hkeys : keys ((keys entries).zip values) = keys entries :=
    List.map_fst_zip (by simp [keys, hlength])
  exact ofList_of_sorted (sorted_iff.mpr (by rw [hkeys]; exact sorted_iff.mp h))

/-! ## Entries with the same keys -/

/-- Entry for entry the keys are equal and the values related. -/
def Alike (R : α → β → Prop) : List (String × α) → List (String × β) → Prop :=
  List.Forall₂ fun p q => p.1 = q.1 ∧ R p.2 q.2

variable {R : α → β → Prop}

theorem Alike.values {xs : List (String × α)} {ys : List (String × β)} (h : Alike R xs ys) :
    List.Forall₂ R (xs.map Prod.snd) (ys.map Prod.snd) := by
  induction h with
  | nil => exact .nil
  | cons hfirst _ ih => exact .cons hfirst.2 ih

theorem Alike.insert {xs : List (String × α)} {ys : List (String × β)} (h : Alike R xs ys)
    (key : String) {x : α} {y : β} (hxy : R x y) :
    Alike R (insert key x xs) (insert key y ys) := by
  induction h with
  | nil => exact .cons ⟨rfl, hxy⟩ .nil
  | @cons p q xs ys hfirst hrest ih =>
    obtain ⟨k, u⟩ := p
    obtain ⟨l, w⟩ := q
    obtain ⟨rfl, huw⟩ := hfirst
    unfold Entries.insert
    split
    · exact .cons ⟨rfl, hxy⟩ (.cons ⟨rfl, huw⟩ hrest)
    · split
      · exact .cons ⟨rfl, hxy⟩ hrest
      · exact .cons ⟨rfl, huw⟩ ih

/-- Insertion does the same with entries that have the same keys. -/
theorem Alike.ofList {xs : List (String × α)} {ys : List (String × β)} (h : Alike R xs ys) :
    Alike R (ofList xs) (ofList ys) := by
  have hfold : ∀ {sorted : List (String × α)} {sorted' : List (String × β)},
      Alike R sorted sorted' →
      Alike R (xs.foldl (fun sorted entry => Entries.insert entry.1 entry.2 sorted) sorted)
        (ys.foldl (fun sorted entry => Entries.insert entry.1 entry.2 sorted) sorted') := by
    induction h with
    | nil => exact id
    | cons hfirst _ ih =>
      intro sorted sorted' hsorted
      rw [List.foldl_cons, List.foldl_cons, hfirst.1]
      exact ih (hsorted.insert _ hfirst.2)
  exact hfold .nil

end Entries

end ForeignCall
