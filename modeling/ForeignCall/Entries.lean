/-!
# ForeignCall.Entries

Association lists kept in strictly ascending key order: the fields of a JSON
object, the entries of a map value, the functions of an engine and the
factories of a log registry are all held this way.

Keys are ordered code point by code point, which is the order of their UTF-8
octets.  `insert` replaces what a key held, so of several entries with one key
the last one given survives.
-/

namespace ForeignCall

namespace Entries

variable {α : Type u}

/-- Put `value` under `key`, in place of whatever the key held. -/
def insert (key : String) (value : α) : List (String × α) → List (String × α)
  | [] => [(key, value)]
  | (k, v) :: rest =>
    if key < k then (key, value) :: (k, v) :: rest
    else if key = k then (key, value) :: rest
    else (k, v) :: insert key value rest

/-- The entries of a list that may repeat keys: the last of each key, in key order. -/
def ofList (entries : List (String × α)) : List (String × α) :=
  entries.foldl (fun sorted entry => insert entry.1 entry.2 sorted) []

/-- What a key holds. -/
def find? (key : String) : List (String × α) → Option α
  | [] => none
  | (k, v) :: rest => if key = k then some v else find? key rest

/-- Whether a key holds anything. -/
def contains (key : String) (entries : List (String × α)) : Bool :=
  (find? key entries).isSome

/-- The keys, in order. -/
def keys (entries : List (String × α)) : List String :=
  entries.map Prod.fst

/-- Strictly ascending keys, hence no key twice. -/
def Sorted (entries : List (String × α)) : Prop :=
  entries.Pairwise fun a b => a.1 < b.1

/-! ## Reading back an insertion -/

@[simp] theorem find?_insert_self (key : String) (value : α) (entries : List (String × α)) :
    find? key (insert key value entries) = some value := by
  induction entries with
  | nil => simp [insert, find?]
  | cons entry rest ih =>
    obtain ⟨k, v⟩ := entry
    unfold insert
    split
    · simp [find?]
    · split
      · simp [find?]
      · next hne => simp [find?, hne, ih]

theorem find?_insert_ne {key other : String} (h : other ≠ key) (value : α)
    (entries : List (String × α)) :
    find? other (insert key value entries) = find? other entries := by
  induction entries with
  | nil => simp [insert, find?, h]
  | cons entry rest ih =>
    obtain ⟨k, v⟩ := entry
    unfold insert
    split
    · simp [find?, h]
    · split
      · next heq => subst heq; simp [find?, h]
      · simp [find?, ih]

/-- Of several entries with one key the last one survives. -/
theorem find?_ofList (key : String) (entries : List (String × α)) :
    find? key (ofList entries) = find? key entries.reverse := by
  rw [ofList, ← List.foldr_reverse]
  induction entries.reverse with
  | nil => rfl
  | cons entry rest ih =>
    obtain ⟨k, v⟩ := entry
    rw [List.foldr_cons]
    by_cases hk : key = k
    · subst hk
      rw [find?_insert_self, find?, if_pos rfl]
    · rw [find?_insert_ne hk, ih, find?, if_neg hk]

/-! ## Order -/

theorem mem_insert {key : String} {value : α} {entries : List (String × α)} {entry : String × α}
    (h : entry ∈ insert key value entries) : entry = (key, value) ∨ entry ∈ entries := by
  induction entries with
  | nil => exact .inl (List.mem_singleton.mp h)
  | cons first rest ih =>
    obtain ⟨k, v⟩ := first
    unfold insert at h
    split at h
    · exact List.mem_cons.mp h
    · split at h
      · exact (List.mem_cons.mp h).imp_right (List.mem_cons_of_mem _)
      · rcases List.mem_cons.mp h with rfl | hrest
        · exact .inr List.mem_cons_self
        · exact (ih hrest).imp_right (List.mem_cons_of_mem _)

theorem sorted_insert (key : String) (value : α) {entries : List (String × α)}
    (h : Sorted entries) : Sorted (insert key value entries) := by
  induction entries with
  | nil => exact List.pairwise_singleton _ _
  | cons first rest ih =>
    obtain ⟨k, v⟩ := first
    obtain ⟨hfirst, hrest⟩ := List.pairwise_cons.mp h
    unfold insert
    split
    · next hlt =>
      refine List.pairwise_cons.mpr ⟨fun entry hentry => ?_, h⟩
      rcases List.mem_cons.mp hentry with rfl | hlater
      · exact hlt
      · exact String.lt_trans hlt (hfirst entry hlater)
    · next hnot =>
      split
      · next heq =>
        subst heq
        exact List.pairwise_cons.mpr ⟨hfirst, hrest⟩
      · next hne =>
        refine List.pairwise_cons.mpr ⟨fun entry hentry => ?_, ih hrest⟩
        rcases mem_insert hentry with rfl | hlater
        · exact Std.lt_of_le_of_ne (String.not_lt.mp hnot) (Ne.symm hne)
        · exact hfirst entry hlater

theorem sorted_ofList (entries : List (String × α)) : Sorted (ofList entries) := by
  rw [ofList, ← List.foldr_reverse]
  induction entries.reverse with
  | nil => exact List.Pairwise.nil
  | cons entry rest ih => exact sorted_insert entry.1 entry.2 ih

/-- No entry comes from nowhere. -/
theorem mem_ofList {entries : List (String × α)} {entry : String × α}
    (h : entry ∈ ofList entries) : entry ∈ entries := by
  rw [← List.mem_reverse]
  rw [ofList, ← List.foldr_reverse] at h
  generalize entries.reverse = reversed at h ⊢
  induction reversed with
  | nil => exact h
  | cons first rest ih =>
    rcases mem_insert h with rfl | hrest
    · exact List.mem_cons_self
    · exact List.mem_cons_of_mem _ (ih hrest)

end Entries

end ForeignCall
