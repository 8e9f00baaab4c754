import ForeignCall.Proofs.Unfolding

/-!
# ForeignCall.Proofs.Growth

Values added at the end of an arena.

A region is a list of new slots.  It is `Grown` when its slots refer only to
earlier slots of the region, and each slot is referred to exactly once: by one
later slot, or from outside as one of the `roots`.  So a region is as many
trees as it has roots, without sharing, and parts come before wholes.
-/

namespace ForeignCall

namespace Arena

/-- The handle of a slot. -/
def handleAt (i : Nat) : Handle := ⟨UInt32.ofNat i⟩

theorem slot_handleAt {i : Nat} (h : i < 2 ^ 32) : (handleAt i).slot.toNat = i :=
  UInt32.toNat_ofNat_of_lt' h

/-! ## Adding several values -/

/-- Add values, in order. -/
def addAll (a : Arena) (new : List HostValue) : Arena :=
  { a with slots := a.slots ++ new.toArray }

@[simp] theorem addAll_nil (a : Arena) : a.addAll [] = a := by
  simp [addAll]

@[simp] theorem addAll_addAll (a : Arena) (new more : List HostValue) :
    (a.addAll new).addAll more = a.addAll (new ++ more) := by
  simp [addAll]

@[simp] theorem size_addAll (a : Arena) (new : List HostValue) :
    (a.addAll new).slots.size = a.slots.size + new.length := by
  simp [addAll]

theorem alloc_eq (a : Arena) (v : HostValue) :
    a.alloc v = (handleAt a.slots.size, a.addAll [v]) := by
  simp [alloc, addAll, nextHandle, handleAt]

/-- An old slot is where it was. -/
theorem slots_addAll_old {a : Arena} {i : Nat} (h : i < a.slots.size) (new : List HostValue) :
    (a.addAll new).slots[i]? = a.slots[i]? := by
  rw [addAll, Array.getElem?_append_left h]

/-- A new slot comes behind the old ones. -/
theorem slots_addAll_new (a : Arena) (new : List HostValue) (i : Nat) :
    (a.addAll new).slots[a.slots.size + i]? = new[i]? := by
  rw [addAll, Array.getElem?_append_right (Nat.le_add_right ..), Nat.add_sub_cancel_left,
    List.getElem?_toArray]

theorem extends_addAll (a : Arena) (new : List HostValue) : a.Extends (a.addAll new) := by
  intro i v hv
  obtain ⟨hi, _⟩ := Array.getElem?_eq_some_iff.mp hv
  rw [slots_addAll_old hi, hv]

/-- The second arena is the first with values added at the end; the errors are the same. -/
def Grows (a b : Arena) : Prop :=
  ∃ new, b = a.addAll new

theorem Grows.refl (a : Arena) : a.Grows a := ⟨[], (addAll_nil a).symm⟩

theorem Grows.trans {a b c : Arena} (hab : a.Grows b) (hbc : b.Grows c) : a.Grows c := by
  obtain ⟨new, rfl⟩ := hab
  obtain ⟨more, rfl⟩ := hbc
  exact ⟨new ++ more, addAll_addAll ..⟩

theorem Grows.extends {a b : Arena} (h : a.Grows b) : a.Extends b := by
  obtain ⟨new, rfl⟩ := h
  exact extends_addAll a new

theorem Grows.errors_eq {a b : Arena} (h : a.Grows b) : b.errors = a.errors := by
  obtain ⟨new, rfl⟩ := h
  rfl

theorem grows_alloc (a : Arena) (v : HostValue) : a.Grows (a.alloc v).2 :=
  ⟨[v], by rw [alloc_eq]⟩

/-- Coercing a value leaves the arena as it is, or adds a string. -/
theorem coerce_cases {a b : Arena} {item h : Handle} (hc : a.coerce item = .ok (h, b)) :
    b = a ∨ ∃ text, b = (a.alloc (.string text)).2 := by
  unfold coerce at hc
  cases hget : a.get item with
  | error e =>
    rw [hget] at hc
    cases hc
  | ok v =>
    rw [hget] at hc
    cases v with
    | string s =>
      cases hc
      exact .inl rfl
    | _ =>
      cases htext : a.display (maxNesting + 1) item with
      | error e =>
        simp only [htext] at hc
        cases hc
      | ok text =>
        simp only [htext] at hc
        cases hc
        exact .inr ⟨text, rfl⟩

theorem grows_of_coerce {a b : Arena} {item h : Handle} (hc : a.coerce item = .ok (h, b)) :
    a.Grows b := by
  rcases coerce_cases hc with rfl | ⟨text, rfl⟩
  · exact .refl b
  · exact a.grows_alloc (.string text)

/-- The handle of a new slot has its value, if the slot has a handle at all. -/
theorem get_addAll_new {a : Arena} {new : List HostValue} {i : Nat} {v : HostValue}
    (hv : new[i]? = some v) (hsize : (a.addAll new).slots.size ≤ 2 ^ 32) :
    (a.addAll new).get (handleAt (a.slots.size + i)) = .ok v := by
  obtain ⟨hi, _⟩ := List.getElem?_eq_some_iff.mp hv
  rw [size_addAll] at hsize
  rw [get_eq_ok, slot_handleAt (by omega), slots_addAll_new, hv]

/-! ## Regions -/

/-- The region `new` behind `base` slots consists of as many trees as there are roots. -/
structure Grown (base : Nat) (new : List HostValue) (roots : List Handle) : Prop where
  /-- Parts come before wholes. -/
  earlier : ∀ i v, new[i]? = some v → ∀ part ∈ v.parts, ∃ j < i, part = handleAt (base + j)
  /-- Each slot is referred to once. -/
  once : (new.flatMap HostValue.parts ++ roots).Perm
    ((List.range' base new.length).map handleAt)

namespace Grown

variable {base : Nat} {new new' : List HostValue} {roots roots' : List Handle}

theorem nil (base : Nat) : Grown base [] [] where
  earlier := fun i v hv => by cases hv
  once := .nil

/-- Two regions in a row are one. -/
theorem append (h : Grown base new roots) (h' : Grown (base + new.length) new' roots') :
    Grown base (new ++ new') (roots ++ roots') where
  earlier := by
    intro i v hv part hpart
    by_cases hi : i < new.length
    · rw [List.getElem?_append_left hi] at hv
      exact h.earlier i v hv part hpart
    · rw [List.getElem?_append_right (Nat.not_lt.mp hi)] at hv
      obtain ⟨j, hj, heq⟩ := h'.earlier _ v hv part hpart
      exact ⟨new.length + j, by omega, by rw [heq, Nat.add_assoc]⟩
  once := by
    have hswap : ((new ++ new').flatMap HostValue.parts ++ (roots ++ roots')).Perm
        ((new.flatMap HostValue.parts ++ roots) ++ (new'.flatMap HostValue.parts ++ roots')) := by
      rw [List.flatMap_append, List.append_assoc, List.append_assoc]
      refine List.Perm.append_left _ ?_
      rw [← List.append_assoc, ← List.append_assoc]
      exact List.Perm.append_right _ List.perm_append_comm
    have hrange : List.range' base (new ++ new').length =
        List.range' base new.length ++ List.range' (base + new.length) new'.length := by
      rw [List.length_append, List.range'_append_1]
    rw [hrange, List.map_append]
    exact hswap.trans (h.once.append h'.once)

/-- A value whose parts are the roots is a tree of its own. -/
theorem push {v : HostValue} (h : Grown base new roots) (hv : v.parts = roots) :
    Grown base (new ++ [v]) [handleAt (base + new.length)] where
  earlier := by
    intro i w hw part hpart
    by_cases hi : i < new.length
    · rw [List.getElem?_append_left hi] at hw
      exact h.earlier i w hw part hpart
    · have hlast : i = new.length := by
        have hlen := (List.getElem?_eq_some_iff.mp hw).choose
        rw [List.length_append, List.length_singleton] at hlen
        omega
      subst hlast
      rw [List.getElem?_concat_length] at hw
      cases hw
      rw [hv] at hpart
      have hmem := h.once.mem_iff.mp (List.mem_append_right _ hpart)
      obtain ⟨j, hj, rfl⟩ := List.mem_map.mp hmem
      rw [List.mem_range'_1] at hj
      exact ⟨j - base, by omega, by congr 1; omega⟩
  once := by
    rw [List.flatMap_append, List.length_append, List.length_singleton, List.range'_concat,
      List.map_append, List.flatMap_singleton, hv]
    simpa using h.once.append_right [handleAt (base + new.length)]

end Grown

end Arena

end ForeignCall
