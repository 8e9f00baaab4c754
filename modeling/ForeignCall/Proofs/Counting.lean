import Mathlib.Data.List.Basic

/-!
# ForeignCall.Proofs.Counting

Lists of records of which one changes.

What is recorded stays under its number, so records change by `List.modify`.
`countP_modify` says what that does to a count, and `modify_of_fixed` that it
does nothing where the record is as it would become.
-/

namespace ForeignCall

/-- The count after one member has changed. -/
theorem countP_modify {α : Type} (q : α → Bool) {f : α → α} {l : List α} {n : Nat} {a : α}
    (h : l[n]? = some a) :
    (l.modify n f).countP q + (q a).toNat = l.countP q + (q (f a)).toNat := by
  induction l generalizing n with
  | nil => simp at h
  | cons b l ih =>
    cases n with
    | zero =>
      obtain rfl : b = a := by simpa using h
      cases hb : q b <;> cases hf : q (f b) <;> simp [hb, hf]
    | succ n =>
      have := ih (n := n) (by simpa using h)
      rw [List.modify_succ_cons, List.countP_cons, List.countP_cons]
      omega

theorem modify_of_fixed {α : Type} {f : α → α} {l : List α} {n : Nat}
    (h : ∀ a, l[n]? = some a → f a = a) : l.modify n f = l := by
  apply List.ext_getElem?
  intro m
  rw [List.getElem?_modify]
  cases hm : l[m]? with
  | none => rfl
  | some a =>
    by_cases hnm : n = m
    · subst hnm
      simp [h a hm]
    · simp [hnm]

end ForeignCall
