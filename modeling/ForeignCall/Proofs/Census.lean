import Mathlib.Algebra.BigOperators.Group.List.Basic
import Mathlib.Algebra.Ring.Nat
import Mathlib.Data.List.Forall2
import Mathlib.Data.List.Perm.Subperm
import ForeignCall.Proofs.Survey

/-!
# ForeignCall.Proofs.Census

The number of nodes that a survey comes to, apart from the survey.

A node counts for one, and its parts for what they count for; it counts only if
it has no fault, and neither has anything below it (`Counts`).  A survey comes
through exactly if the count is within the bound:

* `counts_of_survey` — what comes through has been counted;
* `survey_of_counts` — what counts for few enough nodes comes through.

One structure stands for another if their nodes correspond, but for parts that
are left out; then it counts for no more (`Counts.simulate`).
-/

namespace ForeignCall

namespace Survey

variable {α β : Type} (parts : α → List α) (fault? : α → Option ConversionError)

/-- A node and all below it are `k` nodes on at most so many levels, and none is faulty. -/
def Counts : Nat → α → Nat → Prop
  | 0, _, _ => False
  | levels + 1, x, k =>
    fault? x = none ∧ ∃ counts, List.Forall₂ (Counts levels) (parts x) counts ∧ k = counts.sum + 1

variable {parts fault?} {most levels : Nat}

/-! ## Counting and surveying -/

/-- What comes through has been counted. -/
theorem counts_of_survey {x : α} {n m : Nat} (h : survey parts fault? most levels x n = .ok m) :
    ∃ k, Counts parts fault? levels x k ∧ m = n + k := by
  induction levels generalizing x n m with
  | zero => cases h
  | succ levels ih =>
    obtain ⟨_, hfault, hparts⟩ := survey_succ_ok h
    have hall : ∃ counts, List.Forall₂ (Counts parts fault? levels) (parts x) counts ∧
        m = n + 1 + counts.sum := by
      refine surveyAll_ok_induction (motive := fun xs n => ∃ counts,
          List.Forall₂ (Counts parts fault? levels) xs counts ∧ m = n + counts.sum)
        ⟨[], .nil, rfl⟩ (fun hx hxs => ?_) hparts
      obtain ⟨k, hk, rfl⟩ := ih hx
      obtain ⟨counts, hcounts, hm⟩ := hxs
      exact ⟨k :: counts, .cons hk hcounts, by rw [hm, List.sum_cons, Nat.add_assoc]⟩
    obtain ⟨counts, hcounts, hm⟩ := hall
    exact ⟨counts.sum + 1, ⟨hfault, counts, hcounts, rfl⟩, by omega⟩

/-- Nodes come through one after the other, if each does alone. -/
theorem surveyAll_of_counts {xs : List α} {counts : List Nat}
    (hcounts : List.Forall₂ (Counts parts fault? levels) xs counts)
    (hstep : ∀ {x : α} {k n : Nat}, Counts parts fault? levels x k → n + k ≤ most → n + k < 2 ^ 64 →
      survey parts fault? most levels x n = .ok (n + k))
    {n : Nat} (hmost : n + counts.sum ≤ most) (hword : n + counts.sum < 2 ^ 64) :
    surveyAll parts fault? most levels xs n = .ok (n + counts.sum) := by
  induction hcounts generalizing n with
  | nil => rfl
  | @cons x k xs counts hk _ ih =>
    rw [List.sum_cons] at hmost hword ⊢
    have hfirst : survey parts fault? most levels x n = .ok (n + k) :=
      hstep hk (by omega) (by omega)
    have hrest : surveyAll parts fault? most levels xs (n + k) = .ok (n + k + counts.sum) :=
      ih (by omega) (by omega)
    rw [surveyAll_cons, hfirst, ← Nat.add_assoc]
    exact hrest

/-- What counts for few enough nodes comes through. -/
theorem survey_of_counts {x : α} {k n : Nat} (h : Counts parts fault? levels x k)
    (hmost : n + k ≤ most) (hword : n + k < 2 ^ 64) :
    survey parts fault? most levels x n = .ok (n + k) := by
  induction levels generalizing x k n with
  | zero => exact h.elim
  | succ levels ih =>
    obtain ⟨hfault, counts, hcounts, rfl⟩ := h
    have hparts : surveyAll parts fault? most levels (parts x) (n + 1) =
        .ok (n + 1 + counts.sum) :=
      surveyAll_of_counts hcounts (fun hk => ih hk) (by omega) (by omega)
    rw [survey, if_neg (by omega), if_pos (by omega), hfault, Nat.add_comm counts.sum,
      ← Nat.add_assoc]
    exact hparts

/-! ## Counting elsewhere -/

/-- Some of the parts count for no more than all of them. -/
theorem forall₂_of_subperm {xs ys : List α} {counts : List Nat} {R : α → Nat → Prop}
    (hall : List.Forall₂ R xs counts) (hsome : ys.Subperm xs) :
    ∃ fewer, List.Forall₂ R ys fewer ∧ fewer.sum ≤ counts.sum := by
  obtain ⟨zs, hperm, hsub⟩ := hsome
  have hzs : ∃ fewer, List.Forall₂ R zs fewer ∧ fewer.sum ≤ counts.sum := by
    clear hperm
    induction hsub generalizing counts with
    | slnil =>
      cases hall
      exact ⟨[], .nil, Nat.le_refl _⟩
    | cons x _ ih =>
      cases hall with
      | cons _ hrest =>
        obtain ⟨fewer, hfewer, hle⟩ := ih hrest
        refine ⟨fewer, hfewer, ?_⟩
        rw [List.sum_cons]
        omega
    | cons_cons x _ ih =>
      cases hall with
      | cons hx hrest =>
        obtain ⟨fewer, hfewer, hle⟩ := ih hrest
        refine ⟨_ :: fewer, .cons hx hfewer, ?_⟩
        rw [List.sum_cons, List.sum_cons]
        omega
  obtain ⟨fewer, hfewer, hle⟩ := hzs
  obtain ⟨same, hsame, hperm'⟩ := List.perm_comp_forall₂ hperm.symm hfewer
  exact ⟨same, hsame, by rw [hperm'.sum_eq]; exact hle⟩

variable {parts' : β → List β} {fault?' : β → Option ConversionError}

/-- Nodes count for no more than those that they correspond to, if each does alone. -/
theorem forall₂_counts {R : α → β → Prop} {S : α → Nat → Prop} {T : β → Nat → Prop}
    (hstep : ∀ x y k, R x y → S x k → ∃ j ≤ k, T y j)
    {xs : List α} {ys : List β} {counts : List Nat} (hxys : List.Forall₂ R xs ys)
    (hcounts : List.Forall₂ S xs counts) :
    ∃ counts', List.Forall₂ T ys counts' ∧ counts'.sum ≤ counts.sum := by
  induction hxys generalizing counts with
  | nil => exact ⟨[], .nil, Nat.zero_le _⟩
  | cons hfirst _ ih =>
    cases hcounts with
    | cons hk hks =>
      obtain ⟨j, hj, hcount⟩ := hstep _ _ _ hfirst hk
      obtain ⟨counts', hcounts', hle⟩ := ih hks
      refine ⟨j :: counts', .cons hcount hcounts', ?_⟩
      rw [List.sum_cons, List.sum_cons]
      omega

/-- A structure whose nodes correspond to some of another's counts for no more than that. -/
theorem Counts.simulate {R : α → β → Prop}
    (hstep : ∀ x y, R x y → fault? x = none → fault?' y = none ∧
      ∃ xs, xs.Subperm (parts x) ∧ List.Forall₂ R xs (parts' y))
    {x : α} {y : β} {k : Nat} (hxy : R x y) (h : Counts parts fault? levels x k) :
    ∃ j ≤ k, Counts parts' fault?' levels y j := by
  induction levels generalizing x y k with
  | zero => exact h.elim
  | succ levels ih =>
    obtain ⟨hfault, counts, hcounts, rfl⟩ := h
    obtain ⟨hfault', xs, hsome, hparts⟩ := hstep x y hxy hfault
    obtain ⟨fewer, hfewer, hle⟩ := forall₂_of_subperm hcounts hsome
    have hbelow : ∀ x y k, R x y → Counts parts fault? levels x k →
        ∃ j ≤ k, Counts parts' fault?' levels y j := fun _ _ _ => ih
    obtain ⟨counts', hcounts', hle'⟩ := forall₂_counts hbelow hparts hfewer
    exact ⟨counts'.sum + 1, by omega, hfault', counts', hcounts', rfl⟩

end Survey

end ForeignCall
