import Mathlib.Logic.Function.Iterate
import ForeignCall.Marshal

/-!
# ForeignCall.Proofs.Survey

Visiting nodes in pre-order: each node before its parts, and these in order.

What is still to be visited is a list, next first; to visit a node is to put
its parts in front of the others.  So there is an `n`-th node for every `n`, or
the walk has ended before, also where a node is below itself and the walk goes
on for ever (`visited`).

A bounded walk ends at the first node that offends: by its depth, else by its
number, else by what it is (`offence?`).  `survey` is such a walk as a
recursion that counts its nodes.  Main statements:

* `survey_root_ok` — if it comes through, it has visited all nodes, and none offends;
* `survey_root_error` — otherwise it ends with the offence of the first node that does;
* `survey_root_ok_iff` — it comes through if and only if no node offends.
-/

namespace ForeignCall

namespace Survey

open Marshal (maxDepth)

variable {α : Type} (parts : α → List α)

/-- Visit the next node: its parts come before all others that are still to be visited. -/
def advance : List (Nat × α) → List (Nat × α)
  | [] => []
  | (depth, x) :: rest => (parts x).map (fun part => (depth + 1, part)) ++ rest

/-- The `n`-th node from a root on, with its depth.  The root is the 0th, at depth 0. -/
def visited (root : α) (n : Nat) : Option (Nat × α) :=
  ((advance parts)^[n] [(0, root)]).head?

variable (fault? : α → Option ConversionError) (most : Nat)

/-- What is wrong with the `n`-th node, if `most` nodes are allowed and `fault?` says what is
wrong with a node by itself. -/
def offence? (n : Nat) (node : Nat × α) : Option ConversionError :=
  if maxDepth < node.1 then some .tooDeep
  else if most ≤ n then some (.tooManyNodes most)
  else fault? node.2

/-- A walk that ends where there is a fault. -/
def barring (fault : Option ConversionError) (walked : Except (Abort ConversionError) Nat) :
    Except (Abort ConversionError) Nat :=
  match fault with
  | some e => .error (.error e)
  | none => walked

/-- Visit a node and all below it, with `levels` levels left for it and `n` nodes visited before:
the number of nodes visited then. -/
def survey : Nat → α → Nat → Except (Abort ConversionError) Nat
  | 0, _, _ => .error (.error .tooDeep)
  | levels + 1, x, n =>
    if n + 1 = 2 ^ 64 then .error (.panic (some "attempt to add with overflow"))
    else if n + 1 ≤ most then
      barring (fault? x) ((parts x).foldlM (fun n part => survey levels part n) (n + 1))
    else .error (.error (.tooManyNodes most))

/-- Visit some nodes and all below them. -/
def surveyAll (levels : Nat) (xs : List α) (n : Nat) : Except (Abort ConversionError) Nat :=
  xs.foldlM (fun n x => survey parts fault? most levels x n) n

/-! ## Walks without an offence -/

/-- From `n` nodes visited and `pending` to visit, the walk comes to `n'` and `pending'`, and no
node on the way offends. -/
inductive Passes : Nat → List (Nat × α) → Nat → List (Nat × α) → Prop where
  | refl (n : Nat) (pending : List (Nat × α)) : Passes n pending n pending
  | visit {n n' : Nat} {node : Nat × α} {rest pending' : List (Nat × α)} :
      offence? fault? most n node = none →
      Passes (n + 1) (advance parts (node :: rest)) n' pending' →
      Passes n (node :: rest) n' pending'

variable {parts fault? most}

theorem Passes.trans {n m k : Nat} {p q r : List (Nat × α)}
    (h : Passes parts fault? most n p m q) (h' : Passes parts fault? most m q k r) :
    Passes parts fault? most n p k r := by
  induction h with
  | refl => exact h'
  | visit ho _ ih => exact .visit ho (ih h')

/-- A walk without an offence visits one node after the other. -/
theorem Passes.iterate {n m : Nat} {p q : List (Nat × α)}
    (h : Passes parts fault? most n p m q) :
    ∃ k, m = n + k ∧ (advance parts)^[k] p = q ∧
      ∀ i < k, ∃ node, ((advance parts)^[i] p).head? = some node ∧
        offence? fault? most (n + i) node = none := by
  induction h with
  | refl n p => exact ⟨0, rfl, rfl, fun i hi => absurd hi (Nat.not_lt_zero i)⟩
  | @visit n _ node rest _ ho _ ih =>
    obtain ⟨k, rfl, hk, hclean⟩ := ih
    refine ⟨k + 1, by omega, hk, fun i hi => ?_⟩
    cases i with
    | zero => exact ⟨node, rfl, ho⟩
    | succ i =>
      obtain ⟨node', hnode', ho'⟩ := hclean i (by omega)
      exact ⟨node', hnode', by rw [← ho']; congr 1; omega⟩

/-! ## The recursion and the walk -/

theorem surveyAll_cons (levels : Nat) (x : α) (xs : List α) (n : Nat) :
    surveyAll parts fault? most levels (x :: xs) n =
      survey parts fault? most levels x n >>= surveyAll parts fault? most levels xs := rfl

/-- What holds behind the last of some nodes, and before each if it does behind it, holds before
all of them if they come through. -/
theorem surveyAll_ok_induction {levels m : Nat} {motive : List α → Nat → Prop}
    (nil : motive [] m)
    (cons : ∀ {x : α} {xs : List α} {n k : Nat}, survey parts fault? most levels x n = .ok k →
      motive xs k → motive (x :: xs) n)
    {xs : List α} {n : Nat} (h : surveyAll parts fault? most levels xs n = .ok m) :
    motive xs n := by
  induction xs generalizing n with
  | nil =>
    cases h
    exact nil
  | cons x xs ih =>
    rw [surveyAll_cons] at h
    cases hx : survey parts fault? most levels x n with
    | error e => rw [hx] at h; cases h
    | ok k => rw [hx] at h; exact cons hx (ih h)

/-- The same for nodes that do not come through, from the first one that does not. -/
theorem surveyAll_error_induction {levels : Nat} {e : Abort ConversionError}
    {motive : List α → Nat → Prop}
    (here : ∀ {x : α} {xs : List α} {n : Nat}, survey parts fault? most levels x n = .error e →
      motive (x :: xs) n)
    (later : ∀ {x : α} {xs : List α} {n k : Nat}, survey parts fault? most levels x n = .ok k →
      motive xs k → motive (x :: xs) n)
    {xs : List α} {n : Nat} (h : surveyAll parts fault? most levels xs n = .error e) :
    motive xs n := by
  induction xs generalizing n with
  | nil => cases h
  | cons x xs ih =>
    rw [surveyAll_cons] at h
    cases hx : survey parts fault? most levels x n with
    | error e' =>
      rw [hx] at h
      cases h
      exact here hx
    | ok k => rw [hx] at h; exact later hx (ih h)

/-- A node comes through only if it may be visited and its parts come through. -/
theorem survey_succ_ok {levels n m : Nat} {x : α}
    (h : survey parts fault? most (levels + 1) x n = .ok m) :
    n + 1 ≤ most ∧ fault? x = none ∧
      surveyAll parts fault? most levels (parts x) (n + 1) = .ok m := by
  rw [survey] at h
  split at h
  · cases h
  · split at h
    · next hm =>
      cases hf : fault? x with
      | some f => rw [hf] at h; cases h
      | none => rw [hf] at h; exact ⟨hm, rfl, h⟩
    · cases h

/-- Otherwise the count is at its end, or the node is one too many, or it offends by itself, or its
parts do not come through. -/
theorem survey_succ_error {levels n : Nat} {x : α} {e : Abort ConversionError}
    (h : survey parts fault? most (levels + 1) x n = .error e) :
    n + 1 = 2 ^ 64 ∧ e = .panic (some "attempt to add with overflow") ∨
      most ≤ n ∧ e = .error (.tooManyNodes most) ∨
      n + 1 ≤ most ∧ ((∃ f, fault? x = some f ∧ e = .error f) ∨
        fault? x = none ∧ surveyAll parts fault? most levels (parts x) (n + 1) = .error e) := by
  rw [survey] at h
  split at h
  · next hn => cases h; exact .inl ⟨hn, rfl⟩
  · split at h
    · next hm =>
      cases hf : fault? x with
      | some f => rw [hf] at h; cases h; exact .inr (.inr ⟨hm, .inl ⟨f, rfl, rfl⟩⟩)
      | none => rw [hf] at h; exact .inr (.inr ⟨hm, .inr ⟨rfl, h⟩⟩)
    · next hm => cases h; exact .inr (.inl ⟨by omega, rfl⟩)

/-- Nodes are only ever counted up, and not beyond the bound. -/
theorem survey_le {levels n m : Nat} {x : α} (h : survey parts fault? most levels x n = .ok m) :
    n < m ∧ m ≤ most := by
  induction levels generalizing n m x with
  | zero => cases h
  | succ levels ih =>
    obtain ⟨hn, _, hparts⟩ := survey_succ_ok h
    have hall : n + 1 ≤ most → n + 1 ≤ m ∧ m ≤ most := by
      refine surveyAll_ok_induction (motive := fun _ n => n ≤ most → n ≤ m ∧ m ≤ most)
        (fun hm => ⟨Nat.le_refl m, hm⟩) (fun hx hxs _ => ?_) hparts
      have hk := ih hx
      have hm := hxs hk.2
      omega
    exact hall hn

/-- A bound below the greatest count is reached before that count is. -/
theorem survey_ne_panic {levels n : Nat} {x : α} {detail : Option String} (hn : n ≤ most)
    (hmost : most + 1 < 2 ^ 64) : survey parts fault? most levels x n ≠ .error (.panic detail) := by
  intro h
  induction levels generalizing n x with
  | zero => cases h
  | succ levels ih =>
    rcases survey_succ_error h with ⟨hend, _⟩ | ⟨_, hmany⟩ | ⟨hle, ⟨f, _, hf⟩ | ⟨_, hparts⟩⟩
    · omega
    · cases hmany
    · cases hf
    · exact surveyAll_error_induction (motive := fun _ n => ¬ n ≤ most)
        (fun hx hn => ih hn hx) (fun hx hxs _ => hxs (survey_le hx).2) hparts hle

section Walk

variable {levels depth n : Nat}

theorem offence?_within {x : α} (hd : depth ≤ maxDepth) (hn : n + 1 ≤ most) :
    offence? fault? most n (depth, x) = fault? x := by
  rw [offence?, if_neg (Nat.not_lt.mpr hd), if_neg (by omega)]

/-- A survey that comes through is a walk without an offence. -/
theorem survey_ok {m : Nat} {x : α} {rest : List (Nat × α)} (hd : depth + levels = maxDepth + 1)
    (h : survey parts fault? most levels x n = .ok m) :
    Passes parts fault? most n ((depth, x) :: rest) m rest := by
  induction levels generalizing depth n m x rest with
  | zero => cases h
  | succ levels ih =>
    obtain ⟨hm, hf, hparts⟩ := survey_succ_ok h
    refine .visit ((offence?_within (by omega) hm).trans hf) ?_
    exact surveyAll_ok_induction (motive := fun xs n => Passes parts fault? most n
        (xs.map (fun part => (depth + 1, part)) ++ rest) m rest)
      (.refl m rest) (fun hx hxs => (ih (by omega) hx).trans hxs) hparts

variable (parts fault? most) in
/-- Without an offence the walk comes to a node that offends with `e`. -/
def Meets (n : Nat) (pending : List (Nat × α)) (e : ConversionError) : Prop :=
  ∃ m node rest, Passes parts fault? most n pending m (node :: rest) ∧
    offence? fault? most m node = some e

theorem Passes.meets {m : Nat} {p q : List (Nat × α)} {e : ConversionError}
    (h : Passes parts fault? most n p m q) (hq : Meets parts fault? most m q e) :
    Meets parts fault? most n p e := by
  obtain ⟨k, node, rest, hk, ho⟩ := hq
  exact ⟨k, node, rest, h.trans hk, ho⟩

theorem Meets.here {node : Nat × α} {rest : List (Nat × α)} {e : ConversionError}
    (h : offence? fault? most n node = some e) : Meets parts fault? most n (node :: rest) e :=
  ⟨n, node, rest, .refl _ _, h⟩

/-- A survey that ends with an error is a walk up to a node that offends. -/
theorem survey_error {x : α} {rest : List (Nat × α)} {e : ConversionError}
    (hd : depth + levels = maxDepth + 1)
    (h : survey parts fault? most levels x n = .error (.error e)) :
    Meets parts fault? most n ((depth, x) :: rest) e := by
  induction levels generalizing depth n x rest with
  | zero =>
    cases h
    exact .here (if_pos (by omega))
  | succ levels ih =>
    rcases survey_succ_error h with ⟨_, hend⟩ | ⟨hle, hmany⟩ | ⟨hle, ⟨f, hf, he⟩ | ⟨hf, hparts⟩⟩
    · cases hend
    · cases hmany
      refine .here ?_
      rw [offence?, if_neg (by omega), if_pos hle]
    · cases he
      exact .here ((offence?_within (by omega) hle).trans hf)
    · have hbelow : Meets parts fault? most (n + 1)
          ((parts x).map (fun part => (depth + 1, part)) ++ rest) e :=
        surveyAll_error_induction (motive := fun xs n => Meets parts fault? most n
            (xs.map (fun part => (depth + 1, part)) ++ rest) e)
          (fun hx => ih (by omega) hx) (fun hx hxs => (survey_ok (by omega) hx).meets hxs) hparts
      have hhere : offence? fault? most n (depth, x) = none :=
        (offence?_within (by omega) hle).trans hf
      exact (Passes.visit hhere (.refl _ _)).meets hbelow

end Walk

/-! ## Walks from a root -/

variable (parts fault? most) in
/-- The first `n` nodes from a root on exist and do not offend. -/
def CleanUpTo (root : α) (n : Nat) : Prop :=
  ∀ i < n, ∃ node, visited parts root i = some node ∧ offence? fault? most i node = none

theorem Passes.cleanUpTo {root : α} {n : Nat} {pending : List (Nat × α)}
    (h : Passes parts fault? most 0 [(0, root)] n pending) :
    CleanUpTo parts fault? most root n ∧ visited parts root n = pending.head? := by
  obtain ⟨k, rfl, hk, hclean⟩ := h.iterate
  rw [Nat.zero_add]
  refine ⟨fun i hi => ?_, by rw [visited, hk]⟩
  obtain ⟨node, hnode, ho⟩ := hclean i hi
  exact ⟨node, hnode, by rw [← ho, Nat.zero_add]⟩

/-- A survey from a root comes through when no node offends, and has visited them all then. -/
theorem survey_root_ok {root : α} {m : Nat}
    (h : survey parts fault? most (maxDepth + 1) root 0 = .ok m) :
    CleanUpTo parts fault? most root m ∧ visited parts root m = none :=
  (survey_ok (Nat.zero_add _) h).cleanUpTo

/-- Otherwise it ends at the first node that offends. -/
theorem survey_root_error {root : α} {e : ConversionError}
    (h : survey parts fault? most (maxDepth + 1) root 0 = .error (.error e)) :
    ∃ n node, CleanUpTo parts fault? most root n ∧ visited parts root n = some node ∧
      offence? fault? most n node = some e := by
  have hmeets : Meets parts fault? most 0 [(0, root)] e := survey_error (Nat.zero_add _) h
  obtain ⟨n, node, rest, hn, ho⟩ := hmeets
  exact ⟨n, node, hn.cleanUpTo.1, hn.cleanUpTo.2, ho⟩

/-- A walk that has ended does not go on. -/
theorem visited_eq_none_of_le {root : α} {n m : Nat} (h : visited parts root n = none)
    (hnm : n ≤ m) : visited parts root m = none := by
  rw [visited, List.head?_eq_none_iff] at h ⊢
  obtain ⟨k, rfl⟩ := Nat.exists_eq_add_of_le' hnm
  rw [Function.iterate_add_apply, h]
  exact Function.iterate_fixed rfl k

theorem lt_of_visited {root : α} {n m : Nat} {node : Nat × α}
    (hn : visited parts root n = some node) (hm : visited parts root m = none) : n < m := by
  by_contra hge
  rw [visited_eq_none_of_le hm (Nat.not_lt.mp hge)] at hn
  cases hn

theorem offence?_eq_none {n : Nat} {node : Nat × α} :
    offence? fault? most n node = none ↔
      node.1 ≤ maxDepth ∧ n < most ∧ fault? node.2 = none := by
  rw [offence?]
  by_cases hd : maxDepth < node.1
  · simp [hd, Nat.not_le.mpr hd]
  · by_cases hn : most ≤ n
    · simp [hd, hn, Nat.not_lt.mpr hn]
    · simp [hd, hn, Nat.not_lt.mp hd, Nat.not_le.mp hn]

/-- A survey from a root comes through exactly if there are no more nodes than allowed, none is
too deep and none is wrong by itself. -/
theorem survey_root_ok_iff {root : α}
    (hcount : ∀ detail, survey parts fault? most (maxDepth + 1) root 0 ≠ .error (.panic detail)) :
    (∃ m, survey parts fault? most (maxDepth + 1) root 0 = .ok m) ↔
      visited parts root most = none ∧
        ∀ n node, visited parts root n = some node →
          node.1 ≤ maxDepth ∧ fault? node.2 = none := by
  constructor
  · rintro ⟨m, h⟩
    obtain ⟨hclean, hend⟩ := survey_root_ok h
    refine ⟨visited_eq_none_of_le hend (survey_le h).2, fun n node hnode => ?_⟩
    obtain ⟨node', hnode', ho⟩ := hclean n (lt_of_visited hnode hend)
    cases hnode.symm.trans hnode'
    have hfine := offence?_eq_none.mp ho
    exact ⟨hfine.1, hfine.2.2⟩
  · rintro ⟨hend, hfine⟩
    cases h : survey parts fault? most (maxDepth + 1) root 0 with
    | ok m => exact ⟨m, rfl⟩
    | error abort =>
      cases abort with
      | panic detail => exact absurd h (hcount detail)
      | error e =>
        obtain ⟨n, node, _, hnode, ho⟩ := survey_root_error h
        obtain ⟨hd, hf⟩ := hfine n node hnode
        rw [offence?_eq_none.mpr ⟨hd, lt_of_visited hnode hend, hf⟩] at ho
        cases ho

end Survey

end ForeignCall
