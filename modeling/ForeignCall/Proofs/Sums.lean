import Mathlib.Algebra.BigOperators.Group.List.Basic
import Mathlib.Algebra.Order.Ring.Int
import Mathlib.Data.List.Infix
import Mathlib.Data.List.Perm.Basic
import ForeignCall.Engine.Builtin

/-!
# ForeignCall.Proofs.Sums

Sums of integers, and in which orders they can be taken.

Integers of all widths are added up from left to right, in words of 64 bits.
The sum is exact if there is one, and there is none as soon as some of the
terms, from the first on, add up to more than a word can hold.  So the order
matters, but only for whether there is a sum:

```
a word cannot hold the sum                   no order gives it
a word can                                   some order gives it
it can hold the sum of the positive terms    every order gives it
and that of the negative ones, too
```

`Builtin.add_integers` — when there is a sum, and in which orders.
-/

namespace ForeignCall

/-- The integer that a value of an integer kind is; zero for any other value. -/
def Value.integer : Value → Int
  | .s8 n => n.toInt
  | .s16 n => n.toInt
  | .s32 n => n.toInt
  | .s64 n => n.toInt
  | _ => 0

/-- An integer of any width is one of 64 bits. -/
theorem Value.toInt64?_of_isInteger {v : Value} (h : v.kind.isInteger = true) :
    ∃ n : Int64, v.toInt64? = some n ∧ n.toInt = v.integer := by
  cases v with
  | s8 n => exact ⟨_, rfl, Int8.toInt_toInt64 n⟩
  | s16 n => exact ⟨_, rfl, Int16.toInt_toInt64 n⟩
  | s32 n => exact ⟨_, rfl, Int32.toInt_toInt64 n⟩
  | s64 n => exact ⟨n, rfl, rfl⟩
  | _ => exact Bool.noConfusion h

/-- A list of integers of any width. -/
theorem Value.mapM_toInt64? {args : List Value} (h : ∀ v ∈ args, v.kind.isInteger = true) :
    ∃ words : List Int64, args.mapM Value.toInt64? = some words ∧
      words.map Int64.toInt = args.map Value.integer := by
  induction args with
  | nil => exact ⟨[], rfl, rfl⟩
  | cons v rest ih =>
    obtain ⟨n, hn, hvalue⟩ := toInt64?_of_isInteger (h v List.mem_cons_self)
    obtain ⟨words, hwords, hvalues⟩ := ih fun u hu => h u (List.mem_cons_of_mem _ hu)
    exact ⟨n :: words, by simp [hn, hwords], by simp [hvalue, hvalues]⟩

namespace Builtin

/-! ## Sums in words -/

/-- A signed word of 64 bits can hold an integer. -/
def Fits (n : Int) : Prop :=
  -2 ^ 63 ≤ n ∧ n < 2 ^ 63

instance (n : Int) : Decidable (Fits n) :=
  inferInstanceAs (Decidable (_ ∧ _))

theorem fits_toInt (n : Int64) : Fits n.toInt :=
  ⟨n.le_toInt, n.toInt_lt⟩

theorem fits_integer (v : Value) : Fits v.integer := by
  by_cases h : v.kind.isInteger = true
  · obtain ⟨n, -, hn⟩ := Value.toInt64?_of_isInteger h
    exact hn ▸ fits_toInt n
  · have hzero : v.integer = 0 := by
      cases v with
      | s8 | s16 | s32 | s64 => exact absurd rfl h
      | _ => rfl
    rw [hzero]
    decide

/-- One more term gives the exact sum, or none. -/
theorem addChecked_eq_some_iff {sum n s : Int64} :
    addChecked sum n = some s ↔ s.toInt = sum.toInt + n.toInt := by
  unfold addChecked
  dsimp only
  split
  · next hfits =>
    have hexact : (Int64.ofInt (sum.toInt + n.toInt)).toInt = sum.toInt + n.toInt :=
      Int64.toInt_ofInt_of_le hfits.1 hfits.2
    rw [Option.some.injEq, ← Int64.toInt_inj, hexact, eq_comm]
  · next hnone =>
    refine ⟨nofun, fun hs => absurd ?_ hnone⟩
    rw [← hs]
    exact fits_toInt s

theorem addChecked_eq_none_iff {sum n : Int64} :
    addChecked sum n = none ↔ ¬ Fits (sum.toInt + n.toInt) := by
  unfold addChecked Fits
  dsimp only
  split
  · next hfits => exact ⟨nofun, fun hnone => absurd hfits hnone⟩
  · next hnone => exact ⟨fun _ => hnone, fun _ => rfl⟩

/-- From a sum on, words hold all sums that come of adding more and more terms. -/
def Sustains (sum : Int) (terms : List Int) : Prop :=
  ∀ front, front <+: terms → Fits (sum + front.sum)

theorem sustains_zero {terms : List Int} :
    Sustains 0 terms ↔ ∀ front, front <+: terms → Fits front.sum := by
  simp [Sustains]

theorem Sustains.total {terms : List Int} (h : Sustains 0 terms) : Fits terms.sum :=
  sustains_zero.mp h terms List.prefix_rfl

theorem sustains_nil {sum : Int} : Sustains sum [] ↔ Fits sum := by
  simp [Sustains]

theorem sustains_cons {sum n : Int} {terms : List Int} :
    Sustains sum (n :: terms) ↔ Fits sum ∧ Sustains (sum + n) terms := by
  constructor
  · intro h
    refine ⟨by simpa using h [] List.nil_prefix, fun front hfront => ?_⟩
    have hmore := h (n :: front) (List.prefix_cons_inj n |>.mpr hfront)
    rwa [List.sum_cons, ← add_assoc] at hmore
  · rintro ⟨hsum, hrest⟩ front hfront
    rcases List.prefix_cons_iff.mp hfront with rfl | ⟨more, rfl, hmore⟩
    · simpa using hsum
    · rw [List.sum_cons, ← add_assoc]
      exact hrest more hmore

/-- Adding up gives the exact sum, if all sums on the way fit. -/
theorem sumChecked_eq_some_iff {sum s : Int64} {words : List Int64} :
    sumChecked sum words = some s ↔
      Sustains sum.toInt (words.map Int64.toInt) ∧
        s.toInt = sum.toInt + (words.map Int64.toInt).sum := by
  induction words generalizing sum with
  | nil =>
    rw [sumChecked, Option.some.injEq, ← Int64.toInt_inj, List.map_nil, sustains_nil,
      List.sum_nil, add_zero, eq_comm, and_iff_right (fits_toInt sum)]
  | cons n rest ih =>
    rw [sumChecked, List.map_cons, sustains_cons, and_iff_right (fits_toInt sum), List.sum_cons,
      ← add_assoc]
    cases hnext : addChecked sum n with
    | none =>
      refine ⟨nofun, fun ⟨hsustains, _⟩ => absurd ?_ (addChecked_eq_none_iff.mp hnext)⟩
      simpa using hsustains [] List.nil_prefix
    | some next =>
      rw [Option.bind_some, ih, addChecked_eq_some_iff.mp hnext]

/-! ## Orders -/

/-- The sum of the positive terms. -/
def gains (terms : List Int) : Int :=
  (terms.filter (0 < ·)).sum

/-- The sum of the negative terms. -/
def losses (terms : List Int) : Int :=
  (terms.filter (· < 0)).sum

theorem gains_cons (n : Int) (rest : List Int) : gains (n :: rest) = max n 0 + gains rest := by
  by_cases hn : 0 < n
  · simp [gains, hn, max_eq_left hn.le]
  · simp [gains, hn, max_eq_right (not_lt.mp hn)]

theorem losses_cons (n : Int) (rest : List Int) : losses (n :: rest) = min n 0 + losses rest := by
  by_cases hn : n < 0
  · simp [losses, hn, min_eq_left hn.le]
  · simp [losses, hn, min_eq_right (not_lt.mp hn)]

/-- The sum is between the losses and the gains, and is made of both. -/
theorem sum_eq_gains_add_losses (terms : List Int) :
    0 ≤ gains terms ∧ losses terms ≤ 0 ∧ terms.sum = gains terms + losses terms := by
  induction terms with
  | nil => exact ⟨le_rfl, le_rfl, rfl⟩
  | cons n rest ih =>
    rw [gains_cons, losses_cons, List.sum_cons]
    omega

/-- The terms from the first on add up to something between the losses and the gains of all. -/
theorem sum_of_prefix {front terms : List Int} (h : front <+: terms) :
    losses terms ≤ front.sum ∧ front.sum ≤ gains terms := by
  obtain ⟨rest, rfl⟩ := h
  have hgains : gains (front ++ rest) = gains front + gains rest := by simp [gains]
  have hlosses : losses (front ++ rest) = losses front + losses rest := by simp [losses]
  have hfront := sum_eq_gains_add_losses front
  have hrest := sum_eq_gains_add_losses rest
  omega

theorem sustains_of_fits {sum : Int} {terms : List Int} (hgains : Fits (sum + gains terms))
    (hlosses : Fits (sum + losses terms)) : Sustains sum terms := by
  intro front hfront
  obtain ⟨hlow, hhigh⟩ := sum_of_prefix hfront
  unfold Fits at *
  omega

/-- Terms whose sum fits can be put in an order in which all sums on the way fit: next comes a term
that brings the sum nearer to zero or across it, as long as there is one. -/
theorem exists_perm_sustains {sum : Int} {terms : List Int} (hsum : Fits sum)
    (hterms : ∀ n ∈ terms, Fits n) (htotal : Fits (sum + terms.sum)) :
    ∃ order, order.Perm terms ∧ Sustains sum order := by
  by_cases hback : ∃ n ∈ terms, 0 ≤ sum ∧ n ≤ 0 ∨ sum < 0 ∧ 0 ≤ n
  · obtain ⟨n, hn, hsigns⟩ := hback
    obtain ⟨before, after, hsplit⟩ := List.append_of_mem hn
    have hshorter : (before ++ after).length < terms.length := by simp [hsplit]
    have hnext : Fits (sum + n) := by
      have hword := hterms n hn
      unfold Fits at *
      omega
    have hrest : Fits (sum + n + (before ++ after).sum) := by
      rw [hsplit, List.sum_append, List.sum_cons] at htotal
      rw [List.sum_append]
      unfold Fits at *
      omega
    obtain ⟨order, hperm, hsustains⟩ := exists_perm_sustains hnext
      (fun m hm => hterms m (by rw [hsplit]; simp at hm ⊢; tauto)) hrest
    refine ⟨n :: order, ?_, sustains_cons.mpr ⟨hsum, hsustains⟩⟩
    rw [hsplit]
    exact (hperm.cons n).trans List.perm_middle.symm
  · -- all terms lead away from zero, so every sum on the way is between the first and the last
    refine ⟨terms, .refl _, ?_⟩
    obtain ⟨-, -, hsplit⟩ := sum_eq_gains_add_losses terms
    rcases le_or_gt 0 sum with hpos | hneg
    · have hlosses : losses terms = 0 := by
        have hnone : terms.filter (· < 0) = [] := List.filter_eq_nil_iff.mpr fun n hn hlt =>
          hback ⟨n, hn, .inl ⟨hpos, le_of_lt (by simpa using hlt)⟩⟩
        rw [losses, hnone, List.sum_nil]
      rw [hsplit, hlosses, add_zero] at htotal
      exact sustains_of_fits htotal (by rwa [hlosses, add_zero])
    · have hgains : gains terms = 0 := by
        have hnone : terms.filter (0 < ·) = [] := List.filter_eq_nil_iff.mpr fun n hn hlt =>
          hback ⟨n, hn, .inr ⟨hneg, le_of_lt (by simpa using hlt)⟩⟩
        rw [gains, hnone, List.sum_nil]
      rw [hsplit, hgains, zero_add] at htotal
      exact sustains_of_fits (by rwa [hgains, add_zero]) htotal
termination_by terms.length
decreasing_by exact hshorter

/-! ## Sums of values -/

variable {args : List Value}

/-- Integers are added up if the sums on the way fit, and otherwise there is no sum. -/
theorem add_of_integers (h : ∀ v ∈ args, v.kind.isInteger = true) :
    (Sustains 0 (args.map Value.integer) → ∃ total : Int64,
      total.toInt = (args.map Value.integer).sum ∧ add args = .value (.s64 total)) ∧
    (¬ Sustains 0 (args.map Value.integer) → add args = .failure "integer overflow") := by
  obtain ⟨words, hwords, hvalues⟩ := Value.mapM_toInt64? h
  have hsum {s : Int64} : sumChecked 0 words = some s ↔
      Sustains 0 (args.map Value.integer) ∧ s.toInt = (args.map Value.integer).sum := by
    rw [sumChecked_eq_some_iff, hvalues, Int64.toInt_zero, zero_add]
  unfold add
  rw [hwords]
  dsimp only
  cases hs : sumChecked 0 words with
  | some s =>
    obtain ⟨hsustains, hexact⟩ := hsum.mp hs
    exact ⟨fun _ => ⟨s, hexact, rfl⟩, fun hnot => absurd hsustains hnot⟩
  | none =>
    refine ⟨fun hsustains => ?_, fun _ => rfl⟩
    have hexact := Int64.toInt_ofInt_of_le hsustains.total.1 hsustains.total.2
    exact absurd (hs.symm.trans (hsum.mpr ⟨hsustains, hexact⟩)) nofun

/-- Any order of the integers is one of the values. -/
theorem exists_perm_integers {order : List Int} (h : order.Perm (args.map Value.integer)) :
    ∃ values : List Value, values.Perm args ∧ values.map Value.integer = order := by
  have hargs : List.Forall₂ (fun n v => n = Value.integer v) (args.map Value.integer) args :=
    List.forall₂_map_left_iff.mpr (List.forall₂_same.mpr fun _ _ => rfl)
  obtain ⟨values, hvalues, hperm⟩ := List.perm_comp_forall₂ h hargs
  refine ⟨values, hperm, ?_⟩
  rw [← List.forall₂_eq_eq_eq, List.forall₂_map_left_iff]
  exact (List.Forall₂.imp (fun _ _ => Eq.symm) hvalues).flip

/-- There is an order that has a sum just if the sum fits. -/
theorem exists_perm_summing (h : ∀ v ∈ args, v.kind.isInteger = true) :
    (∃ (order : List Value) (total : Int64), order.Perm args ∧
      total.toInt = (args.map Value.integer).sum ∧ add order = .value (.s64 total)) ↔
    Fits (args.map Value.integer).sum := by
  constructor
  · rintro ⟨_, total, -, htotal, -⟩
    exact htotal ▸ fits_toInt total
  · intro hfits
    have hwords : ∀ n ∈ args.map Value.integer, Fits n := by
      simp only [List.mem_map]
      rintro n ⟨v, -, rfl⟩
      exact fits_integer v
    have hzero : Fits 0 := by decide
    obtain ⟨terms, hterms, hsustains⟩ := exists_perm_sustains hzero hwords (by rwa [zero_add])
    obtain ⟨order, hperm, rfl⟩ := exists_perm_integers hterms
    obtain ⟨total, htotal, hadd⟩ :=
      (add_of_integers fun v hv => h v (hperm.mem_iff.mp hv)).1 hsustains
    exact ⟨order, total, hperm, htotal.trans hterms.sum_eq, hadd⟩

/-- If the positive or the negative terms alone do not fit, there is an order that has no sum: the
one that has them first. -/
theorem exists_perm_failing (h : ∀ v ∈ args, v.kind.isInteger = true)
    (hparts : ¬ (Fits (gains (args.map Value.integer)) ∧ Fits (losses (args.map Value.integer)))) :
    ∃ order : List Value, order.Perm args ∧ add order = .failure "integer overflow" := by
  have hfirst (p : Value → Bool) (hfails : ¬ Fits ((args.filter p).map Value.integer).sum) :
      ∃ order : List Value, order.Perm args ∧ add order = .failure "integer overflow" := by
    have hperm := List.filter_append_perm p args
    refine ⟨_, hperm, (add_of_integers fun v hv => h v (hperm.mem_iff.mp hv)).2 fun hsustains => ?_⟩
    rw [List.map_append] at hsustains
    exact hfails (sustains_zero.mp hsustains _ (List.prefix_append ..))
  by_cases hgains : Fits (gains (args.map Value.integer))
  · refine hfirst (fun v => v.integer < 0) fun hfits => hparts ⟨hgains, ?_⟩
    simpa [losses, List.filter_map, Function.comp_def] using hfits
  · refine hfirst (fun v => 0 < v.integer) fun hfits => hgains ?_
    simpa [gains, List.filter_map, Function.comp_def] using hfits

/-- The order makes no difference just if the sum does not fit, or the positive and the negative
terms alone fit as well. -/
theorem add_perm_iff (h : ∀ v ∈ args, v.kind.isInteger = true) :
    (∀ order : List Value, order.Perm args → add order = add args) ↔
      ¬ Fits (args.map Value.integer).sum ∨
        Fits (gains (args.map Value.integer)) ∧ Fits (losses (args.map Value.integer)) := by
  constructor
  · intro hsame
    by_contra hnot
    rw [not_or, not_not] at hnot
    obtain ⟨order, total, hperm, -, hsum⟩ := (exists_perm_summing h).mpr hnot.1
    obtain ⟨order', hperm', hfails⟩ := exists_perm_failing h hnot.2
    cases ((hsame order hperm).symm.trans hsum).symm.trans
      ((hsame order' hperm').symm.trans hfails)
  · intro hfits order hperm
    have horder : ∀ v ∈ order, v.kind.isInteger = true := fun v hv => h v (hperm.mem_iff.mp hv)
    have hterms : (order.map Value.integer).Perm (args.map Value.integer) := hperm.map _
    rcases hfits with hbeyond | ⟨hgains, hlosses⟩
    · rw [(add_of_integers h).2 fun hsustains => hbeyond hsustains.total]
      exact (add_of_integers horder).2 fun hsustains => hbeyond (hterms.sum_eq ▸ hsustains.total)
    · have hsustains {terms : List Int} (hp : terms.Perm (args.map Value.integer)) :
          Sustains 0 terms := by
        refine sustains_of_fits ?_ ?_
        · rwa [zero_add, gains, (hp.filter _).sum_eq]
        · rwa [zero_add, losses, (hp.filter _).sum_eq]
      obtain ⟨total, htotal, hadd⟩ := (add_of_integers h).1 (hsustains (.refl _))
      obtain ⟨total', htotal', hadd'⟩ := (add_of_integers horder).1 (hsustains hterms)
      rw [hadd, hadd', Int64.toInt_inj.mp ((htotal'.trans hterms.sum_eq).trans htotal.symm)]

/-- **Sums of integers.**  Integers of any width have a sum, which is exact, if all sums from the
first term on fit a word, and otherwise none.  There is an order in which they have one just if it
fits a word.  Their order makes no difference just if it does not, or if the sum of the positive
terms and the sum of the negative ones fit as well. -/
theorem add_integers (h : ∀ v ∈ args, v.kind.isInteger = true) :
    let terms := args.map Value.integer
    ((∀ front, front <+: terms → Fits front.sum) →
      ∃ total : Int64, total.toInt = terms.sum ∧ add args = .value (.s64 total)) ∧
    ((∃ front, front <+: terms ∧ ¬ Fits front.sum) → add args = .failure "integer overflow") ∧
    ((∃ (order : List Value) (total : Int64), order.Perm args ∧ total.toInt = terms.sum ∧
      add order = .value (.s64 total)) ↔ Fits terms.sum) ∧
    ((∀ order : List Value, order.Perm args → add order = add args) ↔
      ¬ Fits terms.sum ∨ Fits (gains terms) ∧ Fits (losses terms)) := by
  intro terms
  refine ⟨fun hfits => (add_of_integers h).1 (sustains_zero.mpr hfits), ?_, exists_perm_summing h,
    add_perm_iff h⟩
  rintro ⟨front, hfront, hbeyond⟩
  exact (add_of_integers h).2 fun hsustains => hbeyond (sustains_zero.mp hsustains front hfront)

/-- The greatest word, one less and one more: there is a sum. -/
theorem add_integers_regained :
    let args : List Value := [.s64 9223372036854775807, .s8 (-1), .s16 1]
    (∀ v ∈ args, v.kind.isInteger = true) ∧
      ∃ total : Int64, total.toInt = 9223372036854775807 ∧ add args = .value (.s64 total) := by
  intro args
  have hintegers : ∀ v ∈ args, v.kind.isInteger = true := by
    simp [args, Value.kind, ValueKind.isInteger]
  have hfits : ∀ front ∈ (args.map Value.integer).inits, Fits front.sum := by decide
  exact ⟨hintegers, (add_integers hintegers).1 fun front hfront =>
    hfits front (List.mem_inits front _ |>.mpr hfront)⟩

/-- One more and one less: the sum is the same, but on the way to it there is none. -/
theorem add_overflows_midway :
    let args : List Value := [.s64 9223372036854775807, .s16 1, .s8 (-1)]
    let order : List Value := [.s64 9223372036854775807, .s8 (-1), .s16 1]
    (∀ v ∈ args, v.kind.isInteger = true) ∧ Fits (args.map Value.integer).sum ∧ order.Perm args ∧
      add args = .failure "integer overflow" ∧ add order = .value (.s64 9223372036854775807) := by
  refine ⟨by simp [Value.kind, ValueKind.isInteger], by decide, .cons _ (.swap ..), ?_, ?_⟩
  · rfl
  · rfl

end Builtin

end ForeignCall
