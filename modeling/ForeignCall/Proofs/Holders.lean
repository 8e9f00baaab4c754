import ForeignCall.Log.Bench
import ForeignCall.Proofs.Counting
import ForeignCall.Proofs.Pouring
import Mathlib.Data.List.Basic

/-!
# ForeignCall.Proofs.Holders

Who holds which stream, read off the steps that were taken.

A `Roll` lists the policies that were created, in order, and strikes off the
stream of a policy when it is destroyed, dropped, or cleared from its logger.
It looks at steps and answers only.  A bench that went through the same steps
agrees with its roll (`Bench.Accounts`): each policy that still has a number of
its own is as the roll says, each logger holds what was attached to it, and

```
holders of a stream  =  policies on the roll that hold it
```

Every step keeps the agreement (`Bench.Accounts.step`).
-/

namespace ForeignCall

namespace Log

/-! ## The roll -/

/-- Where a policy is. -/
inductive Place where
  /-- It has a number of its own. -/
  | own
  | attached (logger : Nat)
  /-- It was dropped, or its logger was cleared. -/
  | gone
deriving DecidableEq, Repr

/-- A policy that was created. -/
structure Issued where
  tag : String
  /-- The stream it was created over, until it is destroyed, dropped or cleared. -/
  held : Option Nat
  place : Place := .own
deriving DecidableEq, Repr

namespace Issued

/-- Created over a stream, and neither destroyed, nor dropped, nor cleared. -/
def holds (p : Issued) (id : Nat) : Bool :=
  p.held == some id

/-- Among the policies of a logger, holding a stream. -/
def holdsFor (p : Issued) (logger id : Nat) : Bool :=
  p.place == .attached logger && p.holds id

/-- To destroy a policy takes a number of its own; it lets go of its stream and keeps its place. -/
def destroy (p : Issued) : Issued :=
  if p.place = .own then { p with held := none } else p

/-- A policy with a number of its own is dropped with its stream. -/
def drop (p : Issued) : Issued :=
  if p.place = .own then { p with held := none, place := .gone } else p

/-- A policy with a number of its own moves to a logger and holds its stream there. -/
def attach (logger : Nat) (p : Issued) : Issued :=
  if p.place = .own then { p with place := .attached logger } else p

/-- A logger that is cleared drops its policies with their streams. -/
def clear (logger : Nat) (p : Issued) : Issued :=
  if p.place = .attached logger then { p with held := none, place := .gone } else p

theorem destroy_of_moved {p : Issued} (h : p.place ≠ .own) : p.destroy = p := if_neg h

theorem drop_of_moved {p : Issued} (h : p.place ≠ .own) : p.drop = p := if_neg h

theorem attach_of_moved {p : Issued} (l : Nat) (h : p.place ≠ .own) : p.attach l = p := if_neg h

end Issued

/-- The policies that were created, and the number of loggers. -/
structure Roll where
  issued : List Issued := []
  loggers : Nat := 0
deriving DecidableEq, Repr

namespace Roll

/-- A new policy over a stream. -/
def issue (r : Roll) (tag : String) (id : Nat) : Roll :=
  { r with issued := r.issued ++ [{ tag, held := some id }] }

/-- What a step and its answer tell. -/
def record (r : Roll) : Bench.Step → Bench.Answer → Roll
  | .create tag (.stdio id), .created _ => r.issue tag id
  | .create tag (.prefixed id), .created _ => r.issue tag id
  | .wrap tag id, _ => r.issue tag id
  | .destroy n, _ => { r with issued := r.issued.modify n Issued.destroy }
  | .drop n, _ => { r with issued := r.issued.modify n Issued.drop }
  | .logger _, _ => { r with loggers := r.loggers + 1 }
  | .attach l n, _ =>
    if l < r.loggers then { r with issued := r.issued.modify n (Issued.attach l) } else r
  | .clear l, _ => { r with issued := r.issued.map (Issued.clear l) }
  | _, _ => r

/-- The roll of a history of steps and their answers. -/
def ofHistory (history : List (Bench.Step × Bench.Answer)) : Roll :=
  history.foldl (fun r entry => r.record entry.1 entry.2) {}

/-- The policies created over a stream that were neither destroyed, nor dropped, nor cleared. -/
def live (r : Roll) (id : Nat) : Nat :=
  r.issued.countP (·.holds id)

/-- Those of them that are attached to a logger. -/
def attached (r : Roll) (l id : Nat) : Nat :=
  r.issued.countP (·.holdsFor l id)

end Roll

/-! ## Counting -/

namespace Roll

theorem live_issue (r : Roll) (tag : String) (i id : Nat) :
    (r.issue tag i).live id = r.live id + (i == id).toNat := by
  by_cases hi : i = id
  · simp [live, issue, Issued.holds, hi]
  · simp [live, issue, Issued.holds, hi]

theorem attached_issue (r : Roll) (tag : String) (i l id : Nat) :
    (r.issue tag i).attached l id = r.attached l id := by
  simp [attached, issue, Issued.holdsFor]

/-- What is cleared from a logger was held on its behalf. -/
theorem Issued.holds_clear (p : Issued) (l id : Nat) :
    (p.clear l).holds id = (p.holds id && !p.holdsFor l id) := by
  by_cases hp : p.place = .attached l
  · simp [Issued.clear, Issued.holdsFor, Issued.holds, hp]
  · simp [Issued.clear, Issued.holdsFor, Issued.holds, hp]

/-- Clearing a logger takes away what was attached to it. -/
theorem live_clear (issued : List Issued) (l id : Nat) :
    (issued.map (Issued.clear l)).countP (·.holds id) =
      issued.countP (·.holds id) - issued.countP (·.holdsFor l id) := by
  have hsplit := List.countP_eq_countP_filter_add issued (·.holds id) (·.holdsFor l id)
  have hfor : (issued.filter (·.holdsFor l id)).countP (·.holds id) =
      issued.countP (·.holdsFor l id) := by
    rw [List.countP_filter]
    exact List.countP_congr fun p _ => by simp [Issued.holdsFor]
  have hrest : (issued.filter (!·.holdsFor l id)).countP (·.holds id) =
      (issued.map (Issued.clear l)).countP (·.holds id) := by
    rw [List.countP_filter, List.countP_map]
    exact List.countP_congr fun p _ => by simp [Issued.holds_clear]
  omega

theorem attached_clear (issued : List Issued) (l k id : Nat) :
    (issued.map (Issued.clear l)).countP (·.holdsFor k id) =
      if k = l then 0 else issued.countP (·.holdsFor k id) := by
  rw [List.countP_map]
  split_ifs with hk
  · subst hk
    rw [List.countP_eq_zero]
    intro p _
    by_cases hp : p.place = .attached k
    · simp [Issued.clear, Issued.holdsFor, hp]
    · simp [Issued.clear, Issued.holdsFor, hp]
  · apply List.countP_congr
    intro p _
    by_cases hp : p.place = .attached l
    · simp [Issued.clear, Issued.holdsFor, hp, Ne.symm hk]
    · simp [Issued.clear, Issued.holdsFor, hp]

end Roll

/-! ## Creating -/

theorem Policy.destroy_fst (p : Policy) (streams : Streams) :
    (p.destroy streams).1 = { p with backend := none } := by
  obtain ⟨tag, _ | backend⟩ := p
  · rfl
  · rfl

/-- A factory builds over the stream it is given, if the data are of its kind. -/
theorem Factory.build_cases (factory : Factory) (data : Construction) :
    factory.build data = .error (.invalidCtor factory.tag) ∨
      ∃ backend : Backend, (data = .stdio backend.stream ∨ data = .prefixed backend.stream) ∧
        factory.build data = .ok backend := by
  unfold Factory.build
  cases hmake : factory.make data with
  | none => exact .inl rfl
  | some backend =>
    refine .inr ⟨backend, ?_, rfl⟩
    have hstream := factory.stream_make data backend hmake
    cases data with
    | stdio => exact .inl (congrArg _ (Option.some.inj hstream))
    | prefixed => exact .inr (congrArg _ (Option.some.inj hstream))
    | foreign => cases hstream

/-- Creating a policy fails and leaves the streams as they are, or gives a policy that holds the
stream it was asked for. -/
theorem Registry.create_cases (registry : Registry) (tag : String) (data : Construction)
    (streams : Streams) :
    (∃ e, (e = .unknownTag tag ∨ ∃ factory, Entries.find? tag registry.factories = some factory ∧
          e = .invalidCtor factory.tag) ∧
        registry.create tag data streams = (.error e, streams)) ∨
      ∃ backend : Backend, (data = .stdio backend.stream ∨ data = .prefixed backend.stream) ∧
        registry.create tag data streams =
          (.ok ⟨tag, some backend⟩, streams.hold backend.stream) := by
  cases hfind : Entries.find? tag registry.factories with
  | none => exact .inl ⟨_, .inl rfl, by simp only [create, hfind]⟩
  | some factory =>
    rcases factory.build_cases data with hbuild | ⟨backend, hdata, hbuild⟩
    · exact .inl ⟨_, .inr ⟨factory, rfl, rfl⟩, by simp only [create, hfind, hbuild]⟩
    · exact .inr ⟨backend, hdata, by simp only [create, hfind, hbuild, Policy.ofBackend]⟩

namespace Bench

theorem step_create_cases (b : Bench) (tag : String) (data : Construction) :
    (∃ e, (e = .unknownTag tag ∨ ∃ factory, Entries.find? tag b.registry.factories = some factory ∧
          e = .invalidCtor factory.tag) ∧
        b.step (.create tag data) = (.failed e, b)) ∨
      ∃ backend : Backend, (data = .stdio backend.stream ∨ data = .prefixed backend.stream) ∧
        b.step (.create tag data) =
          b.enroll ⟨tag, some backend⟩ (b.streams.hold backend.stream) := by
  rcases b.registry.create_cases tag data b.streams with
    ⟨e, he, hcreate⟩ | ⟨backend, hdata, hcreate⟩
  · exact .inl ⟨e, he, by simp only [step, hcreate]⟩
  · exact .inr ⟨backend, hdata, by simp only [step, hcreate]⟩

theorem lt_size_of_policy? {b : Bench} {n : Nat} {p : Policy} (h : b.policy? n = some p) :
    n < b.policies.size := by
  by_contra hge
  simp [policy?, Array.getElem?_eq_none (Nat.le_of_not_lt hge)] at h

/-! ## Writing and flushing -/

/-- What a policy does to the streams is all that happens. -/
theorem onPolicy_gains (b : Bench) (n : Nat)
    {act : Policy → Streams → Except LogError Unit × Streams}
    (h : ∀ p streams, Streams.Gains streams (act p streams).2) :
    ∃ streams, b.streams.Gains streams ∧ (b.onPolicy n act).2 = { b with streams } := by
  unfold onPolicy
  cases b.policy? n with
  | none => exact ⟨_, .refl _, rfl⟩
  | some p => exact ⟨_, h p b.streams, rfl⟩

theorem onLogger_gains (b : Bench) (n : Nat)
    {act : Logger → Streams → Except LogError Unit × Streams}
    (h : ∀ l streams, Streams.Gains streams (act l streams).2) :
    ∃ streams, b.streams.Gains streams ∧ (b.onLogger n act).2 = { b with streams } := by
  unfold onLogger
  cases b.loggers[n]? with
  | none => exact ⟨_, .refl _, rfl⟩
  | some l => exact ⟨_, h l b.streams, rfl⟩

end Bench

/-! ## Agreement of a bench with its roll -/

/-- What stands under the number of a policy: the policy, unless it has moved. -/
def Issued.Fits (p : Issued) (slot : Option Policy) : Prop :=
  match p.place with
  | .own => ∃ policy, slot = some policy ∧ policy.tag = p.tag ∧
      policy.backend.map Backend.stream = p.held
  | .attached _ | .gone => slot = none

namespace Bench

/-- The policies of a logger. -/
def attachedTo (b : Bench) (l : Nat) : List Policy :=
  (b.loggers[l]?.getD {}).policies

/-- The bench and the roll tell the same story. -/
structure Accounts (b : Bench) (r : Roll) : Prop where
  size : b.policies.size = r.issued.length
  fits : ∀ (n : Nat) (p : Issued), r.issued[n]? = some p → p.Fits (b.policy? n)
  loggers : b.loggers.size = r.loggers
  attached : ∀ l id, (b.attachedTo l).countP (·.holds id) = r.attached l id
  holders : ∀ (id : Nat) (s : Stream), b.streams[id]? = some s → s.holders = r.live id

namespace Accounts

variable {b b' : Bench} {r : Roll} {n : Nat} {policy : Policy} {p : Issued}

/-- The policy under a number is the one the roll has under it. -/
theorem issued (h : b.Accounts r) (hn : b.policy? n = some policy) :
    ∃ p, r.issued[n]? = some p ∧ p.place = .own ∧ policy.tag = p.tag ∧
      policy.backend.map Backend.stream = p.held := by
  have hlt : n < r.issued.length := by
    rw [← h.size]
    exact lt_size_of_policy? hn
  have hp := List.getElem?_eq_getElem hlt
  have hfits := h.fits n _ hp
  unfold Issued.Fits at hfits
  split at hfits
  · next hplace =>
    obtain ⟨_, hslot, htag, hheld⟩ := hfits
    obtain rfl : _ = policy := Option.some.inj (hslot.symm.trans hn)
    exact ⟨_, hp, hplace, htag, hheld⟩
  all_goals simp [hn] at hfits

/-- What only policies with a number of their own go through leaves the roll as it is when there
is none under the number. -/
theorem modify_of_none (h : b.Accounts r) (hn : b.policy? n = none) {f : Issued → Issued}
    (hf : ∀ p : Issued, p.place ≠ .own → f p = p) : r.issued.modify n f = r.issued :=
  modify_of_fixed fun p hp => hf p fun hplace => by
    have hfits := h.fits n p hp
    simp [Issued.Fits, hplace, hn] at hfits

/-- The numbers after one policy has changed. -/
theorem fits_modify (h : b.Accounts r) (hn : b.policy? n = some policy)
    (hp : r.issued[n]? = some p) {f : Issued → Issued} {slot : Option Policy}
    (hf : (f p).Fits slot) (m : Nat) (q : Issued) (hq : (r.issued.modify n f)[m]? = some q) :
    q.Fits ((b.policies.setIfInBounds n slot)[m]?).join := by
  rw [List.getElem?_modify] at hq
  rw [Array.getElem?_setIfInBounds]
  by_cases hm : n = m
  · subst hm
    have hlt : n < b.policies.size := lt_size_of_policy? hn
    obtain rfl : f p = q := by simpa [hp] using hq
    simpa [hlt] using hf
  · simp only [hm, if_false, id_map'] at hq ⊢
    exact h.fits m q hq

/-- What moves no policy and leaves all holders as they are keeps the agreement. -/
theorem unmoved (h : b.Accounts r) (hpolicies : b'.policies = b.policies)
    (hsize : b'.loggers.size = b.loggers.size)
    (hattached : ∀ l, b'.attachedTo l = b.attachedTo l)
    (hholders : ∀ (id : Nat) (t : Stream), b'.streams[id]? = some t →
      ∃ s : Stream, b.streams[id]? = some s ∧ t.holders = s.holders) : b'.Accounts r where
  size := hpolicies ▸ h.size
  fits n p hp := by
    rw [policy?, hpolicies]
    exact h.fits n p hp
  loggers := hsize.trans h.loggers
  attached l id := by rw [hattached, h.attached]
  holders id t ht := by
    obtain ⟨s, hs, hst⟩ := hholders id t ht
    rw [hst, h.holders id s hs]

/-- So does what only writes to streams. -/
theorem gained (h : b.Accounts r) {streams : Streams} (hgains : b.streams.Gains streams) :
    ({ b with streams } : Bench).Accounts r :=
  h.unmoved rfl rfl (fun _ => rfl) fun _ _ ht =>
    let ⟨s, hs, hst⟩ := hgains.before ht
    ⟨s, hs, hst.holders⟩

theorem onPolicy (h : b.Accounts r) (n : Nat)
    {act : Policy → Streams → Except LogError Unit × Streams}
    (hact : ∀ p streams, Streams.Gains streams (act p streams).2) :
    (b.onPolicy n act).2.Accounts r := by
  obtain ⟨streams, hgains, hstep⟩ := b.onPolicy_gains n hact
  rw [hstep]
  exact h.gained hgains

theorem onLogger (h : b.Accounts r) (n : Nat)
    {act : Logger → Streams → Except LogError Unit × Streams}
    (hact : ∀ l streams, Streams.Gains streams (act l streams).2) :
    (b.onLogger n act).2.Accounts r := by
  obtain ⟨streams, hgains, hstep⟩ := b.onLogger_gains n hact
  rw [hstep]
  exact h.gained hgains

/-! ### Policies come -/

theorem enroll (h : b.Accounts r) {id : Nat}
    (hpolicy : policy.backend.map Backend.stream = some id) :
    (b.enroll policy (b.streams.hold id)).2.Accounts (r.issue policy.tag id) where
  size := by simp [Bench.enroll, Roll.issue, h.size]
  fits m q hq := by
    simp only [Bench.enroll, Bench.policy?, Array.getElem?_push, Roll.issue,
      List.getElem?_append] at hq ⊢
    rw [h.size]
    split_ifs at hq with hlt
    · rw [if_neg (Nat.ne_of_lt hlt)]
      exact h.fits m q hq
    · obtain ⟨hm, rfl⟩ : m - r.issued.length = 0 ∧
          ({ tag := policy.tag, held := some id } : Issued) = q := by
        simpa [List.getElem?_singleton] using hq
      rw [if_pos (by omega)]
      exact ⟨policy, rfl, rfl, hpolicy⟩
  loggers := h.loggers
  attached l i := by
    rw [Roll.attached_issue, ← h.attached]
    rfl
  holders i t ht := by
    simp only [Bench.enroll, Streams.getElem?_hold, Option.map_eq_some_iff] at ht
    obtain ⟨s, hs, rfl⟩ := ht
    rw [Roll.live_issue, ← h.holders i s hs]
    rfl

/-! ### Policies let go -/

/-- The policy under a number lets go of its stream, and stays there destroyed or leaves. -/
theorem release (h : b.Accounts r) (hn : b.policy? n = some policy) {f : Issued → Issued}
    {slot : Option Policy} (hf : ∀ p : Issued, p.place = .own → policy.tag = p.tag →
      (f p).Fits slot ∧ (f p).held = none ∧ ∀ l, (f p).place ≠ .attached l) :
    ({ b with
        policies := b.policies.setIfInBounds n slot
        streams := (policy.destroy b.streams).2 } : Bench).Accounts
      { r with issued := r.issued.modify n f } := by
  obtain ⟨p, hp, hplace, htag, hheld⟩ := h.issued hn
  obtain ⟨hfits, hreleased, hplace'⟩ := hf p hplace htag
  refine ⟨by simpa using h.size, h.fits_modify hn hp hfits, h.loggers, fun l id => ?_,
    fun id t ht => ?_⟩
  · have hcount := countP_modify (·.holdsFor l id) (f := f) hp
    have hbefore : p.holdsFor l id = false := by simp [Issued.holdsFor, hplace]
    have hafter : (f p).holdsFor l id = false := by simp [Issued.holdsFor, hplace' l]
    rw [hbefore, hafter] at hcount
    exact (h.attached l id).trans (Nat.add_right_cancel hcount).symm
  · simp only [Streams.getElem?_destroy, Option.map_eq_some_iff] at ht
    obtain ⟨s, hs, rfl⟩ := ht
    have hcount := countP_modify (·.holds id) (f := f) hp
    have hafter : (f p).holds id = false := by simp [Issued.holds, hreleased]
    have hbefore : policy.holds id = p.holds id := by rw [Policy.holds, hheld, Issued.holds]
    rw [hafter, Bool.toNat_false, Nat.add_zero] at hcount
    simp only [Stream.heldBy, hbefore, h.holders id s hs, Roll.live]
    omega

/-! ### Policies move -/

/-- The policy under a number goes to a logger. -/
theorem attach (h : b.Accounts r) (hn : b.policy? n = some policy) {l : Nat} {logger : Logger}
    (hl : b.loggers[l]? = some logger) :
    ({ b with
        policies := b.policies.setIfInBounds n none
        loggers := b.loggers.setIfInBounds l (logger.attach policy) } : Bench).Accounts
      { r with issued := r.issued.modify n (Issued.attach l) } := by
  obtain ⟨p, hp, hplace, -, hheld⟩ := h.issued hn
  have hattach : p.attach l = { p with place := .attached l } := if_pos hplace
  have hpolicy : ∀ id, policy.holds id = p.holds id := fun id => by
    rw [Policy.holds, hheld, Issued.holds]
  refine ⟨by simpa using h.size, h.fits_modify hn hp (by rw [hattach]; rfl),
    by simpa using h.loggers, fun k id => ?_, fun id s hs => ?_⟩
  · have hcount := countP_modify (·.holdsFor k id) (f := Issued.attach l) hp
    have hbefore : p.holdsFor k id = false := by simp [Issued.holdsFor, hplace]
    have hlogger := h.attached k id
    have hlt : l < b.loggers.size := (Array.getElem?_eq_some_iff.mp hl).1
    rw [hbefore, hattach] at hcount
    simp only [attachedTo, Array.getElem?_setIfInBounds] at hlogger ⊢
    by_cases hk : l = k
    · subst hk
      have hafter : ({ p with place := .attached l } : Issued).holdsFor l id = policy.holds id := by
        simp [Issued.holdsFor, Issued.holds, hpolicy]
      rw [hafter] at hcount
      simp only [hl, hlt, if_true, Option.getD_some, Logger.attach, List.countP_append,
        Roll.attached] at hlogger ⊢
      cases hpol : policy.holds id <;> simp [hpol] at hcount ⊢ <;> omega
    · have hafter : ({ p with place := .attached l } : Issued).holdsFor k id = false := by
        simp [Issued.holdsFor, hk]
      rw [hafter] at hcount
      rw [if_neg hk]
      exact hlogger.trans (Nat.add_right_cancel hcount).symm
  · have hcount := countP_modify (·.holds id) (f := Issued.attach l) hp
    have hafter : (p.attach l).holds id = p.holds id := by rw [hattach]; rfl
    rw [hafter] at hcount
    exact (h.holders id s hs).trans (Nat.add_right_cancel hcount).symm

/-- All policies of a logger go. -/
theorem clear (h : b.Accounts r) {l : Nat} (hpolicies : b'.policies = b.policies)
    (hsize : b'.loggers.size = b.loggers.size)
    (hattached : ∀ k, b'.attachedTo k = if k = l then [] else b.attachedTo k)
    (hstreams : ∀ id : Nat, b'.streams[id]? = b.streams[id]?.map fun s =>
      s.heldBy (s.holders - (b.attachedTo l).countP (·.holds id))) :
    b'.Accounts { r with issued := r.issued.map (Issued.clear l) } := by
  refine ⟨by simpa [hpolicies] using h.size, fun n p hp => ?_, hsize.trans h.loggers,
    fun k id => ?_, fun id t ht => ?_⟩
  · simp only [List.getElem?_map, Option.map_eq_some_iff] at hp
    obtain ⟨q, hq, rfl⟩ := hp
    have hfits := h.fits n q hq
    rw [policy?, hpolicies]
    by_cases hplace : q.place = .attached l
    · simp only [Issued.Fits, hplace] at hfits
      rw [Issued.clear, if_pos hplace]
      exact hfits
    · rwa [Issued.clear, if_neg hplace]
  · rw [hattached, Roll.attached, Roll.attached_clear]
    split_ifs with hk
    · rfl
    · exact h.attached k id
  · simp only [hstreams, Option.map_eq_some_iff] at ht
    obtain ⟨s, hs, rfl⟩ := ht
    rw [Roll.live, Roll.live_clear, Stream.heldBy, h.holders id s hs, h.attached]
    rfl

/-! ### Every step -/

theorem step_destroy (h : b.Accounts r) (n : Nat) :
    (b.step (.destroy n)).2.Accounts { r with issued := r.issued.modify n Issued.destroy } := by
  simp only [Bench.step]
  cases hn : b.policy? n with
  | none =>
    rw [h.modify_of_none hn fun _ => Issued.destroy_of_moved]
    exact h
  | some policy =>
    refine h.release hn fun p hplace htag => ?_
    have hdestroy : p.destroy = { p with held := none } := if_pos hplace
    rw [hdestroy, policy.destroy_fst]
    refine ⟨?_, rfl, fun l => by simp [hplace]⟩
    simp only [Issued.Fits, hplace]
    exact ⟨_, rfl, htag, rfl⟩

theorem step_drop (h : b.Accounts r) (n : Nat) :
    (b.step (.drop n)).2.Accounts { r with issued := r.issued.modify n Issued.drop } := by
  simp only [Bench.step]
  cases hn : b.policy? n with
  | none =>
    rw [h.modify_of_none hn fun _ => Issued.drop_of_moved]
    exact h
  | some policy =>
    refine h.release hn fun p hplace _ => ?_
    have hdrop : p.drop = { p with held := none, place := .gone } := if_pos hplace
    rw [hdrop]
    exact ⟨rfl, rfl, nofun⟩

theorem step_attach (h : b.Accounts r) (l n : Nat) :
    (b.step (.attach l n)).2.Accounts (if l < r.loggers then
      { r with issued := r.issued.modify n (Issued.attach l) } else r) := by
  simp only [Bench.step]
  cases hn : b.policy? n with
  | none =>
    rw [h.modify_of_none hn fun _ => Issued.attach_of_moved l, ite_self]
    exact h
  | some policy =>
    cases hl : b.loggers[l]? with
    | none =>
      have hge : ¬l < r.loggers := by
        rw [← h.loggers]
        exact Nat.not_lt.mpr (Array.getElem?_eq_none_iff.mp hl)
      rw [if_neg hge]
      exact h
    | some logger =>
      have hlt : l < r.loggers := by
        rw [← h.loggers]
        exact (Array.getElem?_eq_some_iff.mp hl).1
      rw [if_pos hlt]
      exact h.attach hn hl

theorem step_clear (h : b.Accounts r) (l : Nat) :
    (b.step (.clear l)).2.Accounts { r with issued := r.issued.map (Issued.clear l) } := by
  simp only [Bench.step]
  cases hl : b.loggers[l]? with
  | none =>
    have hnone : b.attachedTo l = [] := by rw [attachedTo, hl]; rfl
    refine h.clear rfl rfl (fun k => ?_) fun id => ?_
    · split_ifs with hk
      · rw [hk, hnone]
      · rfl
    · simp [hnone, Stream.heldBy_holders]
  | some logger =>
    have hsome : b.attachedTo l = logger.policies := by rw [attachedTo, hl]; rfl
    have hlt : l < b.loggers.size := (Array.getElem?_eq_some_iff.mp hl).1
    refine h.clear rfl Array.size_setIfInBounds (fun k => ?_) fun id => ?_
    · simp only [attachedTo, Array.getElem?_setIfInBounds]
      by_cases hk : l = k
      · simp [hk, Logger.clear, hk ▸ hlt]
      · rw [if_neg hk, if_neg (Ne.symm hk)]
    · rw [Streams.getElem?_clear, hsome]

theorem step_logger (h : b.Accounts r) (level : Option Level) :
    (b.step (.logger level)).2.Accounts { r with loggers := r.loggers + 1 } := by
  refine ⟨h.size, h.fits, by simp [Bench.step, h.loggers], fun l id => ?_, h.holders⟩
  refine Eq.trans ?_ (h.attached l id)
  simp only [Bench.step, attachedTo, Array.getElem?_push]
  split_ifs with hl
  · simp [hl]
  · rfl

theorem step_poison (h : b.Accounts r) (id : Nat) : (b.step (.poison id)).2.Accounts r := by
  refine h.unmoved rfl rfl (fun _ => rfl) fun i t ht => ?_
  simp only [Bench.step, Array.getElem?_modify] at ht
  split_ifs at ht
  · obtain ⟨s, hs, rfl⟩ := Option.map_eq_some_iff.mp ht
    exact ⟨s, hs, rfl⟩
  · exact ⟨t, ht, rfl⟩

theorem step_setMinLevel (h : b.Accounts r) (l : Nat) (level : Level) :
    (b.step (.setMinLevel l level)).2.Accounts r := by
  refine h.unmoved rfl Array.size_modify (fun k => ?_) fun _ s hs => ⟨s, hs, rfl⟩
  simp only [Bench.step, attachedTo, Array.getElem?_modify]
  split_ifs with hk
  · subst hk
    cases b.loggers[l]? <;> rfl
  · rfl

theorem step_create (h : b.Accounts r) (tag : String) (data : Construction) :
    (b.step (.create tag data)).2.Accounts
      (r.record (.create tag data) (b.step (.create tag data)).1) := by
  rcases b.step_create_cases tag data with ⟨e, -, hstep⟩ | ⟨backend, rfl | rfl, hstep⟩
  · rw [hstep]
    cases data <;> exact h
  · rw [hstep]
    exact h.enroll rfl
  · rw [hstep]
    exact h.enroll rfl

/-- **Agreement, step by step**: a bench that agrees with a roll still does after a step is taken
here and recorded there. -/
theorem step (h : b.Accounts r) (s : Step) : (b.step s).2.Accounts (r.record s (b.step s).1) := by
  cases s with
  | register factory => exact h.unmoved rfl rfl (fun _ => rfl) fun _ s hs => ⟨s, hs, rfl⟩
  | contains | registry => exact h
  | create tag data => exact h.step_create tag data
  | wrap tag id => exact h.enroll rfl
  | write n bytes => exact h.onPolicy n fun p streams => p.gains_write streams bytes
  | flush n => exact h.onPolicy n Policy.gains_flush
  | destroy n => exact h.step_destroy n
  | drop n => exact h.step_drop n
  | policy n =>
    simp only [Bench.step]
    cases b.policy? n with
    | none => exact h
    | some p => exact h
  | poison id => exact h.step_poison id
  | logger level => exact h.step_logger level
  | attach l n => exact h.step_attach l n
  | setMinLevel l level => exact h.step_setMinLevel l level
  | clear l => exact h.step_clear l
  | log l level target message =>
    exact h.onLogger l fun logger streams => logger.gains_log level target message streams
  | flushLogger l => exact h.onLogger l Logger.gains_flush
  | state l =>
    simp only [Bench.step]
    cases b.loggers[l]? with
    | none => exact h
    | some logger => exact h

end Accounts

end Bench

end Log

end ForeignCall
