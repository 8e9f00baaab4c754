import ForeignCall.Log.Policy
import Mathlib.Logic.Function.Iterate
import Mathlib.Tactic.Choose

/-!
# ForeignCall.Proofs.Delivery

Writing to a stream that does as it pleases.

A stream may take any part of what it is offered, be interrupted, or fail, and
all of this in any order, as long as it is not interrupted for ever.  To see
what a write asks of it, its calls are written down by a stream in front of it
(`Watched`), which changes nothing else.  They form a `Dialogue`: each call
offers what the ones before have left, and nothing is offered any more once all
is taken, nothing was taken, or the stream has failed.

* `exists_pours` — pouring holds such a dialogue, and puts into the stream what
  was taken in it (`Pours`);
* `deliver_exact` — so all octets arrive, each once and in order, or the number
  of those that did is reported;
* `exists_patience` — that a stream has finite patience says no more than that
  it is not interrupted for ever.
-/

namespace ForeignCall

namespace Log

open Backend (deliver)

/-! ## Calls of a stream -/

/-- How many octets are in the stream that were not in it before. -/
def Reply.count : Reply → Nat
  | .took n => n
  | .interrupted | .failed => 0

/-- A call of a stream. -/
structure Call where
  offered : List UInt8
  reply : Reply
deriving DecidableEq, Repr

/-- How many octets were taken in some calls. -/
def taken : List Call → Nat
  | [] => 0
  | call :: calls => call.reply.count + taken calls

@[simp] theorem taken_nil : taken [] = 0 := rfl

@[simp] theorem taken_cons (bytes : List UInt8) (reply : Reply) (calls : List Call) :
    taken (⟨bytes, reply⟩ :: calls) = reply.count + taken calls := rfl

/-- A stream and the calls of it so far. -/
structure Watched (σ : Type) where
  stream : σ
  calls : List Call := []

instance {σ : Type} [Sink σ] : Sink (Watched σ) where
  offer s bytes :=
    let (reply, stream) := Sink.offer s.stream bytes
    (reply, ⟨stream, s.calls ++ [⟨bytes, reply⟩]⟩)
  content s := Sink.content s.stream
  patience s bytes := Sink.patience s.stream bytes

/-! ## Dialogues -/

/-- Calls until all octets are taken or the stream gives up. -/
inductive Dialogue : List UInt8 → List Call → Prop where
  | done : Dialogue [] []
  | took {bytes : List UInt8} {n : Nat} {calls : List Call} : n < bytes.length →
      Dialogue (bytes.drop (n + 1)) calls → Dialogue bytes (⟨bytes, .took (n + 1)⟩ :: calls)
  | interrupted {bytes : List UInt8} {calls : List Call} : bytes ≠ [] →
      Dialogue bytes calls → Dialogue bytes (⟨bytes, .interrupted⟩ :: calls)
  | refused {bytes : List UInt8} : bytes ≠ [] → Dialogue bytes [⟨bytes, .took 0⟩]
  | failed {bytes : List UInt8} : bytes ≠ [] → Dialogue bytes [⟨bytes, .failed⟩]

/-- What can be relied on in the calls of one write. -/
structure Conduct (bytes : List UInt8) (calls : List Call) : Prop where
  taken_le : taken calls ≤ bytes.length
  /-- Each call offers what the ones before have left, and this is something. -/
  offers : ∀ (i : Nat) (call : Call), calls[i]? = some call →
    call.offered = bytes.drop (taken (calls.take i)) ∧ call.offered ≠ []
  /-- Only an interruption or a call that took something is followed by another. -/
  goes_on : ∀ call ∈ calls.dropLast, call.reply = .interrupted ∨ ∃ n, call.reply = .took (n + 1)
  /-- If octets are left over, the last call took nothing or failed. -/
  gives_up : taken calls < bytes.length →
    ∃ call, calls.getLast? = some call ∧ (call.reply = .took 0 ∨ call.reply = .failed)

/-- A call that goes on, in front of calls for what it leaves. -/
theorem Conduct.cons {bytes : List UInt8} {reply : Reply} {calls : List Call} (hne : bytes ≠ [])
    (hon : reply = .interrupted ∨ ∃ n, reply = .took (n + 1)) (hle : reply.count ≤ bytes.length)
    (h : Conduct (bytes.drop reply.count) calls) : Conduct bytes (⟨bytes, reply⟩ :: calls) where
  taken_le := by
    have hrest := h.taken_le
    rw [List.length_drop] at hrest
    rw [taken_cons]
    omega
  offers i call hcall := by
    cases i with
    | zero =>
      obtain rfl : ⟨bytes, reply⟩ = call := by simpa using hcall
      exact ⟨rfl, hne⟩
    | succ i =>
      have hrest := h.offers i call (by simpa using hcall)
      rw [List.drop_drop] at hrest
      rw [List.take_succ_cons, taken_cons]
      exact hrest
  goes_on call hcall := by
    cases calls with
    | nil => simp at hcall
    | cons next calls =>
      rw [List.dropLast_cons_cons, List.mem_cons] at hcall
      rcases hcall with rfl | hcall
      · exact hon
      · exact h.goes_on call hcall
  gives_up hleft := by
    rw [taken_cons] at hleft
    have hrest := h.gives_up (by rw [List.length_drop]; omega)
    obtain ⟨call, hlast, hstop⟩ := hrest
    refine ⟨call, ?_, hstop⟩
    cases calls with
    | nil => simp at hlast
    | cons next calls => rw [List.getLast?_cons_cons, hlast]

/-- A call after which the stream is not asked again. -/
theorem Conduct.last {bytes : List UInt8} {reply : Reply} (hne : bytes ≠ [])
    (hstop : reply = .took 0 ∨ reply = .failed) : Conduct bytes [⟨bytes, reply⟩] where
  taken_le := by rcases hstop with rfl | rfl <;> simp [Reply.count]
  offers i call hcall := by
    obtain ⟨rfl, rfl⟩ : i = 0 ∧ ⟨bytes, reply⟩ = call := by
      cases i <;> simp_all
    exact ⟨rfl, hne⟩
  goes_on := by simp
  gives_up _ := ⟨_, rfl, hstop⟩

theorem Dialogue.conduct {bytes : List UInt8} {calls : List Call} (h : Dialogue bytes calls) :
    Conduct bytes calls := by
  induction h with
  | done => exact ⟨Nat.le_refl _, by simp, by simp, by simp⟩
  | @took bytes n calls hn _ ih =>
    exact .cons (List.length_pos_iff.mp (by omega)) (.inr ⟨n, rfl⟩) hn ih
  | interrupted hne _ ih => exact .cons hne (.inl rfl) (Nat.zero_le _) ih
  | refused hne => exact .last hne (.inl rfl)
  | failed hne => exact .last hne (.inr rfl)

/-! ## Pouring -/

section
variable {σ : Type} [Sink σ] {offers : Nat} {s t : σ} {bytes : List UInt8}

theorem pourWithin_took {n : Nat} (hne : bytes ≠ [])
    (hoffer : Sink.offer s bytes = (.took (n + 1), t)) :
    pourWithin (offers + 1) s bytes =
      (⟨n + 1 + (pourWithin offers t (bytes.drop (n + 1))).1.taken,
        (pourWithin offers t (bytes.drop (n + 1))).1.stop⟩,
        (pourWithin offers t (bytes.drop (n + 1))).2) := by
  obtain ⟨byte, rest, rfl⟩ := List.exists_cons_of_ne_nil hne
  simp only [pourWithin, hoffer]

theorem pourWithin_interrupted (hne : bytes ≠ [])
    (hoffer : Sink.offer s bytes = (.interrupted, t)) :
    pourWithin (offers + 1) s bytes = pourWithin offers t bytes := by
  obtain ⟨byte, rest, rfl⟩ := List.exists_cons_of_ne_nil hne
  simp only [pourWithin, hoffer]

theorem pourWithin_refused (hne : bytes ≠ []) (hoffer : Sink.offer s bytes = (.took 0, t)) :
    pourWithin (offers + 1) s bytes = (⟨0, .refused⟩, t) := by
  obtain ⟨byte, rest, rfl⟩ := List.exists_cons_of_ne_nil hne
  simp only [pourWithin, hoffer]

theorem pourWithin_failed (hne : bytes ≠ []) (hoffer : Sink.offer s bytes = (.failed, t)) :
    pourWithin (offers + 1) s bytes = (⟨0, .failed⟩, t) := by
  obtain ⟨byte, rest, rfl⟩ := List.exists_cons_of_ne_nil hne
  simp only [pourWithin, hoffer]

end

section
variable {σ : Type} [Sink σ] [LawfulSink σ]

/-- Pouring holds a dialogue with the stream, and what is taken in it is what comes into the
stream. -/
structure Pours (offers : Nat) (s : σ) (bytes : List UInt8) (calls : List Call) (poured : Poured)
    (t : σ) : Prop where
  run : pourWithin offers s bytes = (poured, t)
  /-- Watching the stream changes nothing. -/
  watched : ∀ earlier,
    pourWithin offers (⟨s, earlier⟩ : Watched σ) bytes = (poured, ⟨t, earlier ++ calls⟩)
  dialogue : Dialogue bytes calls
  taken_eq : poured.taken = taken calls
  content : Sink.content t = Sink.content s ++ bytes.take (taken calls)

namespace Pours

variable {offers : Nat} {s t u : σ} {bytes : List UInt8} {calls : List Call} {poured : Poured}
  {reply : Reply}

omit [LawfulSink σ] in
theorem offer_watched (hoffer : Sink.offer s bytes = (reply, t)) (earlier : List Call) :
    Sink.offer (⟨s, earlier⟩ : Watched σ) bytes = (reply, ⟨t, earlier ++ [⟨bytes, reply⟩]⟩) := by
  simp only [Sink.offer] at hoffer ⊢
  rw [hoffer]

omit [LawfulSink σ] in
/-- There is nothing to pour. -/
theorem nothing : Pours (offers + 1) s [] [] ⟨0, .finished⟩ s where
  run := rfl
  watched earlier := by simp [pourWithin]
  dialogue := .done
  taken_eq := rfl
  content := by simp

theorem took {n : Nat} (hne : bytes ≠ []) (hoffer : Sink.offer s bytes = (.took (n + 1), t))
    (h : Pours offers t (bytes.drop (n + 1)) calls poured u) :
    Pours (offers + 1) s bytes (⟨bytes, .took (n + 1)⟩ :: calls)
      ⟨n + 1 + poured.taken, poured.stop⟩ u where
  run := by rw [pourWithin_took hne hoffer, h.run]
  watched earlier := by
    rw [pourWithin_took hne (offer_watched hoffer earlier), h.watched, List.append_assoc,
      List.singleton_append]
  dialogue := .took (LawfulSink.took_le hoffer) h.dialogue
  taken_eq := by
    rw [taken_cons, h.taken_eq]
    rfl
  content := by
    rw [h.content, LawfulSink.content_took hoffer, List.append_assoc, taken_cons, ← List.take_add]
    rfl

theorem interrupted (hne : bytes ≠ []) (hoffer : Sink.offer s bytes = (.interrupted, t))
    (h : Pours offers t bytes calls poured u) :
    Pours (offers + 1) s bytes (⟨bytes, .interrupted⟩ :: calls) poured u where
  run := (pourWithin_interrupted hne hoffer).trans h.run
  watched earlier := by
    rw [pourWithin_interrupted hne (offer_watched hoffer earlier), h.watched, List.append_assoc,
      List.singleton_append]
  dialogue := .interrupted hne h.dialogue
  taken_eq := h.taken_eq.trans (Nat.zero_add _).symm
  content := by
    rw [h.content, LawfulSink.content_interrupted hoffer, taken_cons]
    exact congrArg _ (congrArg (List.take · _) (Nat.zero_add _).symm)

theorem refused (hne : bytes ≠ []) (hoffer : Sink.offer s bytes = (.took 0, t)) :
    Pours (offers + 1) s bytes [⟨bytes, .took 0⟩] ⟨0, .refused⟩ t where
  run := pourWithin_refused hne hoffer
  watched earlier := pourWithin_refused hne (offer_watched hoffer earlier)
  dialogue := .refused hne
  taken_eq := rfl
  content := LawfulSink.content_took hoffer

theorem failed (hne : bytes ≠ []) (hoffer : Sink.offer s bytes = (.failed, t)) :
    Pours (offers + 1) s bytes [⟨bytes, .failed⟩] ⟨0, .failed⟩ t where
  run := pourWithin_failed hne hoffer
  watched earlier := pourWithin_failed hne (offer_watched hoffer earlier)
  dialogue := .failed hne
  taken_eq := rfl
  content := by
    rw [LawfulSink.content_failed hoffer]
    exact (List.append_nil _).symm

end Pours

/-- With offers enough, octets are poured. -/
theorem exists_pours (offers : Nat) (s : σ) (bytes : List UInt8)
    (h : bytes.length + Sink.patience s bytes < offers) :
    ∃ calls poured t, Pours offers s bytes calls poured t := by
  -- each offer takes an octet, uses up patience, or is the last, so `offers` never runs out
  induction offers generalizing s bytes with
  | zero => omega
  | succ offers ih =>
    rcases eq_or_ne bytes [] with rfl | hne
    · exact ⟨_, _, _, .nothing⟩
    · rcases hoffer : Sink.offer s bytes with ⟨_ | _ | _, t⟩
      case took n =>
        cases n with
        | zero => exact ⟨_, _, _, .refused hne hoffer⟩
        | succ n =>
          have hle : n + 1 ≤ bytes.length := LawfulSink.took_le hoffer
          have hpatience := LawfulSink.patience_took hoffer
          obtain ⟨calls, poured, u, hrest⟩ := ih t (bytes.drop (n + 1))
            (by rw [List.length_drop]; omega)
          exact ⟨_, _, _, .took hne hoffer hrest⟩
      case interrupted =>
        have hpatience := LawfulSink.patience_interrupted hoffer
        obtain ⟨calls, poured, u, hrest⟩ := ih t bytes (by omega)
        exact ⟨_, _, _, .interrupted hne hoffer hrest⟩
      case failed => exact ⟨_, _, _, .failed hne hoffer⟩

/-- How many offers are allowed makes no difference, as long as they are enough. -/
theorem pourWithin_congr {offers more : Nat} {s : σ} {bytes : List UInt8}
    (h : bytes.length + Sink.patience s bytes < offers)
    (h' : bytes.length + Sink.patience s bytes < more) :
    pourWithin offers s bytes = pourWithin more s bytes := by
  induction offers generalizing more s bytes with
  | zero => omega
  | succ offers ih =>
    obtain ⟨more, rfl⟩ : ∃ m, more = m + 1 := ⟨more - 1, by omega⟩
    rcases eq_or_ne bytes [] with rfl | hne
    · rfl
    · rcases hoffer : Sink.offer s bytes with ⟨_ | _ | _, t⟩
      case took n =>
        cases n with
        | zero => rw [pourWithin_refused hne hoffer, pourWithin_refused hne hoffer]
        | succ n =>
          have hle : n + 1 ≤ bytes.length := LawfulSink.took_le hoffer
          have hpatience := LawfulSink.patience_took hoffer
          have hlength : (bytes.drop (n + 1)).length = bytes.length - (n + 1) := List.length_drop
          rw [pourWithin_took hne hoffer, pourWithin_took hne hoffer,
            @ih more t (bytes.drop (n + 1)) (by omega) (by omega)]
      case interrupted =>
        have hpatience := LawfulSink.patience_interrupted hoffer
        rw [pourWithin_interrupted hne hoffer, pourWithin_interrupted hne hoffer,
          @ih more t bytes (by omega) (by omega)]
      case failed => rw [pourWithin_failed hne hoffer, pourWithin_failed hne hoffer]

/-! ## Writing -/

/-- **A write delivers every octet once, or says how many it delivered.**  Whatever the stream does,
the calls of a write keep to their `Conduct`, and allowing more of them changes nothing.  What was
taken in them is what comes into the stream, a beginning of the octets; the write succeeds if these
are all, and otherwise says how many of how many there are.  The stdio backend writes so, unless the
lock of the stream cannot be taken. -/
theorem deliver_exact (s : σ) (bytes : List UInt8) :
    ∃ calls : List Call,
      deliver (⟨s, []⟩ : Watched σ) bytes = ((deliver s bytes).1, ⟨(deliver s bytes).2, calls⟩) ∧
      Conduct bytes calls ∧ (bytes = [] → calls = []) ∧
      Sink.content (deliver s bytes).2 = Sink.content s ++ bytes.take (taken calls) ∧
      (deliver s bytes).1 = (if taken calls = bytes.length then .ok ()
        else .error (.writeShortfall bytes.length (taken calls))) ∧
      (∀ offers, bytes.length + Sink.patience s bytes < offers →
        pourWithin offers s bytes = pour s bytes) ∧
      ∀ (id : Nat) (stream : Stream), (Backend.stdio id).writeTo stream bytes =
        if stream.poisoned then (.error (.io .poisoned), stream) else deliver stream bytes := by
  have henough : bytes.length + Sink.patience s bytes <
      bytes.length + Sink.patience s bytes + 1 := Nat.lt_succ_self _
  obtain ⟨calls, poured, t, hpours⟩ := exists_pours _ s bytes henough
  have hdeliver : deliver s bytes = (if taken calls = bytes.length then .ok ()
      else .error (.writeShortfall bytes.length (taken calls)), t) := by
    simp only [deliver, pour, hpours.run, hpours.taken_eq]
    split <;> rfl
  have hdeliver' : deliver (⟨s, []⟩ : Watched σ) bytes =
      (if taken calls = bytes.length then .ok ()
        else .error (.writeShortfall bytes.length (taken calls)), ⟨t, calls⟩) := by
    have hpatience : Sink.patience (⟨s, []⟩ : Watched σ) bytes = Sink.patience s bytes := rfl
    simp only [deliver, pour, hpatience, hpours.watched, hpours.taken_eq, List.nil_append]
    split <;> rfl
  refine ⟨calls, ?_, hpours.dialogue.conduct, ?_, ?_, ?_,
    fun offers h => pourWithin_congr h henough,
    fun _ _ => rfl⟩
  · rw [hdeliver', hdeliver]
  · rintro rfl
    cases hpours.dialogue <;> trivial
  · rw [hdeliver, hpours.content]
  · rw [hdeliver]

end

/-- A stream that takes three octets at a time, is full after four, and is interrupted twice first:
five calls bring four octets of ten into it. -/
theorem deliver_exact_throttled :
    let s : Stream := { limit := some 3, capacity := some 4, interrupts := 2 }
    let digits : List UInt8 := [48, 49, 50, 51, 52, 53, 54, 55, 56, 57]
    (deliver (⟨s, []⟩ : Watched Stream) digits).2.calls.map Call.reply =
        [.interrupted, .interrupted, .took 3, .took 1, .took 0] ∧
      (Backend.stdio 0).writeTo s digits = deliver s digits ∧
      (deliver s digits).1 = .error (.writeShortfall 10 4) ∧
      Sink.content (deliver s digits).2 = [48, 49, 50, 51] := by
  intro s digits
  have hreplies : (deliver (⟨s, []⟩ : Watched Stream) digits).2.calls.map Call.reply =
      [.interrupted, .interrupted, .took 3, .took 1, .took 0] := by decide +kernel
  have htaken : taken (deliver (⟨s, []⟩ : Watched Stream) digits).2.calls = 4 := by decide +kernel
  obtain ⟨calls, hwatched, -, -, hcontent, hresult, -, hbackend⟩ := deliver_exact s digits
  rw [hwatched] at htaken
  rw [htaken] at hcontent hresult
  exact ⟨hreplies, (hbackend 0 s).trans (if_neg (by decide)), hresult.trans (if_neg (by decide)),
    hcontent.trans rfl⟩

/-! ## Patience -/

section
variable {σ : Type} {offer : σ → List UInt8 → Reply × σ}

/-- So many interruptions are met when octets are poured. -/
inductive Interruptions (offer : σ → List UInt8 → Reply × σ) : Nat → σ → List UInt8 → Prop where
  | took {k n : Nat} {s t : σ} {bytes : List UInt8} : offer s bytes = (.took (n + 1), t) →
      Interruptions offer k t (bytes.drop (n + 1)) → Interruptions offer k s bytes
  | interrupted {k : Nat} {s t : σ} {bytes : List UInt8} : offer s bytes = (.interrupted, t) →
      Interruptions offer k t bytes → Interruptions offer (k + 1) s bytes
  | refused {s t : σ} {bytes : List UInt8} : offer s bytes = (.took 0, t) →
      Interruptions offer 0 s bytes
  | failed {s t : σ} {bytes : List UInt8} : offer s bytes = (.failed, t) →
      Interruptions offer 0 s bytes

theorem Interruptions.unique {k k' : Nat} {s : σ} {bytes : List UInt8}
    (h : Interruptions offer k s bytes) (h' : Interruptions offer k' s bytes) : k = k' := by
  induction h generalizing k' with
  | took hoffer _ ih =>
    cases h' with
    | took hoffer' hrest =>
      obtain ⟨⟨⟩, rfl⟩ := Prod.mk.inj (hoffer.symm.trans hoffer')
      exact ih hrest
    | interrupted hoffer' | refused hoffer' | failed hoffer' =>
      cases hoffer.symm.trans hoffer'
  | interrupted hoffer _ ih =>
    cases h' with
    | interrupted hoffer' hrest =>
      obtain ⟨-, rfl⟩ := Prod.mk.inj (hoffer.symm.trans hoffer')
      rw [ih hrest]
    | took hoffer' | refused hoffer' | failed hoffer' => cases hoffer.symm.trans hoffer'
  | refused hoffer | failed hoffer =>
    cases h' with
    | took hoffer' | interrupted hoffer' => cases hoffer.symm.trans hoffer'
    | refused | failed => rfl

/-- An answer other than an interruption leaves as many interruptions to come as what is left
meets. -/
theorem exists_interruptions_of_answer {s : σ} {bytes : List UInt8}
    (hanswer : (offer s bytes).1 ≠ .interrupted)
    (hle : ∀ n t, offer s bytes = (.took n, t) → n ≤ bytes.length)
    (hrest : ∀ n t, n < bytes.length → ∃ k, Interruptions offer k t (bytes.drop (n + 1))) :
    ∃ k, Interruptions offer k s bytes := by
  rcases hoffer : offer s bytes with ⟨_ | _ | _, t⟩
  case took n =>
    cases n with
    | zero => exact ⟨0, .refused hoffer⟩
    | succ n =>
      obtain ⟨k, hk⟩ := hrest n t (hle _ t hoffer)
      exact ⟨k, .took hoffer hk⟩
  case interrupted => exact absurd (congrArg Prod.fst hoffer) hanswer
  case failed => exact ⟨0, .failed hoffer⟩

/-- A stream that is not interrupted for ever meets so many interruptions and no more. -/
theorem exists_interruptions
    (hle : ∀ {s t : σ} {bytes : List UInt8} {n : Nat},
      offer s bytes = (.took n, t) → n ≤ bytes.length)
    (hends : ∀ (s : σ) (bytes : List UInt8),
      ∃ n, (offer ((fun t => (offer t bytes).2)^[n] s) bytes).1 ≠ .interrupted)
    (s : σ) (bytes : List UInt8) : ∃ k, Interruptions offer k s bytes := by
  -- on the octets that are left, and then on the interruptions before the next answer
  induction hlength : bytes.length using Nat.strongRecOn generalizing s bytes with
  | _ length ih =>
    have hrest (n : Nat) (t : σ) (hn : n < bytes.length) :
        ∃ k, Interruptions offer k t (bytes.drop (n + 1)) :=
      ih (bytes.length - (n + 1)) (by omega) t (bytes.drop (n + 1)) List.length_drop
    obtain ⟨n, hn⟩ := hends s bytes
    induction n generalizing s with
    | zero => exact exists_interruptions_of_answer hn (fun _ _ => hle) hrest
    | succ n ihn =>
      by_cases hanswer : (offer s bytes).1 = .interrupted
      · obtain ⟨k, hk⟩ := ihn (offer s bytes).2 hn
        exact ⟨k + 1, .interrupted (Prod.ext hanswer rfl) hk⟩
      · exact exists_interruptions_of_answer hanswer (fun _ _ => hle) hrest

/-- **Patience is no restriction.**  A stream that takes no more than it is offered, keeps what it
took, and is not interrupted for ever has a patience with which it is lawful. -/
theorem exists_patience (content : σ → List UInt8)
    (hle : ∀ {s t : σ} {bytes : List UInt8} {n : Nat},
      offer s bytes = (.took n, t) → n ≤ bytes.length)
    (htook : ∀ {s t : σ} {bytes : List UInt8} {n : Nat},
      offer s bytes = (.took n, t) → content t = content s ++ bytes.take n)
    (hinterrupted : ∀ {s t : σ} {bytes : List UInt8},
      offer s bytes = (.interrupted, t) → content t = content s)
    (hfailed : ∀ {s t : σ} {bytes : List UInt8},
      offer s bytes = (.failed, t) → content t = content s)
    (hends : ∀ (s : σ) (bytes : List UInt8),
      ∃ n, (offer ((fun t => (offer t bytes).2)^[n] s) bytes).1 ≠ .interrupted) :
    ∃ patience, @LawfulSink σ { offer, content, patience } := by
  choose patience hpatience using @exists_interruptions σ offer hle hends
  refine ⟨patience, @LawfulSink.mk σ { offer, content, patience } hle htook ?_ hinterrupted ?_
    hfailed⟩
  · intro s t bytes n hoffer
    have hsame := (Interruptions.took hoffer (hpatience t _)).unique (hpatience s bytes)
    exact Nat.le_of_eq hsame
  · intro s t bytes hoffer
    have hone := (Interruptions.interrupted hoffer (hpatience t bytes)).unique (hpatience s bytes)
    exact Nat.lt_of_succ_le (Nat.le_of_eq hone)

end

end Log

end ForeignCall
