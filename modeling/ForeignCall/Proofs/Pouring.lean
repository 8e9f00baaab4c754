import ForeignCall.Log.Logger
import Mathlib.Tactic.SplitIfs

/-!
# ForeignCall.Proofs.Pouring

What becomes of streams that are written to, flushed, held and let go.

What a single offer does to a stream, pouring does over and over, so a relation
that every offer keeps is kept by pouring (`pourWithin_induction`), by every
write and flush of a policy, and by a logger that attempts all its policies.

* `Stream.Gains` — a stream keeps what is in it and who holds it, and may gain
  octets at the end: so it is with every write and flush;
* `Stream.Accepting` — a stream that takes some of whatever it is offered: what
  is written to it arrives in full, once for each policy over it;
* `Stream.heldBy` — holding a stream and letting it go changes nothing else.
-/

namespace ForeignCall

namespace Log

/-! ## Pouring -/

/-- What every offer does, pouring does. -/
theorem pourWithin_induction {σ : Type} [Sink σ] {R : σ → σ → Prop} (refl : ∀ s, R s s)
    (trans : ∀ {s t u}, R s t → R t u → R s u) (offer : ∀ s bytes, R s (Sink.offer s bytes).2)
    (offers : Nat) (s : σ) (bytes : List UInt8) : R s (pourWithin offers s bytes).2 := by
  fun_induction pourWithin offers s bytes with
  | case1 | case2 => exact refl _
  | case3 offers s byte rest s' hoffer => simpa [hoffer] using offer s (byte :: rest)
  | case4 offers s byte rest n s' hoffer poured s'' hpour ih =>
    have hfirst := offer s (byte :: rest)
    rw [hoffer] at hfirst
    rw [hpour] at ih
    exact trans hfirst ih
  | case5 offers s byte rest s' hoffer ih =>
    have hfirst := offer s (byte :: rest)
    rw [hoffer] at hfirst
    exact trans hfirst ih
  | case6 offers s byte rest s' hoffer => simpa [hoffer] using offer s (byte :: rest)

namespace Stream

/-! ## What a stream gains -/

/-- A stream later: it has what it had and is held by as many backends, and new octets came behind
the old ones. -/
structure Gains (s t : Stream) : Prop where
  holders : t.holders = s.holders
  content : s.content.toList <+: t.content.toList

theorem Gains.refl (s : Stream) : s.Gains s := ⟨rfl, List.prefix_rfl⟩

theorem Gains.trans {s t u : Stream} (hst : s.Gains t) (htu : t.Gains u) : s.Gains u :=
  ⟨htu.holders.trans hst.holders, hst.content.trans htu.content⟩

theorem gains_offer (s : Stream) (bytes : List UInt8) : s.Gains (s.offer bytes).2 := by
  unfold offer
  split
  · exact ⟨rfl, List.prefix_rfl⟩
  · dsimp only
    split
    · exact ⟨rfl, List.prefix_rfl⟩
    · exact ⟨rfl, bytes.take (s.accepts bytes.length), by simp⟩

theorem gains_pour (s : Stream) (bytes : List UInt8) : s.Gains (pour s bytes).2 :=
  pourWithin_induction Gains.refl Gains.trans gains_offer _ s bytes

theorem gains_flush (s : Stream) : s.Gains s.flush.2 := by
  unfold flush
  split <;> exact ⟨rfl, List.prefix_rfl⟩

/-! ## Streams that accept everything -/

/-- A stream that takes at least one of the octets it is offered, unless it is interrupted. -/
structure Accepting (s : Stream) : Prop where
  limit : s.limit ≠ some 0
  capacity : s.capacity = none
  failAt : s.failAt = none
  unpoisoned : s.poisoned = false

theorem Accepting.accepts_pos {s : Stream} (h : s.Accepting) {count : Nat} (hcount : 0 < count) :
    0 < s.accepts count := by
  have hlimit := h.limit
  unfold accepts atMost
  rw [h.capacity]
  cases hs : s.limit with
  | none => exact hcount
  | some most =>
    have hmost : most ≠ 0 := fun hzero => hlimit (by rw [hs, hzero])
    simp only [Option.map_none]
    omega

/-- All octets arrive, however often the stream is interrupted on the way. -/
theorem Accepting.pourWithin {s : Stream} (h : s.Accepting) {offers : Nat} {bytes : List UInt8}
    (hoffers : bytes.length + s.interrupts < offers) :
    ∃ t, pourWithin offers s bytes = (⟨bytes.length, .finished⟩, t) ∧ t.Accepting ∧
      t.content.toList = s.content.toList ++ bytes := by
  induction offers generalizing s bytes with
  | zero => omega
  | succ offers ih =>
    cases bytes with
    | nil => exact ⟨s, rfl, h, by simp⟩
    | cons byte rest =>
      by_cases hinterrupts : 0 < s.interrupts
      · have hoffer : Sink.offer s (byte :: rest) =
            (.interrupted, { s with interrupts := s.interrupts - 1 }) := if_pos hinterrupts
        have hstill : Accepting { s with interrupts := s.interrupts - 1 } :=
          ⟨h.limit, h.capacity, h.failAt, h.unpoisoned⟩
        have hfewer : (byte :: rest).length + (s.interrupts - 1) < offers := by omega
        obtain ⟨t, hpour, haccepting, hcontent⟩ := ih hstill hfewer
        exact ⟨t, by simp only [Log.pourWithin, hoffer, hpour], haccepting, hcontent⟩
      · obtain ⟨n, hn⟩ : ∃ n, s.accepts (byte :: rest).length = n + 1 :=
          Nat.exists_eq_add_one.mpr (h.accepts_pos (Nat.succ_pos _))
        have hle := s.accepts_le (byte :: rest).length
        rw [hn] at hle
        let written : Stream := { s with
          writes := s.writes + 1
          content := s.content ++ ((byte :: rest).take (n + 1)).toArray }
        have hoffer : Sink.offer s (byte :: rest) = (.took (n + 1), written) := by
          simp only [Sink.offer, offer, if_neg hinterrupts, h.failAt, reduceCtorEq, if_false, hn,
            written]
        have hstill : written.Accepting := ⟨h.limit, h.capacity, h.failAt, h.unpoisoned⟩
        have hfewer : ((byte :: rest).drop (n + 1)).length + s.interrupts < offers := by
          simp only [List.length_drop]
          omega
        obtain ⟨t, hpour, haccepting, hcontent⟩ := ih hstill hfewer
        refine ⟨t, ?_, haccepting, ?_⟩
        · simp only [Log.pourWithin, hoffer, hpour, List.length_drop]
          rw [Nat.add_sub_cancel' hle]
        · have hsplit := List.take_append_drop (n + 1) (byte :: rest)
          simp only [hcontent, written, Array.toList_append, List.append_assoc]
          rw [hsplit]

/-- A stdio backend over such a stream writes all octets. -/
theorem Accepting.writeTo {s : Stream} (h : s.Accepting) (id : Nat) (bytes : List UInt8) :
    ∃ t, (Backend.stdio id).writeTo s bytes = (.ok (), t) ∧ t.Accepting ∧
      t.content.toList = s.content.toList ++ bytes := by
  obtain ⟨t, hpour, haccepting, hcontent⟩ :=
    h.pourWithin (Nat.lt_succ_self (bytes.length + s.interrupts))
  have hpoured : pour s bytes = (⟨bytes.length, .finished⟩, t) := hpour
  refine ⟨t, ?_, haccepting, hcontent⟩
  simp only [Backend.writeTo, Backend.deliver, h.unpoisoned, hpoured, if_true, reduceCtorEq,
    if_false]

end Stream

/-! ## Backends -/

namespace Backend

theorem gains_pourAll (s : Stream) (bytes : List UInt8) : s.Gains (pourAll s bytes).2 := by
  have hpour := s.gains_pour bytes
  unfold pourAll
  dsimp only
  split <;> exact hpour

theorem gains_deliver (s : Stream) (bytes : List UInt8) : s.Gains (deliver s bytes).2 := by
  have hpour := s.gains_pour bytes
  unfold deliver
  dsimp only
  split <;> exact hpour

theorem gains_writeTo (backend : Backend) (s : Stream) (bytes : List UInt8) :
    s.Gains (backend.writeTo s bytes).2 := by
  cases backend with
  | stdio id =>
    unfold writeTo
    dsimp only
    split
    · exact .refl s
    · exact gains_deliver s bytes
  | prefixed id lead =>
    have hlead := gains_pourAll s lead
    unfold writeTo
    dsimp only
    generalize pourAll s lead = written at hlead
    obtain ⟨first, t⟩ := written
    cases first with
    | ok => exact hlead.trans (gains_pourAll t bytes)
    | error e => exact hlead

theorem gains_flushTo (backend : Backend) (s : Stream) : s.Gains (backend.flushTo s).2 := by
  have hflush := s.gains_flush
  simp only [flushTo]
  generalize s.flush = flushed at hflush
  split_ifs
  · exact .refl s
  · obtain ⟨_ | text, t⟩ := flushed
    · exact hflush
    · exact hflush

end Backend

/-! ## The table of streams -/

namespace Streams

theorem getElem?_withStream {α : Type} (streams : Streams) (id : Nat) (f : Stream → α × Stream)
    (i : Nat) : (streams.withStream id f).2[i]? =
      if id = i then streams[i]?.map fun s => (f s).2 else streams[i]? := by
  simp only [withStream, Array.getElem?_setIfInBounds, Array.getD_eq_getD_getElem?]
  by_cases hi : id = i
  · subst hi
    rw [if_pos rfl, if_pos rfl]
    by_cases hid : id < streams.size
    · simp [hid]
    · simp [hid]
  · rw [if_neg hi, if_neg hi]

/-- No stream loses anything or changes its holders. -/
structure Gains (streams later : Streams) : Prop where
  size : later.size = streams.size
  each : ∀ (id : Nat) (s : Stream), streams[id]? = some s → ∃ t, later[id]? = some t ∧ s.Gains t

theorem Gains.refl (streams : Streams) : streams.Gains streams :=
  ⟨rfl, fun _ s h => ⟨s, h, .refl s⟩⟩

theorem Gains.trans {streams later last : Streams} (h : streams.Gains later)
    (h' : later.Gains last) : streams.Gains last := by
  refine ⟨h'.size.trans h.size, fun id s hs => ?_⟩
  obtain ⟨t, ht, hst⟩ := h.each id s hs
  obtain ⟨u, hu, htu⟩ := h'.each id t ht
  exact ⟨u, hu, hst.trans htu⟩

/-- A stream of the later table is what a stream of the earlier one has become. -/
theorem Gains.before {streams later : Streams} (h : streams.Gains later) {id : Nat} {t : Stream}
    (ht : later[id]? = some t) : ∃ s, streams[id]? = some s ∧ s.Gains t := by
  obtain ⟨hid, -⟩ := Array.getElem?_eq_some_iff.mp ht
  have hs := Array.getElem?_eq_getElem (h.size ▸ hid)
  obtain ⟨t', ht', hgains⟩ := h.each id _ hs
  obtain rfl : t' = t := Option.some.inj (ht'.symm.trans ht)
  exact ⟨_, hs, hgains⟩

theorem gains_withStream {α : Type} (streams : Streams) (id : Nat) {f : Stream → α × Stream}
    (h : ∀ s : Stream, s.Gains (f s).2) : Streams.Gains streams (streams.withStream id f).2 := by
  refine ⟨Array.size_setIfInBounds, fun i s hs => ?_⟩
  rw [getElem?_withStream]
  split
  · exact ⟨(f s).2, by rw [hs]; rfl, h s⟩
  · exact ⟨s, hs, .refl s⟩

end Streams

/-! ## Policies and loggers -/

theorem Policy.gains_write (p : Policy) (streams : Streams) (bytes : List UInt8) :
    streams.Gains (p.write streams bytes).2 := by
  unfold Policy.write
  cases p.backend with
  | none => exact .refl streams
  | some backend => exact Streams.gains_withStream _ _ fun s => backend.gains_writeTo s bytes

theorem Policy.gains_flush (p : Policy) (streams : Streams) :
    streams.Gains (p.flush streams).2 := by
  unfold Policy.flush
  cases p.backend with
  | none => exact .refl streams
  | some backend => exact Streams.gains_withStream _ _ backend.gains_flushTo

namespace Logger

/-- The streams after an attempt are those after the attempts, one by one. -/
theorem attempt_cons (act : Policy → Streams → Except LogError Unit × Streams) (p : Policy)
    (rest : List Policy) (streams : Streams) :
    (attempt act (p :: rest) streams).2 = (attempt act rest (act p streams).2).2 := by
  rw [attempt]
  dsimp only
  split <;> rfl

theorem gains_attempt {act : Policy → Streams → Except LogError Unit × Streams}
    (h : ∀ p streams, Streams.Gains streams (act p streams).2) (policies : List Policy)
    (streams : Streams) : streams.Gains (attempt act policies streams).2 := by
  induction policies generalizing streams with
  | nil => exact .refl streams
  | cons p rest ih =>
    rw [attempt_cons]
    exact (h p streams).trans (ih _)

theorem gains_log (logger : Logger) (level : Level) (target message : String)
    (streams : Streams) : streams.Gains (logger.log level target message streams).2 := by
  unfold log
  split
  · exact .refl streams
  · exact gains_attempt (fun p streams => p.gains_write streams _) _ _

theorem gains_flush (logger : Logger) (streams : Streams) :
    streams.Gains (logger.flush streams).2 :=
  gains_attempt Policy.gains_flush _ _

/-- Octets that go to several policies over one accepting stream arrive once for each. -/
theorem attempt_accepting (tag : String) (bytes : List UInt8) {id : Nat} (count : Nat)
    {streams : Streams} {s : Stream} (hs : streams[id]? = some s) (h : s.Accepting) :
    ∃ t, (attempt (fun p streams => p.write streams bytes)
        (List.replicate count ⟨tag, some (.stdio id)⟩) streams).2[id]? = some t ∧ t.Accepting ∧
      t.content.toList = s.content.toList ++ (List.replicate count bytes).flatten := by
  induction count generalizing streams s with
  | zero => exact ⟨s, hs, h, by simp⟩
  | succ count ih =>
    obtain ⟨t, hwrite, haccepting, hcontent⟩ := h.writeTo id bytes
    have ht : ((⟨tag, some (.stdio id)⟩ : Policy).write streams bytes).2[id]? = some t := by
      have hget := streams.getElem?_withStream id
        (fun s => (Backend.stdio id).writeTo s bytes) id
      rw [if_pos rfl, hs, Option.map_some, hwrite] at hget
      exact hget
    obtain ⟨u, hu, haccepting', hcontent'⟩ := ih ht haccepting
    refine ⟨u, ?_, haccepting', ?_⟩
    · rw [List.replicate_succ, attempt_cons]
      exact hu
    · rw [hcontent', hcontent, List.replicate_succ, List.flatten_cons, List.append_assoc]

end Logger

/-! ## Holding and letting go -/

/-- A stream that differs in nothing but its holders. -/
def Stream.heldBy (s : Stream) (holders : Nat) : Stream :=
  { s with holders }

theorem Stream.heldBy_holders (s : Stream) : s.heldBy s.holders = s := rfl

theorem Stream.Accepting.heldBy {s : Stream} (h : s.Accepting) (holders : Nat) :
    (s.heldBy holders).Accepting :=
  ⟨h.limit, h.capacity, h.failAt, h.unpoisoned⟩

/-- Whether a policy holds a stream. -/
def Policy.holds (p : Policy) (id : Nat) : Bool :=
  p.backend.map Backend.stream == some id

namespace Streams

theorem getElem?_hold (streams : Streams) (i id : Nat) :
    (streams.hold i)[id]? =
      streams[id]?.map fun s => s.heldBy (s.holders + (i == id).toNat) := by
  rw [hold, Array.getElem?_modify]
  by_cases hi : i = id
  · simp [hi, Stream.heldBy]
  · simp [hi, beq_false_of_ne hi, Stream.heldBy_holders]

/-- A policy that is destroyed lets go of its stream; nothing else happens to any stream. -/
theorem getElem?_destroy (p : Policy) (streams : Streams) (id : Nat) :
    (p.destroy streams).2[id]? =
      streams[id]?.map fun s => s.heldBy (s.holders - (p.holds id).toNat) := by
  unfold Policy.destroy Policy.holds
  cases p.backend with
  | none => simp [Stream.heldBy_holders]
  | some backend =>
    simp only [letGo, Array.getElem?_modify]
    by_cases hi : backend.stream = id
    · simp [hi, Stream.heldBy]
    · simp [hi, beq_false_of_ne hi, Stream.heldBy_holders]

/-- A logger that is cleared lets go of all its streams; nothing else happens to any stream. -/
theorem getElem?_clear (logger : Logger) (streams : Streams) (id : Nat) :
    (logger.clear streams).2[id]? = streams[id]?.map fun s =>
      s.heldBy (s.holders - logger.policies.countP (·.holds id)) := by
  simp only [Logger.clear]
  induction logger.policies generalizing streams with
  | nil => simp [Stream.heldBy_holders]
  | cons p rest ih =>
    rw [List.foldl_cons, ih, getElem?_destroy, Option.map_map, List.countP_cons]
    congr 1
    funext s
    cases p.holds id <;> simp [Stream.heldBy, Nat.sub_sub, Nat.add_comm]

end Streams

end Log

end ForeignCall
