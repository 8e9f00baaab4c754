import ForeignCall.Log.Sink

/-!
# ForeignCall.Log.Stream

A stream that plays a given part: how many octets it takes at once and in all,
how often it is interrupted, which of its writes fails, and whether flushing
fails.

Streams are shared: a table holds them, and backends name them by their place.
`holders` counts the backends that hold a stream.
-/

namespace ForeignCall

namespace Log

/-- A stream and its part. -/
structure Stream where
  /-- The octets taken so far. -/
  content : Array UInt8 := #[]
  /-- Most octets taken by one write. -/
  limit : Option Nat := none
  /-- Most octets taken in all. -/
  capacity : Option Nat := none
  /-- Interruptions still to come, before the next write. -/
  interrupts : Nat := 0
  /-- The write that fails, counted from one; an interruption is no write. -/
  failAt : Option Nat := none
  /-- What flushing fails with. -/
  flushError : Option String := none
  /-- Writes so far. -/
  writes : Nat := 0
  /-- Successful flushes so far. -/
  flushes : Nat := 0
  /-- A holder of the lock broke down; the lock cannot be taken any more. -/
  poisoned : Bool := false
  /-- Backends that hold the stream. -/
  holders : Nat := 0
deriving Inhabited

namespace Stream

/-- The least of a number and a bound that may be missing. -/
def atMost (bound : Option Nat) (n : Nat) : Nat :=
  match bound with
  | some b => min b n
  | none => n

/-- How many of `count` octets the next write takes. -/
def accepts (s : Stream) (count : Nat) : Nat :=
  atMost (s.capacity.map (· - s.content.size)) (atMost s.limit count)

/-- One write. -/
def offer (s : Stream) (bytes : List UInt8) : Reply × Stream :=
  if 0 < s.interrupts then (.interrupted, { s with interrupts := s.interrupts - 1 })
  else
    let written := { s with writes := s.writes + 1 }
    if s.failAt = some (s.writes + 1) then (.failed, written)
    else
      let n := s.accepts bytes.length
      (.took n, { written with content := s.content ++ (bytes.take n).toArray })

instance : Sink Stream where
  offer := offer
  content s := s.content.toList
  patience s _ := s.interrupts

/-- A flush; the error text if it fails. -/
def flush (s : Stream) : Option String × Stream :=
  match s.flushError with
  | some text => (some text, s)
  | none => (none, { s with flushes := s.flushes + 1 })

/-! ## The part is played faithfully -/

theorem accepts_le (s : Stream) (count : Nat) : s.accepts count ≤ count := by
  unfold accepts atMost
  split <;> split <;> omega

instance : LawfulSink Stream where
  took_le {s s' bytes n} h := by
    simp only [Sink.offer, offer] at h
    split at h
    · simp at h
    · split at h
      · simp at h
      · simp only [Prod.mk.injEq, Reply.took.injEq] at h
        exact h.1 ▸ accepts_le s bytes.length
  content_took {s s' bytes n} h := by
    simp only [Sink.offer, offer] at h
    split at h
    · simp at h
    · split at h
      · simp at h
      · simp only [Prod.mk.injEq, Reply.took.injEq] at h
        obtain ⟨rfl, rfl⟩ := h
        simp [Sink.content]
  patience_took {s s' bytes n} h := by
    simp only [Sink.offer, offer] at h
    split at h
    · simp at h
    · split at h
      · simp at h
      · simp only [Prod.mk.injEq, Reply.took.injEq] at h
        obtain ⟨_, rfl⟩ := h
        exact Nat.le_refl _
  content_interrupted {s s' bytes} h := by
    simp only [Sink.offer, offer] at h
    split at h
    · simp only [Prod.mk.injEq, true_and] at h
      subst h
      rfl
    · split at h <;> simp at h
  patience_interrupted {s s' bytes} h := by
    simp only [Sink.offer, offer] at h
    split at h
    · next pos =>
      simp only [Prod.mk.injEq, true_and] at h
      subst h
      exact Nat.sub_lt pos (by decide)
    · split at h <;> simp at h
  content_failed {s s' bytes} h := by
    simp only [Sink.offer, offer] at h
    split at h
    · simp at h
    · split at h
      · simp only [Prod.mk.injEq, true_and] at h
        subst h
        rfl
      · simp at h

end Stream

/-- The shared streams. -/
abbrev Streams := Array Stream

namespace Streams

/-- Do something with one of the streams. -/
def withStream {α : Type} (streams : Streams) (id : Nat) (f : Stream → α × Stream) :
    α × Streams :=
  let (a, s) := f (streams.getD id {})
  (a, streams.setIfInBounds id s)

/-- One more backend holds a stream. -/
def hold (streams : Streams) (id : Nat) : Streams :=
  streams.modify id fun s => { s with holders := s.holders + 1 }

/-- One backend less holds a stream. -/
def letGo (streams : Streams) (id : Nat) : Streams :=
  streams.modify id fun s => { s with holders := s.holders - 1 }

end Streams

end Log

end ForeignCall
