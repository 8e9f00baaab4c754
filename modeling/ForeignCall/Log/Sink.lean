/-!
# ForeignCall.Log.Sink

Streams that take octets a few at a time, and writing to them.

A stream is offered octets and says how many it took, that it was interrupted,
or that it failed.  `pour` offers what is left until nothing is left: an
interruption is tried again, while a stream that takes nothing or fails is not
offered anything any more.  A stream has finite `patience` with the octets that
are poured: each interruption uses some of it up, so that pouring ends.
-/

namespace ForeignCall

namespace Log

/-- What a stream says to an offer. -/
inductive Reply where
  /-- So many of the octets, from the first on, are now in the stream. -/
  | took (count : Nat)
  /-- Nothing was taken; trying again may help. -/
  | interrupted
  /-- Nothing was taken. -/
  | failed
deriving DecidableEq, Repr

/-- Streams. -/
class Sink (σ : Type) where
  /-- Offer octets, of which there is at least one. -/
  offer : σ → List UInt8 → Reply × σ
  /-- The octets in the stream. -/
  content : σ → List UInt8
  /-- A bound on the interruptions still to come while octets are poured. -/
  patience : σ → List UInt8 → Nat

/-- Streams that keep what they took, and lose patience. -/
class LawfulSink (σ : Type) [Sink σ] : Prop where
  took_le {s s' : σ} {bytes : List UInt8} {n : Nat} :
    Sink.offer s bytes = (.took n, s') → n ≤ bytes.length
  content_took {s s' : σ} {bytes : List UInt8} {n : Nat} :
    Sink.offer s bytes = (.took n, s') →
      Sink.content s' = Sink.content s ++ bytes.take n
  patience_took {s s' : σ} {bytes : List UInt8} {n : Nat} :
    Sink.offer s bytes = (.took (n + 1), s') →
      Sink.patience s' (bytes.drop (n + 1)) ≤ Sink.patience s bytes
  content_interrupted {s s' : σ} {bytes : List UInt8} :
    Sink.offer s bytes = (.interrupted, s') → Sink.content s' = Sink.content s
  patience_interrupted {s s' : σ} {bytes : List UInt8} :
    Sink.offer s bytes = (.interrupted, s') → Sink.patience s' bytes < Sink.patience s bytes
  content_failed {s s' : σ} {bytes : List UInt8} :
    Sink.offer s bytes = (.failed, s') → Sink.content s' = Sink.content s

/-- Why pouring ended. -/
inductive Stop where
  /-- Nothing is left. -/
  | finished
  /-- The stream took nothing. -/
  | refused
  /-- The stream failed. -/
  | failed
deriving DecidableEq, Repr

/-- How many octets went into a stream, and why no more did. -/
structure Poured where
  taken : Nat
  stop : Stop
deriving DecidableEq, Repr

/-- Pour with at most `offers` offers. -/
def pourWithin {σ : Type} [Sink σ] : Nat → σ → List UInt8 → Poured × σ
  | _, s, [] => (⟨0, .finished⟩, s)
  | 0, s, _ :: _ => (⟨0, .refused⟩, s)
  | offers + 1, s, byte :: rest =>
    match Sink.offer s (byte :: rest) with
    | (.took 0, s) => (⟨0, .refused⟩, s)
    | (.took (n + 1), s) =>
      let (poured, s) := pourWithin offers s ((byte :: rest).drop (n + 1))
      (⟨n + 1 + poured.taken, poured.stop⟩, s)
    | (.interrupted, s) => pourWithin offers s (byte :: rest)
    | (.failed, s) => (⟨0, .failed⟩, s)

/-- Offer octets until the stream has them all or stops taking them.  Each offer takes an octet,
uses up patience, or is the last. -/
def pour {σ : Type} [Sink σ] (s : σ) (bytes : List UInt8) : Poured × σ :=
  pourWithin (bytes.length + Sink.patience s bytes + 1) s bytes

end Log

end ForeignCall
