import ForeignCall.Log.Logger
import ForeignCall.Log.Registry
import ForeignCall.Run

/-!
# ForeignCall.Log.Bench

A registry with policies, loggers and streams, and runs of steps over them.

Policies and loggers are numbered in the order of their creation.  A policy
that is attached to a logger moves there, and its own number stays empty.
-/

namespace ForeignCall

namespace Log

/-- Everything a run can see. -/
structure Bench where
  registry : Registry := {}
  streams : Streams := #[]
  /-- The policies that are neither dropped nor attached. -/
  policies : Array (Option Policy) := #[]
  loggers : Array Logger := #[]
deriving Inhabited

namespace Bench

/-- What can be asked for. -/
inductive Step where
  | register (factory : Factory)
  | contains (tag : String)
  | registry
  | create (tag : String) (data : Construction)
  | wrap (tag : String) (stream : Nat)
  | write (policy : Nat) (bytes : List UInt8)
  | flush (policy : Nat)
  | destroy (policy : Nat)
  | drop (policy : Nat)
  | policy (policy : Nat)
  | poison (stream : Nat)
  | logger (level : Option Level)
  | attach (logger policy : Nat)
  | setMinLevel (logger : Nat) (level : Level)
  | clear (logger : Nat)
  | log (logger : Nat) (level : Level) (target message : String)
  | flushLogger (logger : Nat)
  | state (logger : Nat)

/-- The answer to a step. -/
inductive Answer where
  | nothing
  | done
  | failed (e : LogError)
  | created (number : Nat)
  | truth (b : Bool)
  | text (s : String)
  | policy (p : Policy)
  | logger (l : Logger)

/-- A write or flush, answered. -/
def Answer.ofResult : Except LogError Unit → Answer
  | .ok () => .done
  | .error e => .failed e

/-- A policy that has a number of its own. -/
def policy? (b : Bench) (n : Nat) : Option Policy :=
  (b.policies[n]?).join

/-- Number a new policy. -/
def enroll (b : Bench) (p : Policy) (streams : Streams) : Answer × Bench :=
  (.created b.policies.size, { b with policies := b.policies.push (some p), streams := streams })

/-- Do something with the streams on behalf of a policy. -/
def onPolicy (b : Bench) (n : Nat) (act : Policy → Streams → Except LogError Unit × Streams) :
    Answer × Bench :=
  match b.policy? n with
  | none => (.nothing, b)
  | some p =>
    let (result, streams) := act p b.streams
    (.ofResult result, { b with streams := streams })

/-- Do something with the streams on behalf of a logger. -/
def onLogger (b : Bench) (n : Nat) (act : Logger → Streams → Except LogError Unit × Streams) :
    Answer × Bench :=
  match b.loggers[n]? with
  | none => (.nothing, b)
  | some l =>
    let (result, streams) := act l b.streams
    (.ofResult result, { b with streams := streams })

/-- One step. -/
def step (b : Bench) : Step → Answer × Bench
  | .register factory => (.nothing, { b with registry := b.registry.register factory })
  | .contains tag => (.truth (b.registry.contains tag), b)
  | .registry => (.text b.registry.describe, b)
  | .create tag data =>
    match b.registry.create tag data b.streams with
    | (.ok p, streams) => b.enroll p streams
    | (.error e, streams) => (.failed e, { b with streams := streams })
  | .wrap tag stream =>
    let (p, streams) := Policy.ofBackend tag (.stdio stream) b.streams
    b.enroll p streams
  | .write n bytes => b.onPolicy n fun p streams => p.write streams bytes
  | .flush n => b.onPolicy n Policy.flush
  | .destroy n =>
    match b.policy? n with
    | none => (.nothing, b)
    | some p =>
      let (p, streams) := p.destroy b.streams
      (.nothing, { b with policies := b.policies.setIfInBounds n (some p), streams := streams })
  | .drop n =>
    match b.policy? n with
    | none => (.nothing, b)
    | some p =>
      (.nothing,
        { b with policies := b.policies.setIfInBounds n none, streams := (p.destroy b.streams).2 })
  | .policy n =>
    match b.policy? n with
    | none => (.nothing, b)
    | some p => (.policy p, b)
  | .poison id =>
    (.nothing, { b with streams := b.streams.modify id fun s => { s with poisoned := true } })
  | .logger level =>
    (.created b.loggers.size,
      { b with loggers := b.loggers.push { minLevel := level.getD .info } })
  | .attach l n =>
    match b.policy? n, b.loggers[l]? with
    | some p, some logger =>
      (.nothing,
        { b with
          policies := b.policies.setIfInBounds n none
          loggers := b.loggers.setIfInBounds l (logger.attach p) })
    | _, _ => (.nothing, b)
  | .setMinLevel l level =>
    (.nothing,
     { b with loggers := b.loggers.modify l fun logger => { logger with minLevel := level } })
  | .clear l =>
    match b.loggers[l]? with
    | none => (.nothing, b)
    | some logger =>
      let (logger, streams) := logger.clear b.streams
      (.nothing, { b with loggers := b.loggers.setIfInBounds l logger, streams := streams })
  | .log l level target message =>
    b.onLogger l fun logger streams => logger.log level target message streams
  | .flushLogger l => b.onLogger l Logger.flush
  | .state l =>
    match b.loggers[l]? with
    | none => (.nothing, b)
    | some logger => (.logger logger, b)

/-- A run of steps: the answer and the streams after each. -/
abbrev run (b : Bench) (steps : List Step) : List (Answer × Streams) :=
  Run.run step (·.streams) b steps

end Bench

end Log

end ForeignCall
