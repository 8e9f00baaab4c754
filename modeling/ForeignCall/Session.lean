import ForeignCall.Engine.Builtin
import ForeignCall.Engine.Stock
import ForeignCall.Host.Scripted
import ForeignCall.Host.Steps
import ForeignCall.Module
import ForeignCall.Run

/-!
# ForeignCall.Session

A module over a scripted host, and runs of steps over both.

Steps reach every layer: the values of the host, the two directions of
marshaling, each bridge operation by itself, the entry points of the module,
and the engine behind them.  What the host is scripted to do concerns the steps
in which a bridge operation or marshaling makes requests of it; a step that
acts on the values of the host directly sees the bare arena.

A value that comes out of marshaling is owned.  It is given up at the end of
its step unless it is to be kept, and kept values are numbered from zero.
-/

namespace ForeignCall

/-- A module at its site, and the values kept so far; `none` for one that was given up. -/
structure Session where
  site : Site Host.Scripted
  kept : Array (Option Value) := #[]

namespace Session

open Arena (Place)

/-- The only log stream of a session. -/
def logStream : Nat := 0

/-- Which registry logging is enabled from. -/
inductive RegistryChoice where
  | defaults
  | empty
  /-- The stdio tag stands for a factory that rejects the stdio backend's data. -/
  | mismatched
deriving DecidableEq, Repr

/-- The registry of a choice. -/
def RegistryChoice.registry : RegistryChoice → Log.Registry
  | .defaults => .withDefaults
  | .empty => {}
  | .mismatched => Log.Registry.register {} (.prefixed Log.stdioTag [])

/-- What can be asked of a session. -/
inductive Step where
  /-- Act on the values of the host. -/
  | onValues (step : Arena.Step)
  /-- Plan a fault of the host. -/
  | plan (fault : Host.Fault)
  /-- Let octets stand for a string of the host. -/
  | setRaw (h : Place) (bytes : List UInt8)
  | toValue (h : Place) (maxNodes : Option UInt64) (keep : Bool)
  | toHost (v : Value) (maxNodes : Option UInt64)
  | keptToHost (number : Nat) (maxNodes : Option UInt64)
  /-- Give up a kept value. -/
  | giveUp (number : Nat)
  /-- Call an entry point. -/
  | call (name : String) (args : List Place)
  | exportNames
  | hasEntry (name : String)
  | limits
  | describeExports
  | invoke (args : List Place) (argc : Option Nat) (maxNodes : Option UInt64)
  | bulkLoad (tag paths : Place)
  | inspect
  | enableLogging (choice : RegistryChoice)
  | attachLog (destroyed : Bool)
  | register (name : String) (function : Engine.Stock)
  | setLoadStatus (status : Int32)
  /-- Call an engine function without the bridge. -/
  | callEngine (name : String) (args : List Value)
  | loads
  | engine

/-- The answer to a step. -/
inductive Answer where
  | nothing
  | done
  | onValues (answer : Arena.Answer)
  | handle (h : Handle)
  /-- A value together with its kind. -/
  | owned (v : Value)
  | value (v : Value)
  | truth (b : Bool)
  | text (s : String)
  | texts (items : List String)
  | limits (limits : Limits)
  | loads (records : List LoadRecord)
  | engine (e : Engine)
  | unconverted (e : ConversionError)
  | unbridged (e : BridgeError)
  | refused (e : EngineError)
  /-- Something broke down. -/
  | brokenDown (detail : Option String)

/-- The answer that an outcome stands for. -/
def Answer.ofOutcome {ε α : Type} (see : ε → Answer) (done : α → Answer) :
    Except (Abort ε) α → Answer
  | .ok a => done a
  | .error (.error e) => see e
  | .error (.panic detail) => .brokenDown detail

/-- The answer of a handle that may be missing. -/
def Answer.ofHandle? : Option Handle → Answer
  | some h => .handle h
  | none => .nothing

/-! ## Parts of a session -/

/-- The values of the host. -/
def arena (s : Session) : Arena :=
  s.site.host.arena

/-- The engine. -/
def engine (s : Session) : Engine :=
  s.site.module.engine

/-- Do something with the values of the host. -/
def onArena {α : Type} (s : Session) (act : Arena → α × Arena) : α × Session :=
  match s with
  | ⟨⟨module, ⟨arena, faults, raw⟩, streams⟩, kept⟩ =>
    let (a, arena) := act arena
    (a, ⟨⟨module, ⟨arena, faults, raw⟩, streams⟩, kept⟩)

/-- Change the script of the host. -/
def onHost (s : Session) (change : Host.Scripted → Host.Scripted) : Session :=
  { s with site := { s.site with host := change s.site.host } }

/-- Change the engine. -/
def onEngine (s : Session) (change : Engine → Engine) : Session :=
  { s with site := { s.site with module := { s.site.module with engine := change s.engine } } }

/-- Run an operation over the host, the engine and the log stream. -/
def perform {α : Type} (s : Session) (operation : Bridge.Operation Host.Scripted α) :
    Except (Abort BridgeError) α × Session :=
  match s with
  | ⟨site, kept⟩ =>
    let (outcome, site) := site.perform operation
    (outcome, ⟨site, kept⟩)

/-- Run an action of the host. -/
def marshal {α : Type} (s : Session) (action : Action Host.Scripted ConversionError α) :
    Except (Abort ConversionError) α × Session :=
  match s with
  | ⟨⟨module, host, streams⟩, kept⟩ =>
    match action host with
    | .ok a host => (.ok a, ⟨⟨module, host, streams⟩, kept⟩)
    | .error abort host => (.error abort, ⟨⟨module, host, streams⟩, kept⟩)

/-- Bounds of which only the number of nodes may be given. -/
def boundedBy (maxNodes : Option UInt64) (otherwise : Limits) : Limits :=
  match maxNodes with
  | some most => { maxNodes := most }
  | none => otherwise

/-- Enter a value. -/
def acquireValue (s : Session) : Session :=
  s.onEngine fun e => { e with ledger := e.ledger.acquire .value }

/-- Enter the end of a value. -/
def releaseValue (s : Session) : Session :=
  s.onEngine fun e => { e with ledger := e.ledger.release .value }

/-- A kept value that is still there. -/
def kept? (s : Session) (number : Nat) : Option Value :=
  (s.kept[number]?).join

/-! ## Steps that take several moves -/

/-- Convert a host value, and keep the result or give it up. -/
def toValue (s : Session) (h : Place) (limits : Limits) (keep : Bool) : Answer × Session :=
  match s.marshal (Marshal.toValue limits (h.handle s.arena)) with
  | (.ok v, s) =>
    let s := s.acquireValue
    (.owned v, if keep then { s with kept := s.kept.push (some v) } else s.releaseValue)
  | (outcome, s) => (.ofOutcome .unconverted .owned outcome, s)

/-- Convert a value. -/
def toHost (s : Session) (v : Value) (limits : Limits) : Answer × Session :=
  let (outcome, s) := s.marshal (Marshal.toHost limits v)
  (.ofOutcome .unconverted .handle outcome, s)

/-- A policy over the log stream, destroyed already if asked for, is offered to the engine. -/
def attachLog (destroyed : Bool) (e : Engine) (streams : Log.Streams) :
    Except EngineError Unit × Engine × Log.Streams :=
  let (policy, streams) := Log.Policy.ofBackend Log.stdioTag (.stdio logStream) streams
  if destroyed then
    let (policy, streams) := policy.destroy streams
    e.attachLog policy streams
  else e.attachLog policy streams

/-- Call an engine function: the arguments are held until it is done, and then a value it answers
with is given up too. -/
def callEngine (name : String) (args : List Value) :
    Bridge.Operation Host.Scripted (Option Value) :=
  args.foldr (fun _ body => Bridge.Operation.holding .value body) do
    match ← Bridge.dispatch name args with
    | some v => some <$> Bridge.Operation.borrowing .value (pure v)
    | none => return none

/-! ## Steps -/

/-- One step. -/
def step [Memory] (s : Session) : Step → Answer × Session
  | .onValues step =>
    let (answer, s) := s.onArena fun arena => arena.step step
    (.onValues answer, s)
  | .plan fault => (.nothing, s.onHost (·.plan fault))
  | .setRaw h bytes => (.nothing, s.onHost (·.setRaw (h.handle s.arena) bytes))
  | .toValue h maxNodes keep => s.toValue h (boundedBy maxNodes {}) keep
  | .toHost v maxNodes =>
    let (answer, s) := s.acquireValue.toHost v (boundedBy maxNodes {})
    (answer, s.releaseValue)
  | .keptToHost number maxNodes =>
    match s.kept? number with
    | some v => s.toHost v (boundedBy maxNodes {})
    | none => (.nothing, s)
  | .giveUp number =>
    match s.kept? number with
    | some v =>
      (.value v, { s with kept := s.kept.setIfInBounds number none }.releaseValue)
    | none => (.nothing, s)
  | .call name args =>
    let (h, site) := s.site.call name (args.map (·.handle s.arena))
    (.ofHandle? h, { s with site })
  | .exportNames => (.texts (s.site.module.exports.map Export.name), s)
  | .hasEntry name => (.truth (s.site.module.entry? name).isSome, s)
  | .limits => (.limits s.site.module.config.limits, s)
  | .describeExports => (.text (Quoted.list (s.site.module.exports.map Export.describe)), s)
  | .invoke args argc maxNodes =>
    let handles := args.map (·.handle s.arena)
    let limits := boundedBy maxNodes s.site.module.config.limits
    let (outcome, s) := s.perform (Bridge.invoke limits ⟨argc.getD handles.length, handles⟩)
    (.ofOutcome .unbridged .ofHandle? outcome, s)
  | .bulkLoad tag paths =>
    let (outcome, s) := s.perform
      (Bridge.bulkLoad s.site.module.config.limits (tag.handle s.arena) (paths.handle s.arena))
    (.ofOutcome .unbridged (fun _ => .done) outcome, s)
  | .inspect =>
    let (outcome, s) := s.perform Bridge.inspect
    (.ofOutcome .unbridged .handle outcome, s)
  | .enableLogging choice =>
    let (outcome, s) := s.perform (Bridge.enableLogging choice.registry logStream)
    (.ofOutcome .unbridged (fun _ => .done) outcome, s)
  | .attachLog destroyed =>
    let (outcome, s) := s.perform (Bridge.Operation.onEngine (attachLog destroyed))
    (.ofOutcome .unbridged
      (fun | .ok () => .done | .error e => .refused e) outcome, s)
  | .register name function => (.nothing, s.onEngine (·.register name function.behaviour))
  | .setLoadStatus status => (.nothing, s.onEngine fun e => { e with loadStatus := status })
  | .callEngine name args =>
    let (outcome, s) := s.perform (callEngine name args)
    let answer := match outcome with
      | .ok (some v) => .value v
      | .ok none => .nothing
      | .error (.error (.callFailure (.engine e))) => .refused e
      | .error (.error e) => .unbridged e
      | .error (.panic detail) => .brokenDown detail
    (answer, s)
  | .loads => (.loads s.engine.loads, s)
  | .engine => (.engine s.engine, s)

/-! ## Runs -/

/-- What is seen after a step. -/
structure Report where
  answer : Answer
  /-- The values the host did not have before the step. -/
  created : List HostValue
  /-- How many values the host has. -/
  size : Nat
  /-- The errors raised in the host and not taken yet. -/
  errors : List String
  ledger : Ledger
  /-- The octets the log stream took during the step. -/
  logged : List UInt8

/-- The octets the log stream has taken. -/
def logSize (s : Session) : Nat :=
  ((s.site.streams[logStream]?).map (·.content.size)).getD 0

/-- What the log stream took after the first `start` octets. -/
def loggedFrom (s : Session) (start : Nat) : List UInt8 :=
  match s.site.streams[logStream]? with
  | some stream => (stream.content.extract start stream.content.size).toList
  | none => []

/-- Take a step and report. -/
def report [Memory] (s : Session) (step : Step) : Report × Session :=
  let size := s.arena.slots.size
  let logged := s.logSize
  let (answer, s) := s.step step
  let arena := s.arena
  ({ answer
     created := (arena.slots.extract size arena.slots.size).toList
     size := arena.slots.size
     errors := arena.errors
     ledger := s.engine.ledger
     logged := s.loggedFrom logged }, s)

/-- The reports of a run of steps. -/
abbrev run [Memory] (s : Session) (steps : List Step) : List Report :=
  Run.answers report s steps

/-- A session with a started engine. -/
def start (engine : Engine) (config : Config) (stream : Log.Stream) :
    Except BridgeError Session := do
  let module ← Module.start engine config logStream
  return { site := ⟨module, {}, #[stream]⟩ }

end Session

end ForeignCall
