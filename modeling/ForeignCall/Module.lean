import ForeignCall.Bridge.Inspect
import ForeignCall.Bridge.Load
import ForeignCall.Bridge.Logging
import ForeignCall.Config

/-!
# ForeignCall.Module

A started engine with its entry points.

The table of exports is fixed when the module starts.  `call` is how the host
calls an entry point: an error is raised in the host, once, and there is no
value then; a breakdown inside ends at this boundary and is raised in the same
way.
-/

namespace ForeignCall

/-- An entry point. -/
inductive Export where
  | invoke
  | bulkLoad
  | inspect
  | enableLogging
deriving DecidableEq, Repr

namespace Export

/-- The name of an entry point. -/
def name : Export → String
  | .invoke => "invoke"
  | .bulkLoad => "bulk_load"
  | .inspect => "inspect"
  | .enableLogging => "enable_logging"

/-- The entry points, in the order of the table. -/
def all : List Export :=
  [.invoke, .bulkLoad, .inspect, .enableLogging]

/-- An entry point, written out. -/
def describe (e : Export) : String :=
  "Export \x7b name: " ++ Quoted.text e.name ++ " \x7d"

end Export

/-- A started engine, its configuration and its entry points. -/
structure Module where
  engine : Engine
  config : Config
  registry : Log.Registry
  /-- The stream that logging goes to. -/
  logStream : Nat
  exports : List Export

namespace Module

open Bridge

/-- Start an engine.  If it does not start there is no module. -/
def start (engine : Engine) (config : Config) (logStream : Nat) : Except BridgeError Module :=
  match engine.start with
  | .ok engine =>
    .ok { engine, config, registry := .withDefaults, logStream, exports := Export.all }
  | .error e => .error (.callFailure (.startup e))

/-- The entry point of a name. -/
def entry? (m : Module) (name : String) : Option Export :=
  m.exports.find? (·.name = name)

variable [Memory] {σ : Type} [HostRuntime σ]

/-- Run an entry point. -/
def run (m : Module) (args : List Handle) : Export → Operation σ (Option Handle)
  | .invoke => invoke m.config.limits (.ofList args)
  | .bulkLoad =>
    match args with
    | tag :: paths :: _ => do
      bulkLoad m.config.limits tag paths
      return none
    | _ => Action.fail .arity
  | .inspect => some <$> inspect
  | .enableLogging => do
    enableLogging m.registry m.logStream
    return none

/-- What is raised when an operation ends early. -/
def abortMessage : Abort BridgeError → String
  | .error e => e.message
  | .panic detail => (BridgeError.callFailure (.panic detail)).message

end Module

/-- A module, its host and the log streams. -/
structure Site (σ : Type) where
  module : Module
  host : σ
  streams : Log.Streams

namespace Site

variable {σ : Type}

/-- Run an operation of the module; the outcome, and the site then. -/
def perform {α : Type} (s : Site σ) (operation : Bridge.Operation σ α) :
    Except (Abort BridgeError) α × Site σ :=
  match s with
  | ⟨{ engine, config, registry, logStream, exports }, host, streams⟩ =>
    let site (w : Bridge.World σ) : Site σ :=
      ⟨{ engine := w.engine, config, registry, logStream, exports }, w.host, w.streams⟩
    match operation ⟨host, engine, streams⟩ with
    | .ok a w => (.ok a, site w)
    | .error abort w => (.error abort, site w)

variable [Memory] [HostRuntime σ]

/-- Raise an error in the host. -/
def raise (s : Site σ) (message : String) : Site σ :=
  { s with host := HostRuntime.raise message s.host }

/-- Call an entry point from the host. -/
def call (s : Site σ) (name : String) (args : List Handle) : Option Handle × Site σ :=
  match s.module.entry? name with
  | none => (none, s.raise ("no such export: " ++ name))
  | some entry =>
    match s.perform (s.module.run args entry) with
    | (.ok value, s) => (value, s)
    | (.error abort, s) => (none, s.raise (Module.abortMessage abort))

/-- Call entry points one after another. -/
def callAll (s : Site σ) : List (String × List Handle) → List (Option Handle) × Site σ
  | [] => ([], s)
  | (name, args) :: rest =>
    let (first, s) := s.call name args
    let (others, s) := callAll s rest
    (first :: others, s)

end Site

end ForeignCall
