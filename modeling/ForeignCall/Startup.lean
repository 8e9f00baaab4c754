import ForeignCall.Host.Arena
import ForeignCall.Engine.Builtin
import ForeignCall.Json.Reader
import ForeignCall.Module
import ForeignCall.Run

/-!
# ForeignCall.Startup

Modules in one process.

At most one module is ever loaded into the slot of a process.  The slot is
taken before the engine starts, and given back if it does not start; an
attempt made while the slot is taken does not start its engine.  Dropping the
module does not free the slot.  Modules that are started directly have nothing
to do with the slot.
-/

namespace ForeignCall

/-- The modules of a process and their one host. -/
structure Startup where
  /-- Whether the slot is taken. -/
  loaded : Bool := false
  host : Arena := {}
  streams : Log.Streams := #[{}]
  /-- The modules by number; `none` for one that did not start or was dropped. -/
  modules : Array (Option Module) := #[]
  /-- The engines that were asked to start, in order. -/
  started : List Engine := []

namespace Startup

/-- What can be asked of a process. -/
inductive Step where
  /-- Load a module into the slot. -/
  | load (engine : Engine) (config : Config := {})
  /-- Start a module beside the slot. -/
  | start (engine : Engine) (config : Config := {})
  | drop (module : Nat)
  | isInitialized (module : Nat)
  /-- Call an engine function through the `invoke` entry point of a module, with JSON texts. -/
  | call (module : Nat) (name : String) (args : List String)

/-- The answer to a step. -/
inductive Answer where
  | nothing
  | noModule
  | truth (b : Bool)
  | failed (e : BridgeError)
  /-- An argument is not JSON. -/
  | badJson (fault : Json.Fault)
  /-- The value of a call. -/
  | value (json : Json)

/-- The stream of a module that was not given one. -/
def standardStream : Nat := 0

/-- Ask an engine to start: the module over it, if it does, and the process then. -/
def launch (p : Startup) (engine : Engine) (config : Config) :
    Except BridgeError Module × Startup :=
  (Module.start engine config standardStream, { p with started := p.started ++ [engine] })

/-- Load a module: the module, if there is one, and the process then. -/
def load (p : Startup) (engine : Engine) (config : Config) : Option Module × Startup :=
  if p.loaded then
    (none, { p with
      host := p.host.raise (BridgeError.callFailure .alreadyLoaded).message })
  else
    match launch { p with loaded := true } engine config with
    | (.ok m, p) => (some m, p)
    | (.error e, p) => (none, { p with loaded := false, host := p.host.raise e.message })

/-- Give a module, or the lack of one, the next number. -/
def enroll (p : Startup) (m : Option Module) : Startup :=
  { p with modules := p.modules.push m }

/-- The module of a number. -/
def module? (p : Startup) (n : Nat) : Option Module :=
  (p.modules[n]?).join

/-- Call an engine function with JSON arguments; the JSON view of its value. -/
def callModule [Memory] (p : Startup) (n : Nat) (m : Module) (name : String) (args : List Json) :
    Answer × Startup :=
  let (nameHandle, host) := p.host.alloc (.string name)
  let (handles, host) := host.ofJsonItems args
  let site : Site Arena := ⟨m, host, p.streams⟩
  let (result, site) := site.call Export.invoke.name (nameHandle :: handles)
  let p := { p with
    host := site.host
    streams := site.streams
    modules := p.modules.setIfInBounds n (some site.module) }
  match result.bind p.host.toJson? with
  | some json => (.value json, p)
  | none => (.nothing, p)

/-- The JSON values of arguments. -/
def readArguments : List String → Except Json.Fault (List Json)
  | [] => .ok []
  | text :: rest => do return (← Json.read text) :: (← readArguments rest)

/-- One step. -/
def step [Memory] (p : Startup) : Step → Answer × Startup
  | .load engine config =>
    let (m, p) := p.load engine config
    (.truth m.isSome, p.enroll m)
  | .start engine config =>
    match p.launch engine config with
    | (.ok m, p) => (.truth true, p.enroll (some m))
    | (.error e, p) => (.failed e, p.enroll none)
  | .drop n => (.nothing, { p with modules := p.modules.setIfInBounds n none })
  | .isInitialized n =>
    match p.module? n with
    | some m => (.truth m.engine.initialized, p)
    | none => (.nothing, p)
  | .call n name args =>
    match p.module? n with
    | some m => match readArguments args with
      | .ok values => p.callModule n m name values
      | .error fault => (.badJson fault, p)
    | none => (.noModule, p)

/-- A run of steps: the answer and the errors pending after each. -/
abbrev run [Memory] (p : Startup) (steps : List Step) : List (Answer × List String) :=
  Run.run step (·.host.errors) p steps

end Startup

end ForeignCall
