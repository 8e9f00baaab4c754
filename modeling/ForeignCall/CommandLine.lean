import ForeignCall.CommandLine.Directory
import ForeignCall.CommandLine.Request
import ForeignCall.Engine.Builtin
import ForeignCall.Host.Arena
import ForeignCall.Json.Printer
import ForeignCall.Json.Reader
import ForeignCall.Module

/-!
# ForeignCall.CommandLine

Carrying out what a command line asks for.

A module is started over an engine with the built-in functions and an empty
host.  Then, each only if all before it succeeded: logging is enabled, the
preloads are done in order, and the command is carried out.  `invoke` prints
the value of the call, `inspect` the engine's description of itself, both as
indented JSON; `load` prints nothing.  The first failure is reported after what
was logged.
-/

namespace ForeignCall

namespace CommandLine

/-- Why a command line could not be carried out. -/
inductive Failure where
  /-- It asks for nothing. -/
  | usage
  /-- The configuration file cannot be read. -/
  | unreadable (path reason : String)
  | badConfig (path : String) (fault : Config.Fault)
  | startup (e : BridgeError)
  | badPreload (text : String)
  | badArgument (text : String) (fault : Json.Fault)
  /-- An entry point raised an error in the host. -/
  | call (entry : Export) (message : String)
  /-- The engine did not describe itself. -/
  | noDescription
  /-- What the engine described itself by is no text, but this in JSON. -/
  | noText (json : String)
  /-- The engine's description of itself is not JSON. -/
  | badDescription (fault : Json.Fault)
deriving DecidableEq, Repr

namespace Failure

/-- What failed. -/
def message : Failure → String
  | .usage => "Usage: [--config FILE] [--preload TAG=PATH]... [--logs] COMMAND\n" ++
    "Commands: invoke NAME [ARGUMENT]... | load TAG PATH... | inspect"
  | .unreadable path _ => "Failed to read " ++ path
  | .badConfig path _ => "Failed to parse " ++ path
  | .startup e => e.message
  | .badPreload text => "Invalid --preload '" ++ text ++ "': expected TAG=PATH"
  | .badArgument text _ => "Argument is not valid JSON: " ++ text
  | .call entry message => entry.name ++ " failed: " ++ message
  | .noDescription => "inspect returned no value"
  | .noText json => "inspect returned a non-string value: " ++ json
  | .badDescription fault => fault.message

/-- What lies behind a failure. -/
def cause? : Failure → Option String
  | .unreadable _ reason => some reason
  | .badConfig _ fault => some fault.message
  | .badArgument _ fault => some fault.message
  | _ => none

/-- The report of a failure. -/
def report (failure : Failure) : String :=
  let cause := match failure.cause? with
    | some cause => "\n\nCaused by:\n    " ++ cause
    | none => ""
  match failure with
  | .usage => failure.message ++ "\n"
  | _ => "Error: " ++ failure.message ++ cause ++ "\n"

/-- The exit status of a failure. -/
def status : Failure → Nat
  | .usage => 2
  | _ => 1

end Failure

/-- What comes of a command line. -/
structure Outcome where
  status : Nat
  /-- What is printed. -/
  output : String
  /-- The octets on the standard error stream. -/
  errors : List UInt8
deriving DecidableEq, Repr

/-- The outcome of a failure, after what was logged. -/
def Outcome.ofFailure (failure : Failure) (logged : List UInt8) : Outcome :=
  ⟨failure.status, "", logged ++ Utf8.octets failure.report⟩

/-! ## Commands -/

variable [Memory]

/-- A program over a module at its site. -/
abbrev Program (α : Type) := EStateM Failure (Site Arena) α

/-- Do something with the values of the host. -/
def onHost {α : Type} (act : Arena → α × Arena) : Program α := fun ⟨module, host, streams⟩ =>
  let (a, host) := act host
  .ok a ⟨module, host, streams⟩

/-- Call an entry point; an error it raises in the host is a failure. -/
def call (entry : Export) (args : List Handle) : Program (Option Handle) := do
  let result ← fun (site : Site Arena) =>
    let (result, site) := site.call entry.name args
    .ok result site
  match ← onHost Arena.takeError with
  | some message => throw (.call entry message)
  | none => return result

/-- The JSON view of a handle; null if there is none. -/
def view (h : Option Handle) : Program Json := do
  return (h.bind (← get).host.toJson?).getD .null

/-- The JSON values of arguments. -/
def readArguments : List String → Except Failure (List Json)
  | [] => .ok []
  | text :: rest => match Json.read text with
    | .ok json => (readArguments rest).map (json.json :: ·)
    | .error fault => .error (.badArgument text fault)

/-- Call an engine function. -/
def invoke (name : String) (args : List String) : Program Json := do
  let values ← ofExcept (readArguments args)
  let nameHandle ← onHost (·.alloc (.string name))
  let handles ← onHost (·.ofJsonItems values)
  view (← call .invoke (nameHandle :: handles))
where
  ofExcept {α : Type} : Except Failure α → Program α
    | .ok a => pure a
    | .error failure => throw failure

/-- Load sources. -/
def load (tag : String) (paths : List String) : Program Unit := do
  let tagHandle ← onHost (·.alloc (.string tag))
  let items ← onHost (·.ofJsonItems (paths.map .string))
  let pathsHandle ← onHost (·.alloc (.array items))
  discard (call .bulkLoad [tagHandle, pathsHandle])

/-- The engine's description of itself.  The host gets it as a string, so a value of another kind
is met by no call of this entry point. -/
def inspect : Program Json.Canonical := do
  match ← call .inspect [] with
  | none => throw .noDescription
  | some h => match ← view (some h) with
    | .string text => match Json.read text with
      | .ok json => return json
      | .error fault => throw (.badDescription fault)
    | other => throw (.noText other.compact)

/-- Do a load that is given as a tag and a path around an equals sign. -/
def preload (text : String) : Program Unit :=
  match splitEquals text.toList with
  | (tag, some path) => load tag [path]
  | (_, none) => throw (.badPreload text)

/-- Carry out a request: what is printed. -/
def carryOut (request : Request) : Program String := do
  if request.options.logs then discard (call .enableLogging [])
  request.options.preloads.forM preload
  match request.command with
  | .invoke name args => return (← invoke name args).pretty ++ "\n"
  | .load tag paths =>
    load tag paths
    return ""
  | .inspect => return (← inspect).json.pretty ++ "\n"

/-! ## Whole command lines -/

/-- The stream of the engine's log. -/
def logStream : Nat := 0

/-- The octets that have been logged. -/
def logged (site : Site Arena) : List UInt8 :=
  ((site.streams[logStream]?).map (·.content.toList)).getD []

/-- The configuration of a request. -/
def configure (fileText : String → Except String String) (options : Options) :
    Except Failure Config :=
  match options.config with
  | none => .ok {}
  | some path => match fileText path with
    | .error reason => .error (.unreadable path reason)
    | .ok text => (Config.read text).mapError (.badConfig path)

/-- The module of a request at its site. -/
def prepare (fileText : String → Except String String) (options : Options) :
    Except Failure (Site Arena) := do
  let config ← configure fileText options
  let module ← (Module.start .withBuiltins config logStream).mapError .startup
  return ⟨module, {}, #[{}]⟩

/-- Do what a command line asks for.  `fileText` is the text of a file, or says why it cannot. -/
def run (fileText : String → Except String String) (words : List String) : Outcome :=
  match Request.ofWords? words with
  | none => .ofFailure .usage []
  | some request => match prepare fileText request.options with
    | .error failure => .ofFailure failure []
    | .ok site => match carryOut request site with
      | .ok output site => ⟨0, output, logged site⟩
      | .error failure site => .ofFailure failure (logged site)

/-- Do what a command line asks for in a directory. -/
def runIn (d : Directory) (words : List String) : Outcome :=
  run (fun path => (d.read path).mapError Directory.Fault.message) words

end CommandLine

end ForeignCall
