import ForeignCall.Allocation
import ForeignCall.Json.Printer
import ForeignCall.Ledger
import ForeignCall.Log.Logger
import ForeignCall.Value

/-!
# ForeignCall.Engine

The engine that calls are dispatched to.

Its functions are known by name.  Loading sources records what was asked for,
provided the engine answers with status zero; nothing is executed.  The engine
describes itself as JSON text with a terminating NUL.

Every dispatch is logged before it is looked at.  What becomes of a record is
no concern of the dispatch: the outcome of a log write is dropped.
-/

namespace ForeignCall

/-- What a function answers. -/
inductive Reply where
  | value (v : Value)
  /-- The call is over and there is no value. -/
  | nothing
  | failure (message : String)
  /-- The function broke down. -/
  | panic (detail : Option String)
deriving Inhabited

/-- A function, which may remember its calls. -/
structure Callable where
  /-- The answer to arguments, given the arguments of all earlier calls, oldest first. -/
  behaviour : List (List Value) → List Value → Reply
  /-- The arguments of the calls so far. -/
  history : List (List Value) := []
deriving Inhabited

/-- Why the engine refused. -/
inductive EngineError where
  | initialization
  | functionNotFound (name : String)
  | callFailed (name message : String)
  | log (reason : String)
deriving DecidableEq, Repr

/-- The wording of a refusal. -/
def EngineError.message : EngineError → String
  | .initialization => "engine initialization failed: startup disabled"
  | .functionNotFound name => "function not found: " ++ name
  | .callFailed name message => "call to '" ++ name ++ "' failed: " ++ message
  | .log reason => "log destination rejected: " ++ reason

/-- Sources that were loaded: their language and their paths. -/
structure LoadRecord where
  tag : String
  paths : List String
deriving DecidableEq, Repr, Inhabited

/-- How an engine describes itself. -/
inductive SelfDescription where
  /-- Its functions and loads, as JSON. -/
  | own
  | nothing
  /-- These octets. -/
  | fixed (bytes : List UInt8)
deriving DecidableEq, Repr, Inhabited

/-- An engine. -/
structure Engine where
  ledger : Ledger := {}
  initialized : Bool := false
  /-- Starting it fails. -/
  failsToStart : Bool := false
  functions : List (String × Callable) := []
  loads : List LoadRecord := []
  /-- The status that loading ends with. -/
  loadStatus : Int32 := 0
  description : SelfDescription := .own
  /-- Why it takes no log policies, if it takes none. -/
  refusesLogs : Option String := none
  logger : Log.Logger := { minLevel := .debug }
deriving Inhabited

namespace Engine

open Log (Streams)

/-! ## Functions -/

/-- Register a function, in place of any other of that name. -/
def register (e : Engine) (name : String)
    (behaviour : List (List Value) → List Value → Reply) : Engine :=
  { e with functions := Entries.insert name { behaviour := behaviour } e.functions }

/-- The names of the functions. -/
def functionNames (e : Engine) : List String :=
  Entries.keys e.functions

/-- Start the engine. -/
def start (e : Engine) : Except EngineError Engine :=
  if e.failsToStart then .error .initialization else .ok { e with initialized := true }

/-! ## The log -/

/-- Write a record to the engine's log, whatever comes of it. -/
def emit (e : Engine) (level : Log.Level) (message : String) (streams : Streams) : Streams :=
  (e.logger.log level "engine" message streams).2

/-- Take a log policy.  A policy that is not taken is dropped. -/
def attachLog (e : Engine) (policy : Log.Policy) (streams : Streams) :
    Except EngineError Unit × Engine × Streams :=
  match e.refusesLogs with
  | some reason => (.error (.log reason), e, (policy.destroy streams).2)
  | none =>
    if policy.isInitialized then
      let e := { e with logger := e.logger.attach policy }
      (.ok (), e, e.emit .info "debug logs enabled" streams)
    else (.error (.log ("policy '" ++ policy.tag ++ "' is destroyed")), e, streams)

/-! ## Calls -/

/-- How a call ends. -/
inductive Outcome where
  /-- With a value, which the caller has to release. -/
  | value (v : Value)
  | nothing
  | error (e : EngineError)
  | panic (detail : Option String)

/-- Call a function by name, with borrowed arguments. -/
def callByName (e : Engine) (name : String) (args : List Value) (streams : Streams) :
    Outcome × Engine × Streams :=
  let streams := e.emit .debug ("call " ++ name ++ " (" ++ toString args.length ++ " args)") streams
  match Entries.find? name e.functions with
  | none => (.error (.functionNotFound name), e, streams)
  | some f =>
    let called := { f with history := f.history ++ [args] }
    let e := { e with functions := Entries.insert name called e.functions }
    match f.behaviour f.history args with
    | .value v => (.value v, { e with ledger := e.ledger.acquire .value }, streams)
    | .nothing => (.nothing, e, streams)
    | .failure message => (.error (.callFailed name message), e, streams)
    | .panic detail => (.panic detail, e, streams)

/-! ## Loading -/

/-- The text of a native string; empty if its octets are no text. -/
def nativeText (bytes : List UInt8) : String :=
  match Utf8.decode bytes with
  | .ok s => s
  | .error _ => ""

/-- Load sources, and answer with a status. -/
def loadFromFile (e : Engine) (tag : String) (paths : List (List UInt8)) (streams : Streams) :
    Int32 × Engine × Streams :=
  let streams :=
    e.emit .info ("load " ++ tag ++ " (" ++ toString paths.length ++ " files)") streams
  let loaded : LoadRecord := { tag := tag, paths := paths.map nativeText }
  let e := if e.loadStatus = 0 then { e with loads := e.loads ++ [loaded] } else e
  (e.loadStatus, e, streams)

/-! ## Descriptions -/

/-- A load as JSON, the tag before the paths. -/
def LoadRecord.toJson (r : LoadRecord) : Json :=
  .object [("tag", .string r.tag), ("paths", .array (r.paths.map .string))]

/-- The functions and loads as JSON. -/
def toJson (e : Engine) : Json :=
  .object [("functions", .array (e.functionNames.map .string)),
    ("loaded", .array (e.loads.map LoadRecord.toJson))]

/-- The octets of the engine's own description, with the terminator. -/
def ownDescription (e : Engine) : List UInt8 :=
  Utf8.octets e.toJson.compact ++ [0]

/-- The octets in which the engine describes itself, in a buffer that the caller has to free.  There
is no description of its own without memory for the buffer. -/
def selfDescribe [Memory] (e : Engine) : Option (List UInt8) :=
  match e.description with
  | .own => if Memory.grants e.ownDescription.length then some e.ownDescription else none
  | .nothing => none
  | .fixed bytes => some bytes

/-- A load, written out. -/
def LoadRecord.describe (r : LoadRecord) : String :=
  "LoadRecord \x7b tag: " ++ Quoted.text r.tag ++ ", paths: " ++
    Quoted.list (r.paths.map Quoted.text) ++ " \x7d"

/-- An engine, written out. -/
def describe (e : Engine) : String :=
  "MemoryEngine \x7b functions: " ++ Quoted.list (e.functionNames.map Quoted.text) ++
    ", loads: " ++ Quoted.list (e.loads.map LoadRecord.describe) ++
    ", ledger: " ++ e.ledger.describe ++ " \x7d"

end Engine

end ForeignCall
