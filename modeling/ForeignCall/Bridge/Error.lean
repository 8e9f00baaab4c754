import ForeignCall.Engine
import ForeignCall.Marshal

/-!
# ForeignCall.Bridge.Error

Why a bridge operation failed, and the wording of it.
-/

namespace ForeignCall

namespace Bridge

/-- What had no room, or was too long. -/
inductive Subject where
  | argumentHandles
  | functionName
  | argumentValues
  | languageTag
  | pathList
  | path
deriving DecidableEq, Repr

/-- The name of a subject. -/
def Subject.name : Subject → String
  | .argumentHandles => "argument handles"
  | .functionName => "function name"
  | .argumentValues => "argument values"
  | .languageTag => "language tag"
  | .pathList => "path list"
  | .path => "path"

/-- Why a name could not be read. -/
inductive NameFault where
  | emptyFunctionName
  | emptyLanguageTag
  | emptyPath (index : Nat)
  | host (e : HostError)
  | invalidUtf8 (fault : Utf8.Malformed)
deriving DecidableEq, Repr

/-- The wording of a name that could not be read. -/
def NameFault.message : NameFault → String
  | .emptyFunctionName => "empty function name"
  | .emptyLanguageTag => "empty language tag"
  | .emptyPath index => s!"empty path at index {index}"
  | .host e => e.message
  | .invalidUtf8 fault => fault.message

/-- Why a call failed. -/
inductive CallFault where
  | engine (e : EngineError)
  /-- The engine did not describe itself. -/
  | noDescription
  /-- Loading ended with this status. -/
  | loadStatus (status : Int32)
  /-- The log policy could not be created. -/
  | policy (e : Log.LogError)
  /-- The engine did not take the log policy. -/
  | logging (e : EngineError)
  /-- The engine did not start. -/
  | startup (e : EngineError)
  /-- The module slot is taken. -/
  | alreadyLoaded
  /-- Something broke down during the call. -/
  | panic (detail : Option String)
deriving DecidableEq, Repr

/-- The wording of a failed call. -/
def CallFault.message : CallFault → String
  | .engine e => e.message
  | .noDescription => "invalid inspect result"
  | .loadStatus status => "could not load from file (status " ++ toString status.toInt ++ ")"
  | .policy e => e.message
  | .logging e => "failed to initialize debug logs: " ++ e.message
  | .startup e => "failed to initialize: " ++ e.message
  | .alreadyLoaded => "failed to initialize: module already loaded"
  | .panic detail => "panic in entry point: " ++ detail.getD "unknown panic"

end Bridge

/-- Why a bridge operation failed. -/
inductive BridgeError where
  /-- The number of arguments is wrong. -/
  | arity
  /-- There is no memory. -/
  | allocation (what : Bridge.Subject)
  | conversion (e : ConversionError)
  | nameDecode (fault : Bridge.NameFault)
  | capacityExceeded (what : Bridge.Subject) (len capacity : Nat)
  | callFailure (fault : Bridge.CallFault)
  | writeShortfall (requested written : Nat)
  | host (e : HostError)
deriving DecidableEq, Repr

namespace BridgeError

/-- The wording of a failed operation. -/
def message : BridgeError → String
  | .arity => "invalid number of arguments"
  | .allocation what => "allocation failed: " ++ what.name
  | .conversion e => "conversion failed: " ++ e.message
  | .nameDecode fault => "invalid name: " ++ fault.message
  | .capacityExceeded what len capacity =>
    what.name ++ " exceeds capacity: " ++ toString len ++ " > " ++ toString capacity
  | .callFailure fault => fault.message
  | .writeShortfall requested written => Log.shortWriteMessage requested written
  | .host e => e.message

/-- A failed log operation: a short write remains one. -/
def ofLog : Log.LogError → BridgeError
  | .writeShortfall requested written => .writeShortfall requested written
  | e => .callFailure (.policy e)

end BridgeError

end ForeignCall
