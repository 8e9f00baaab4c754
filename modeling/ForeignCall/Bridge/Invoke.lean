import ForeignCall.Bridge.World

/-!
# ForeignCall.Bridge.Invoke

Calling an engine function: argument 0 is its name, the others are its
arguments.

The steps are, each only if all before it succeeded: the handles of the
arguments are collected, the name is read, room is made for the values, the
arguments are converted from left to right, each within the node bound of its
own, the engine is called, and its value is converted back.  The arguments are
held until the engine is done, the engine's value until it is converted.
-/

namespace ForeignCall

namespace Bridge

open Operation

/-- The arguments of a call: how many are announced, and those there are. -/
structure CallInfo where
  argc : Nat
  args : List Handle
deriving DecidableEq, Repr

/-- The arguments of a call that announces what there is. -/
def CallInfo.ofList (args : List Handle) : CallInfo := ⟨args.length, args⟩

variable [Memory] {σ : Type} [HostRuntime σ]

/-- The octets of a handle. -/
def handleWidth : Nat := 4

/-- The announced arguments. -/
def collect (info : CallInfo) : Operation σ (List Handle) := do
  reserve .argumentHandles (info.argc * handleWidth)
  if info.argc ≤ info.args.length then return info.args.take info.argc
  else Action.fail (.host (.missingArgument info.args.length))

/-- The text of a string that is a name. -/
def asName (bytes : List UInt8) : Operation σ String :=
  (Action.ofExcept (Utf8.decode bytes)).mapError fun fault => .nameDecode (.invalidUtf8 fault)

/-- A failed request to the host while a name is read. -/
def nameOnHost {α : Type} (action : Action σ HostError α) : Operation σ α :=
  onHost (fun e => .nameDecode (.host e)) action

/-- The name of a function. -/
def decodeName (h : Handle) : Operation σ String := do
  let len ← nameOnHost (HostRuntime.utf8Len h)
  if len = 0 then Action.fail (.nameDecode .emptyFunctionName)
  else
    let size ← terminatedSize len
    reserve .functionName size
    asName (← nameOnHost (HostRuntime.readUtf8 h size))

/-- The octets of an owned value and its account. -/
def valueWidth : Nat := 48

/-- Do something with the values of handles, which are held meanwhile. -/
def withValues {α : Type} (limits : Limits) (body : List Value → Operation σ α) :
    List Handle → Operation σ α
  | [] => body []
  | h :: rest => do
    let v ← onHost .conversion (Marshal.toValue limits h)
    holding .value (withValues limits (fun values => body (v :: values)) rest)

/-- Call an engine function; a value it answers with has been acquired. -/
def dispatch (name : String) (args : List Value) : Operation σ (Option Value) := do
  match ← onEngine fun engine streams => engine.callByName name args streams with
  | .value v => return some v
  | .nothing => return none
  | .error e => Action.fail (.callFailure (.engine e))
  | .panic detail => Action.panic detail

/-- Call an engine function from the host. -/
def invoke (limits : Limits) (info : CallInfo) : Operation σ (Option Handle) := do
  if info.argc = 0 then Action.fail .arity
  else
    match ← collect info with
    | [] => Action.fail .arity
    | nameHandle :: argHandles =>
      let name ← decodeName nameHandle
      reserve .argumentValues (argHandles.length * valueWidth)
      match ← withValues limits (dispatch name) argHandles with
      | some v => some <$> borrowing .value (onHost .conversion (Marshal.toHost limits v))
      | none => return none

end Bridge

end ForeignCall
