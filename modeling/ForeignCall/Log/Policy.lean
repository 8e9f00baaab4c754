import ForeignCall.Log.Stream
import ForeignCall.Text.Quoted

/-!
# ForeignCall.Log.Policy

Log destinations.

A policy is bound to one backend, which holds one stream.  It lives until it is
destroyed or dropped, and lets go of its stream exactly once.  After that it
refuses every write and flush, and touches no stream.

There are two kinds of backend.  The stdio backend reports how many octets
arrived when not all did, whatever stopped the stream.  The prefixed backend
writes some octets of its own before each buffer, and reports what stopped the
stream.
-/

namespace ForeignCall

namespace Log

/-- What a stream failed with. -/
inductive StreamError where
  /-- The lock of the stream cannot be taken. -/
  | poisoned
  /-- The stream took nothing of what was left. -/
  | incomplete
  /-- A write failed. -/
  | failed
  /-- Flushing failed. -/
  | flush (text : String)
deriving DecidableEq, Repr

/-- The wording of a stream's failure. -/
def StreamError.message : StreamError → String
  | .poisoned => "stream lock poisoned"
  | .incomplete => "failed to write whole buffer"
  | .failed => "stream failed"
  | .flush text => text

/-- Why a log operation failed. -/
inductive LogError where
  /-- No backend is registered under a tag. -/
  | unknownTag (tag : String)
  /-- The construction data are for another kind of backend. -/
  | invalidCtor (tag : String)
  /-- The policy has been destroyed. -/
  | uninitialized (tag : String)
  /-- Not all octets arrived. -/
  | writeShortfall (requested written : Nat)
  | io (cause : StreamError)
deriving DecidableEq, Repr

/-- The wording of a short write. -/
def shortWriteMessage (requested written : Nat) : String :=
  s!"short write: {written} of {requested} bytes accepted"

/-- The wording of a failed log operation. -/
def LogError.message : LogError → String
  | .unknownTag tag => "no log backend registered for tag '" ++ tag ++ "'"
  | .invalidCtor tag => "invalid constructor data for log backend '" ++ tag ++ "'"
  | .uninitialized tag => "log policy '" ++ tag ++ "' is not initialized"
  | .writeShortfall requested written => shortWriteMessage requested written
  | .io cause => "stream error: " ++ cause.message

/-! ## Backends -/

/-- A live backend and the stream it holds. -/
inductive Backend where
  | stdio (stream : Nat)
  | prefixed (stream : Nat) (lead : List UInt8)
deriving DecidableEq, Repr

namespace Backend

/-- The stream a backend holds. -/
def stream : Backend → Nat
  | .stdio id => id
  | .prefixed id _ => id

/-- Octets of which all must arrive; the outcome is that of the stream. -/
def pourAll (s : Stream) (bytes : List UInt8) : Except LogError Unit × Stream :=
  let (poured, s) := pour s bytes
  match poured.stop with
  | .finished => (.ok (), s)
  | .refused => (.error (.io .incomplete), s)
  | .failed => (.error (.io .failed), s)

/-- Octets of which as many as possible arrive; it is a short write if that is not all. -/
def deliver {σ : Type} [Sink σ] (s : σ) (bytes : List UInt8) : Except LogError Unit × σ :=
  let (poured, s) := pour s bytes
  if poured.taken = bytes.length then (.ok (), s)
  else (.error (.writeShortfall bytes.length poured.taken), s)

/-- Write to a stream. -/
def writeTo (backend : Backend) (s : Stream) (bytes : List UInt8) :
    Except LogError Unit × Stream :=
  match backend with
  | .stdio _ =>
    if s.poisoned then (.error (.io .poisoned), s) else deliver s bytes
  | .prefixed _ lead =>
    match pourAll s lead with
    | (.ok (), s) => pourAll s bytes
    | (.error e, s) => (.error e, s)

/-- Flush a stream. -/
def flushTo (backend : Backend) (s : Stream) : Except LogError Unit × Stream :=
  let locked := match backend with
    | .stdio _ => s.poisoned
    | .prefixed _ _ => false
  if locked then (.error (.io .poisoned), s)
  else match s.flush with
    | (none, s) => (.ok (), s)
    | (some text, s) => (.error (.io (.flush text)), s)

/-- Write to the stream held. -/
def write (backend : Backend) (streams : Streams) (bytes : List UInt8) :
    Except LogError Unit × Streams :=
  streams.withStream backend.stream fun s => backend.writeTo s bytes

/-- Flush the stream held. -/
def flush (backend : Backend) (streams : Streams) : Except LogError Unit × Streams :=
  streams.withStream backend.stream backend.flushTo

end Backend

/-! ## Policies -/

/-- A log destination: its tag, and its backend until it is destroyed. -/
structure Policy where
  tag : String
  backend : Option Backend
deriving DecidableEq, Repr

namespace Policy

/-- A policy over a backend, which from now on holds its stream. -/
def ofBackend (tag : String) (backend : Backend) (streams : Streams) : Policy × Streams :=
  (⟨tag, some backend⟩, streams.hold backend.stream)

/-- Not destroyed. -/
def isInitialized (p : Policy) : Bool :=
  p.backend.isSome

/-- Write a whole buffer or fail. -/
def write (p : Policy) (streams : Streams) (bytes : List UInt8) :
    Except LogError Unit × Streams :=
  match p.backend with
  | some backend => backend.write streams bytes
  | none => (.error (.uninitialized p.tag), streams)

/-- Flush. -/
def flush (p : Policy) (streams : Streams) : Except LogError Unit × Streams :=
  match p.backend with
  | some backend => backend.flush streams
  | none => (.error (.uninitialized p.tag), streams)

/-- Let go of the stream, once. -/
def destroy (p : Policy) (streams : Streams) : Policy × Streams :=
  match p.backend with
  | some backend => ({ p with backend := none }, streams.letGo backend.stream)
  | none => (p, streams)

/-- A policy, written out. -/
def describe (p : Policy) : String :=
  "LogPolicy \x7b tag: " ++ Quoted.text p.tag ++ ", initialized: " ++
    (if p.isInitialized then "true" else "false") ++ " \x7d"

end Policy

end Log

end ForeignCall
