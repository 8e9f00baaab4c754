import ForeignCall.Log.Level
import ForeignCall.Log.Policy
import ForeignCall.Text.Utf8

/-!
# ForeignCall.Log.Logger

Records, and the policies that each record goes to.

A record is the line `[LEVEL] target: message`.  Every policy is attempted, in
the order of attachment, whatever happened to the ones before it; the first
failure is reported.  Records below the least level are dropped.
-/

namespace ForeignCall

namespace Log

/-- A logger. -/
structure Logger where
  minLevel : Level := .info
  policies : List Policy := []
deriving DecidableEq, Repr, Inhabited

/-- The octets of one record. -/
def record (level : Level) (target message : String) : List UInt8 :=
  Utf8.octets ("[" ++ level.name ++ "] " ++ target ++ ": " ++ message ++ "\n")

namespace Logger

/-- Do something with each policy in turn; the result is the first failure, if there is one. -/
def attempt (act : Policy → Streams → Except LogError Unit × Streams) :
    List Policy → Streams → Except LogError Unit × Streams
  | [], streams => (.ok (), streams)
  | p :: rest, streams =>
    let (first, streams) := act p streams
    let (later, streams) := attempt act rest streams
    match first with
    | .ok () => (later, streams)
    | .error e => (.error e, streams)

/-- Add a policy after the others. -/
def attach (logger : Logger) (p : Policy) : Logger :=
  { logger with policies := logger.policies ++ [p] }

/-- Write a record to every policy. -/
def log (logger : Logger) (level : Level) (target message : String) (streams : Streams) :
    Except LogError Unit × Streams :=
  if level.rank < logger.minLevel.rank then (.ok (), streams)
  else
    let bytes := record level target message
    attempt (fun p streams => p.write streams bytes) logger.policies streams

/-- Flush every policy. -/
def flush (logger : Logger) (streams : Streams) : Except LogError Unit × Streams :=
  attempt Policy.flush logger.policies streams

/-- Destroy and detach every policy. -/
def clear (logger : Logger) (streams : Streams) : Logger × Streams :=
  ({ logger with policies := [] },
    logger.policies.foldl (fun streams p => (p.destroy streams).2) streams)

end Logger

end Log

end ForeignCall
