/-!
# ForeignCall.Log.Level

Severities of log records, from the least to the greatest.
-/

namespace ForeignCall

namespace Log

/-- A severity. -/
inductive Level where
  | debug
  | info
  | warning
  | error
  | critical
deriving DecidableEq, Repr, Inhabited

namespace Level

/-- The place of a severity. -/
def rank : Level → Nat
  | .debug => 0
  | .info => 1
  | .warning => 2
  | .error => 3
  | .critical => 4

/-- The name of a severity in a record. -/
def name : Level → String
  | .debug => "DEBUG"
  | .info => "INFO"
  | .warning => "WARNING"
  | .error => "ERROR"
  | .critical => "CRITICAL"

end Level

end Log

end ForeignCall
