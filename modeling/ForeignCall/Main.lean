import ForeignCall.CommandLine

/-!
# ForeignCall.Main

The command line program.
-/

namespace ForeignCall

namespace CommandLine

/-- Read the configuration file that a command line names, if it names one. -/
def readConfigFile (words : List String) : IO (Except String String) := do
  match (Request.ofWords? words).bind (·.options.config) with
  | none => return .error "no file is named"
  | some path =>
    try
      return .ok (← IO.FS.readFile path)
    catch e =>
      return .error e.toString

end CommandLine

end ForeignCall

open ForeignCall

/-- Do what the command line asks for. -/
def main (words : List String) : IO UInt32 := do
  let file ← CommandLine.readConfigFile words
  let outcome := CommandLine.run (fun _ => file) words
  (← IO.getStdout).putStr outcome.output
  (← IO.getStderr).write ⟨outcome.errors.toArray⟩
  return UInt32.ofNat outcome.status
