/-!
# ForeignCall.CommandLine.Request

What a command line asks for.

```
[options] invoke NAME [ARGUMENT ...] [options]
[options] load TAG PATH ... [options]
[options] inspect [options]
```

Options are `--config FILE`, `--preload TAG=PATH` and `--logs`; a value can
also be attached, as in `--config=FILE`.  They may stand on both sides of the
command and between its operands.  On each side only `--preload` may be given
more than once; what is given after the command replaces what is given before
it.  After `--` every word is an operand.  Otherwise a word that begins with a
dash is an option, and a lone dash is an operand.
-/

namespace ForeignCall

namespace CommandLine

/-- What the options say. -/
structure Options where
  /-- The configuration file. -/
  config : Option String := none
  /-- Loads to do before the command, each as tag and path around an equals sign. -/
  preloads : List String := []
  /-- Send the engine's log to the standard error stream. -/
  logs : Bool := false
deriving DecidableEq, Repr, Inhabited

/-- What to do. -/
inductive Command where
  | invoke (name : String) (args : List String)
  | load (tag : String) (paths : List String)
  | inspect
deriving DecidableEq, Repr

/-- What a whole command line asks for. -/
structure Request where
  options : Options
  command : Command
deriving DecidableEq, Repr

/-! ## Words -/

/-- What a word looks like. -/
inductive Word where
  | operand
  /-- The two dashes after which every word is an operand. -/
  | escape
  /-- An option and its attached value, if it has one. -/
  | option (name : String) (attached : Option String)
  /-- One dash and more: there are no such options. -/
  | short
deriving DecidableEq, Repr

/-- The text before the first equals sign, and the text after it if there is one. -/
def splitEquals (text : List Char) : String × Option String :=
  (String.ofList (text.takeWhile (· ≠ '=')),
    match text.dropWhile (· ≠ '=') with
    | [] => none
    | _ :: value => some (String.ofList value))

/-- What a word looks like. -/
def Word.ofString (word : String) : Word :=
  match word.toList with
  | ['-', '-'] => .escape
  | '-' :: '-' :: text => .option (splitEquals text).1 (splitEquals text).2
  | '-' :: _ :: _ => .short
  | _ => .operand

/-! ## Options -/

/-- An option that takes a value. -/
inductive Valued where
  | config
  | preload
deriving DecidableEq, Repr

/-- Give an option its value, unless it has one already or the value is none. -/
def Options.give (options : Options) (value : String) : Valued → Option Options
  | .config =>
    if options.config.isSome || value.isEmpty then none
    else some { options with config := some value }
  | .preload => some { options with preloads := options.preloads ++ [value] }

/-- An option that begins: the options then, and what still lacks a value. -/
def Options.begin (options : Options) (name : String) (attached : Option String) :
    Option (Options × Option Valued) :=
  let valued (option : Valued) : Option (Options × Option Valued) :=
    match attached with
    | some value => (options.give value option).map fun options => (options, none)
    | none => some (options, some option)
  match name with
  | "config" => valued .config
  | "preload" => valued .preload
  | "logs" =>
    if options.logs || attached.isSome then none else some ({ options with logs := true }, none)
  | _ => none

/-- The options after a command, over those before it. -/
def Options.over (after before : Options) : Options where
  config := after.config <|> before.config
  preloads := if after.preloads.isEmpty then before.preloads else after.preloads
  logs := after.logs || before.logs

/-! ## Reading -/

/-- The options before a command, and the words from the command on. -/
def leading (options : Options) : Option Valued → List String → Option (Options × List String)
  | _, [] => none
  | some option, word :: rest =>
    match Word.ofString word with
    | .operand => (options.give word option).bind fun options => leading options none rest
    | _ => none
  | none, word :: rest =>
    match Word.ofString word with
    | .operand => some (options, word :: rest)
    | .option name attached =>
      (options.begin name attached).bind fun begun => leading begun.1 begun.2 rest
    | _ => none

/-- The options after a command, and its operands. -/
def scattered (options : Options) : Option Valued → List String → Option (Options × List String)
  | none, [] => some (options, [])
  | some _, [] => none
  | some option, word :: rest =>
    match Word.ofString word with
    | .operand => (options.give word option).bind fun options => scattered options none rest
    | _ => none
  | none, word :: rest =>
    match Word.ofString word with
    | .operand => (scattered options none rest).map fun read => (read.1, word :: read.2)
    | .escape => some (options, rest)
    | .option name attached =>
      (options.begin name attached).bind fun begun => scattered begun.1 begun.2 rest
    | .short => none

/-- The command of a name with its operands. -/
def Command.ofOperands? (name : String) (operands : List String) : Option Command :=
  match name, operands with
  | "invoke", function :: args => some (.invoke function args)
  | "load", tag :: path :: paths => some (.load tag (path :: paths))
  | "inspect", [] => some .inspect
  | _, _ => none

/-- What the words of a command line ask for, if they ask for anything. -/
def Request.ofWords? (words : List String) : Option Request := do
  match ← leading {} none words with
  | (_, []) => none
  | (before, name :: rest) =>
    let (after, operands) ← scattered {} none rest
    let command ← Command.ofOperands? name operands
    return ⟨after.over before, command⟩

end CommandLine

end ForeignCall
