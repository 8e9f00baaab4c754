/-!
# ForeignCall.CommandLine.Directory

The texts in reach of a command line.

A directory holds texts by name.  A path is followed from it part by part:

* an empty part and `.` stay where they are,
* `..` goes to the directory above,
* any other part goes to what has that name, which must exist.

A path can only go on from a directory, be it by a mere slash: `notes/../limits`
leads nowhere if there are no notes, and neither does `limits/` if that is a
text.  What lies outside cannot be seen, but for the devices that give an empty
text.
-/

namespace ForeignCall

namespace CommandLine

/-- A part of a path. -/
abbrev Part := List Char

/-- The parts of a path, which have slashes between them. -/
def parts : List Char → List Part
  | [] => [[]]
  | c :: rest =>
    if c = '/' then [] :: parts rest
    else match parts rest with
      | [] => [[c]]
      | part :: others => (c :: part) :: others

/-- Texts by name; a name has its parts from the innermost to the outermost. -/
structure Directory where
  texts : List (List Part × String) := []
deriving DecidableEq, Repr, Inhabited

namespace Directory

/-- Why a path gives no text. -/
inductive Fault where
  /-- Nothing has this name. -/
  | missing
  /-- The path goes on after a text. -/
  | notDirectory
  /-- The path ends at a directory. -/
  | isDirectory
deriving DecidableEq, Repr

/-- The wording of a path that gives no text. -/
def Fault.message : Fault → String
  | .missing => "No such file or directory (os error 2)"
  | .notDirectory => "Not a directory (os error 20)"
  | .isDirectory => "Is a directory (os error 21)"

/-- A part that stays where it is. -/
def stays (part : Part) : Bool :=
  part = [] || part = ['.']

/-- The directory of some files. -/
def ofFiles (files : List (String × String)) : Directory :=
  ⟨files.map fun file => (((parts file.1.toList).filter (!stays ·)).reverse, file.2)⟩

/-- The text of a name. -/
def text? (d : Directory) (name : List Part) : Option String :=
  d.texts.lookup name

/-- Whether a name is that of a directory: some text lies in it. -/
def contains (d : Directory) (name : List Part) : Bool :=
  d.texts.any fun entry => entry.1 ≠ name && name.isSuffixOf entry.1

/-- The text that is found by following the parts of a path from a directory within. -/
def follow (d : Directory) (here : List Part) : List Part → Except Fault String
  | [] => .error .isDirectory
  | part :: rest =>
    if stays part then d.follow here rest
    else if part = ['.', '.'] then
      match here with
      | [] => .error .missing
      | _ :: above => d.follow above rest
    else match d.text? (part :: here) with
      | some text => if rest = [] then .ok text else .error .notDirectory
      | none =>
        if d.contains (part :: here) then d.follow (part :: here) rest else .error .missing

/-- The devices that give an empty text, as long as there is no input. -/
def emptyDevices : List String := ["/dev/null", "/dev/stdin"]

/-- The text that a path leads to. -/
def read (d : Directory) (path : String) : Except Fault String :=
  if path ∈ emptyDevices then .ok ""
  else match path.toList with
    | [] => .error .missing
    | '/' :: _ => .error .missing
    | within => d.follow [] (parts within)

end Directory

end CommandLine

end ForeignCall
