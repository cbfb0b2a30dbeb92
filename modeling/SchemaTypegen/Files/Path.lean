import SchemaTypegen.Files.Failure
import SchemaTypegen.Text.Chars

/-!
# Paths

A path is a text; its steps are what stands between its slashes. A path that begins with a slash
has an empty first step, which stands for the root. Elsewhere an empty step, like the step `.`,
stays where it is. Names and paths have a greatest length, counted in the bytes of their UTF-8 form.
-/

namespace SchemaTypegen.Files.Path

open Text

/-- What stands between the slashes of a path. -/
def steps (path : String) : List String := (pieces (· == '/') path.toList).map String.ofList

/-- Steps that stay where they are. -/
def isStill (step : String) : Bool := step == "" || step == "."

/-- The text after the last dot of a name, unless that dot is its first character. -/
def suffix? (name : String) : Option String :=
  match cutAt '.' name.toList.reverse with
  | some (after, before) => if before.isEmpty then none else some (String.ofList after.reverse)
  | none => none

/-- The extension of the file a path names. Slashes and dots at the end of the path do not count,
and neither the root nor a directory above has one. -/
def extension? (path : String) : Option String :=
  match (steps path).reverse.dropWhile isStill with
  | [] => none
  | name :: _ => if name = ".." then none else suffix? name

/-- The steps to the directory a file at the path would be in. -/
def parentSteps (path : String) : List String :=
  (((steps path).reverse.dropWhile isStill).drop 1).reverse

/-- The directory a file at the path would be in, as a path without still steps at its end. A path
that names no file has the directory `.`. -/
def parent (path : String) : String :=
  match (parentSteps path).reverse.dropWhile isStill with
  | [] => if (parentSteps path).head? = some "" then "/" else "."
  | above => "/".intercalate above.reverse

/-- Goes from a directory to a path that is given relative to it. -/
def join (base path : String) : String :=
  if path.toList.head? = some '/' then path
  else if base.toList.getLast? = some '/' then base ++ path
  else base ++ "/" ++ path

/-! ## Limits -/

/-- Whether a text holds the character U+0000, which no path may. -/
def hasNul (path : String) : Bool := path.toList.any (·.toNat == 0)

/-- The most bytes that a name in a directory has. -/
def maxNameBytes : Nat := 255

/-- The most bytes that a path has. -/
def maxPathBytes : Nat := 4095

/-- Why a path cannot be followed at all, whatever is in the tree. -/
def refusal? (path : String) : Option Failure :=
  if hasNul path then some .badPath
  else if path = "" then some .notFound
  else if maxPathBytes < path.utf8ByteSize then some .nameTooLong
  else none

end SchemaTypegen.Files.Path
