import SchemaTypegen.Files.Typegen
import SchemaTypegen.Schema.ToJson

/-!
# Commands

What the program can be asked to do, and what doing it does: what is printed, the exit code, and
the tree of files afterwards.
-/

namespace SchemaTypegen

open Files
open MonadExcept (ofExcept)

/-- What the program is asked to do. -/
inductive Command where
  /-- Make declarations, and write them to a file if one is given. -/
  | transpile (input : String) (out : Option String) (options : Options)
  /-- Print the definitions in flat form. -/
  | tokens (input : String)
  /-- Give the resolved schema as JSON, in a file if one is given. -/
  | model (input : String) (out : Option String)
  deriving DecidableEq, Repr

/-- What the program reports. -/
structure Report where
  code : Nat := 0
  stdout : String := ""
  stderr : String := ""
  deriving DecidableEq, Repr

/-- The report of a failure. -/
def Report.failure (message : String) : Report where
  code := 1
  stderr := "[Error]: " ++ message ++ "\n"

namespace Command

/-- The flat form of definitions: root operations first, one definition a line. -/
def flatLines (definitions : List Definition) : String :=
  let doc := Document.ofDefinitions definitions
  String.join ((doc.roots ++ doc.types).map fun d => d.flat ++ "\n")

/-- The resolved schema of a schema file. -/
def readModel (t : Tree) (input : String) : Except Error Schema := do
  let definitions ← readDefinitions t input
  Schema.ofDocument (Document.ofDefinitions definitions)

/-- What a command does, at a given time: it succeeds with a report or fails with a message. -/
def action (now : Moment) : Command → Action String Report
  | transpile input (some out) options => do
    let output ← (Action.typegenFile input out options now).adaptExcept Error.report
    return { stderr := "Transpiled " ++ toString output.declarations ++
      " type definitions into " ++ out ++ "\n" }
  | transpile input none options => EStateM.adaptExcept Error.report do
    let source ← Action.ask (readSchema · input)
    let output ← ofExcept (typegen source options now)
    return { stdout := output.text }
  | tokens input => EStateM.adaptExcept Error.report do
    let definitions ← Action.ask (readDefinitions · input)
    return { stdout := flatLines definitions }
  | model input out => do
    let schema ← (Action.ask (readModel · input)).adaptExcept Error.report
    match out with
    | none => return { stdout := schema.toJson.pretty ++ "\n" }
    | some out =>
      (Action.write out schema.toJson.pretty).adaptExcept fun failure =>
        "failed to write " ++ out ++ ": " ++ failure.cause.text
      return {}

/-- Does what a command asks for, at a given time: what is reported, and the tree that is left. -/
def run (t : Tree) (now : Moment) (c : Command) : Report × Tree :=
  match (c.action now).run t with
  | .ok report t' => (report, t')
  | .error message t' => (.failure message, t')

end Command

end SchemaTypegen
