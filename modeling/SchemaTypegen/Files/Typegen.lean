import SchemaTypegen.Files.Action
import SchemaTypegen.Typegen

/-!
# Schema files and output files

Reading a schema from a `.graphql` file and writing declarations to a `.ts` file. The output's path
is looked at before anything is read, and writing is the last thing that is done.
-/

namespace SchemaTypegen.Files

open MonadExcept (ofExcept)
open SchemaTypegen.Files.Path

/-- The text of a schema file. -/
def readSchema (t : Tree) (path : String) : Except Error String :=
  if extension? path = some "graphql" then
    match t.read path with
    | .ok source => .ok source
    | .error cause => .error (.schemaRead path cause)
  else .error (.schemaFormat path)

/-- The definitions of a schema file. -/
def readDefinitions (t : Tree) (path : String) : Except Error (List Definition) :=
  readSchema t path >>= Source.definitions

/-- Accepts the path of an output file. -/
def checkOutput (path : String) : Except Error Unit :=
  if extension? path = some "ts" then .ok () else .error (.outputFormat path)

namespace Action

/-- Writes declarations to an output file. -/
def writeOutput (path text : String) : Action Error Unit := do
  ofExcept (checkOutput path)
  (write path text).adaptExcept (.outputWrite path)

/-- Reads a schema file and writes its declarations to an output file. -/
def typegenFile (input output : String) (options : Options) (now : Moment) :
    Action Error Output := do
  ofExcept (checkOutput output)
  let source ← ask (readSchema · input)
  let result ← ofExcept (typegen source options now)
  writeOutput output result.text
  return result

end Action

/-- The tree after declarations were written to an output file, if they could be. -/
def writeOutput (t : Tree) (path text : String) : Except Error Tree :=
  ((Action.writeOutput path text).result t).map Prod.snd

/-- The declarations of a schema file and the tree after they were written to an output file, if
they could be. -/
def typegenFile (t : Tree) (input output : String) (options : Options) (now : Moment) :
    Except Error (Output × Tree) :=
  (Action.typegenFile input output options now).result t

end SchemaTypegen.Files
