import SchemaTypegen.Files.Tree

/-!
# Actions on a tree

An action succeeds or fails, and it leaves a tree behind in both cases: what it did before it failed
stays done unless it is undone. A text is written in steps. It goes into a new file in the target's
directory, and that file is moved to the target's place. When it cannot be moved it is removed.
-/

namespace SchemaTypegen.Files

open MonadExcept (ofExcept)
open SchemaTypegen.Files.Path

/-- Something done to a tree. It succeeds or fails, and leaves a tree either way. -/
abbrev Action (ε : Type) : Type → Type := EStateM ε Tree

namespace Action

variable {ε α : Type}

/-- Looks something up in the tree. -/
def ask (f : Tree → Except ε α) : Action ε α := do
  ofExcept (f (← get))

/-- Makes an empty file with a new name, in the directory where the text for a path is staged. -/
def create (path : String) : Action Failure Location := do
  let directory ← ask (·.stage path)
  let location := directory ++ [Tree.freshName ((← get).names ++ steps path)]
  modify (·.set location (.file (.text "")))
  return location

/-- Puts a text into the file at a location. -/
def fill (location : Location) (text : String) : Action ε Unit :=
  modify (·.set location (.file (.text text)))

/-- Moves what is at a location to the place that a path names. -/
def rename (location : Location) (path : String) : Action Failure Unit := do
  let destination ← ask (·.target path)
  modify (·.move location destination)

/-- Takes away what is at a location. -/
def remove (location : Location) : Action ε Unit := modify (·.erase location)

/-- Writes a text to a path: into a new file, which then takes the target's place. The new file does
not outlive a failure. -/
def write (path text : String) : Action WriteFailure Unit := do
  let staged ← (create path).adaptExcept (WriteFailure.mk .stage)
  try
    fill staged text
    (rename staged path).adaptExcept (WriteFailure.mk .replace)
  catch failure =>
    remove staged
    throw failure

/-- What an action gives and the tree it leaves, if it succeeds. -/
def result (a : Action ε α) (t : Tree) : Except ε (α × Tree) :=
  match a.run t with
  | .ok x t' => .ok (x, t')
  | .error e _ => .error e

end Action

/-- The tree after a text was written to a path, if it could be. -/
def Tree.write (t : Tree) (path text : String) : Except WriteFailure Tree :=
  ((Action.write path text).result t).map Prod.snd

end SchemaTypegen.Files
