import SchemaTypegen.Catalog
import SchemaTypegen.Files.Failure
import SchemaTypegen.Files.Path

/-!
# Directory trees

A tree of directories and files with a working directory, what paths lead to in it, and changing
what is at a location. What is done to a tree step by step is in `SchemaTypegen.Files.Action`.

* `get?_set`: what is at the other locations stays.
* `set_set`, `erase_set`: what was put at a new location is replaced, or taken away without a trace.
-/

namespace SchemaTypegen.Files

open SchemaTypegen.Files.Path

/-- The names on the way from the root, outermost first. -/
abbrev Location := List String

/-- What a file holds: a text, or bytes that are none. -/
inductive Content where
  | text (s : String)
  | binary (bytes : List UInt8)
  deriving DecidableEq, Repr

/-- Bytes are a text when they are UTF-8. -/
def Content.ofBytes (bytes : List UInt8) : Content :=
  match String.fromUTF8? ⟨bytes.toArray⟩ with
  | some s => .text s
  | none => .binary bytes

/-- What is at a location. -/
inductive Node where
  | directory
  | file (content : Content)
  deriving DecidableEq, Repr

/-- A tree and the location that relative paths start from. The root is always a directory. -/
structure Tree where
  cwd : Location
  nodes : Catalog Location Node
  deriving DecidableEq, Repr

namespace Tree

/-- The node at a location. -/
def get? (t : Tree) : Location → Option Node
  | [] => some .directory
  | location => t.nodes.get? location

/-- The tree with a node at a location. -/
def set (t : Tree) (location : Location) (node : Node) : Tree :=
  { t with nodes := t.nodes.insert location node }

/-- The tree without what is at a location. -/
def erase (t : Tree) (location : Location) : Tree :=
  { t with nodes := t.nodes.erase location }

/-- The tree with what is at one location moved to another. -/
def move (t : Tree) (source destination : Location) : Tree :=
  match t.get? source with
  | some node => (t.erase source).set destination node
  | none => t

/-- Every name in a tree, those on the way to the working directory included. -/
def names (t : Tree) : List String := t.cwd ++ t.nodes.keys.flatten

theorem get?_set {t : Tree} {location : Location} (node : Node) {other : Location}
    (h : location ≠ other) : (t.set location node).get? other = t.get? other := by
  unfold get?
  split
  · rfl
  · simp [set, Catalog.get?_insert, h]

theorem set_set (t : Tree) (location : Location) (node node' : Node) :
    (t.set location node).set location node' = t.set location node' := by
  simp [set, Catalog.insert_insert]

theorem erase_set {t : Tree} {location : Location} (fresh : location ∉ t.nodes.keys) (node : Node) :
    (t.set location node).erase location = t := by
  simp [set, erase, Catalog.erase_insert fresh]

/-! ## Walking -/

/-- Takes steps from a location, each of which has to start in a directory. A name is looked up only
when it is not too long. -/
def walk (t : Tree) : Location → List String → Except Failure Location
  | location, [] => .ok location
  | location, step :: rest =>
    match t.get? location with
    | none => .error .notFound
    | some (.file _) => .error .notADirectory
    | some .directory =>
      if isStill step then t.walk location rest
      else if step = ".." then t.walk location.dropLast rest
      else if maxNameBytes < step.utf8ByteSize then .error .nameTooLong
      else
        match t.get? (location ++ [step]) with
        | none => .error .notFound
        | some _ => t.walk (location ++ [step]) rest

/-- Takes the steps of a path, from the root or from the working directory. -/
def resolve (t : Tree) (steps : List String) : Except Failure Location :=
  t.walk (if steps.head? = some "" then [] else t.cwd) steps

/-- The directory that steps lead to. -/
def directory (t : Tree) (steps : List String) : Except Failure Location := do
  let location ← t.resolve steps
  match t.get? location with
  | some .directory => return location
  | some (.file _) => throw .notADirectory
  | none => throw .notFound

/-! ## What paths lead to -/

/-- The text of the file at a path. -/
def read (t : Tree) (path : String) : Except Failure String :=
  match refusal? path with
  | some cause => .error cause
  | none => do
    let location ← t.resolve (steps path)
    match t.get? location with
    | some (.file (.text text)) => return text
    | some (.file (.binary _)) => throw .notText
    | some .directory => throw .isADirectory
    | none => throw .notFound

/-- The working directory as a path. -/
def cwdPath (t : Tree) : String := "/" ++ "/".intercalate t.cwd

/-- The directory in which the text for a path is staged, as a path from the root. -/
def stagingPath (t : Tree) (path : String) : String := join t.cwdPath (parent path)

/-- The name of a file that a text is staged in. Its last six letters stand for any others, so what
matters of it is its length. -/
def stagedName : String := ".tmpXXXXXX"

/-- A name for a new file, apart from those that are taken: `stagedName`, and with more letters than
all of them have if that is among them. -/
def freshName (taken : List String) : String :=
  if stagedName ∈ taken then
    stagedName ++ String.ofList (List.replicate (taken.flatMap String.toList).length 'X')
  else stagedName

/-- The directory in which the text for a path is staged. The path of the fresh file there must not
be too long either. -/
def stage (t : Tree) (path : String) : Except Failure Location :=
  match refusal? (join (t.stagingPath path) stagedName) with
  | some cause => .error cause
  | none => t.directory (steps (t.stagingPath path))

/-- The location a file is moved to. It must be no directory, and the path must end in a name. -/
def target (t : Tree) (path : String) : Except Failure Location :=
  match refusal? path with
  | some cause => .error cause
  | none =>
    match (steps path).reverse.dropWhile (· == "") with
    | [] => .error .busy
    | name :: above => do
      let location ← t.directory above.reverse
      if name = "." ∨ name = ".." then throw .busy
      if maxNameBytes < name.utf8ByteSize then throw .nameTooLong
      if (steps path).getLast? = some "" then throw .notADirectory
      match t.get? (location ++ [name]) with
      | some .directory => throw .isADirectory
      | _ => return location ++ [name]

/-! ## Making and listing -/

/-- The location of steps that are taken whatever is there. -/
def locate (start : Location) : List String → Location
  | [] => start
  | step :: rest =>
    if isStill step then locate start rest
    else if step = ".." then locate start.dropLast rest
    else locate (start ++ [step]) rest

/-- Every location on the way to a location, itself last. -/
def onTheWay (location : Location) : List Location :=
  (List.range location.length).map fun n => location.take (n + 1)

/-- The tree with a directory at a location, and with the directories above it. -/
def withDirectory (t : Tree) (location : Location) : Tree :=
  (onTheWay location).foldl (fun t l => if (t.get? l).isSome then t else t.set l .directory) t

/-- The tree with a file at a location, and with the directories above it. -/
def withFile (t : Tree) (location : Location) (content : Content) : Tree :=
  (t.withDirectory location.dropLast).set location (.file content)

/-- A tree that holds a working directory and nothing else. -/
def workingIn (cwd : Location) : Tree := withDirectory ⟨cwd, Catalog.empty⟩ cwd

/-- The location a path names. -/
def locationOf (t : Tree) (path : String) : Location :=
  locate (if (steps path).head? = some "" then [] else t.cwd) (steps path)

/-- Everything below the working directory, by its path from there; the path of a directory ends in
a slash. Paths are in the order of their characters. -/
def listing (t : Tree) : List (String × Node) :=
  let below := t.nodes.entries.filterMap fun (location, node) =>
    if location.take t.cwd.length = t.cwd ∧ t.cwd.length < location.length then
      let path := "/".intercalate (location.drop t.cwd.length)
      some (if node = .directory then path ++ "/" else path, node)
    else none
  below.mergeSort fun a b => decide (a.1 ≤ b.1)

end Tree

end SchemaTypegen.Files
