import SchemaTypegen.Command.Arguments
import Std.Time.Zoned

/-!
# The program

Around `Invocation.run`: the part of the file system that the arguments mention is read into a tree,
and what the run changed in it is written back.
-/

namespace SchemaTypegen.Main

open Files

/-- The absolute path of a location. -/
def pathOf (location : Location) : String := "/" ++ "/".intercalate location

/-- What the file system has at a location, as far as it can be read. -/
def nodeAt (location : Location) : IO (Option Node) := do
  try
    let path ← IO.FS.realPath (pathOf location)
    if ← path.isDir then return some .directory
    return some (.file (.ofBytes (← IO.FS.readBinFile path).toList))
  catch _ => return none

/-- The locations that following a path may pass through. -/
def passed (t : Tree) (path : String) : List Location :=
  let steps := Path.steps path
  let start := if steps.head? = some "" then [] else t.cwd
  (List.range (steps.length + 1)).map fun n => Tree.locate start (steps.take n)

/-- The paths that an invocation mentions. -/
def mentioned : Invocation → List String
  | .command _ (.transpile input out _) | .command _ (.model input out) => input :: out.toList
  | .command _ (.tokens input) => [input]
  | .help | .version | .usage => []

/-- Adds what is at a location to a tree. -/
def look (t : Tree) (location : Location) : IO Tree := do
  match ← nodeAt location with
  | some node => return t.set location node
  | none => return t

/-- The working directory and everything on the way of the mentioned paths. -/
def snapshot (invocation : Invocation) : IO Tree := do
  let cwd := (Path.steps (← IO.currentDir).toString).filter (!Path.isStill ·)
  let t := Tree.workingIn cwd
  ((mentioned invocation).flatMap (passed t)).foldlM look t

/-- Writes the files that a run changed, each to a fresh file that then takes its place. -/
def apply (before after : Tree) : IO Unit := do
  for (location, node) in after.nodes.entries do
    match node with
    | .file (.text text) =>
      if before.get? location ≠ some node then
        let staged := pathOf location.dropLast ++ "/.staged" ++ toString (← IO.monoNanosNow)
        IO.FS.writeFile staged text
        IO.FS.rename staged (pathOf location)
    | _ => pure ()

/-- The local time, or universal time where the local zone is not known. -/
def now : IO Moment := do
  let time ← try Std.Time.PlainDateTime.now
    catch _ => do
      let stamp ← Std.Time.Timestamp.now
      pure (.ofWallTime (.ofTimestamp stamp .zero))
  return ⟨time.year.toNat, time.month.val.toNat, time.day.val.toNat, time.hour.val.toNat,
    time.minute.val.toNat, time.second.val.toNat⟩

end SchemaTypegen.Main

open SchemaTypegen in
/-- Runs the program on its arguments. -/
def main (args : List String) : IO UInt32 := do
  let invocation := Invocation.ofArguments args
  let before ← Main.snapshot invocation
  let (report, after) := invocation.run before (← Main.now)
  Main.apply before after
  IO.print report.stdout
  IO.eprint report.stderr
  return report.code.toUInt32
