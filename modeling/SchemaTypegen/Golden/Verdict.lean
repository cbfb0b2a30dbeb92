import SchemaTypegen.Command
import SchemaTypegen.Golden.Manifest

/-!
# Verdicts on golden cases

A case that expects declarations passes when the output for its schema is the expected text, with
the header taken off and without a header alike, when a second run gives the same, and when every
exported label is exported once. A case that expects an error passes when the error is of that kind.
-/

namespace SchemaTypegen.Golden

open Files

/-- Why a case fails. -/
inductive Complaint where
  /-- The schema file cannot be read, or a second run on it fails. -/
  | broken (e : Error)
  /-- The file with the expected declarations cannot be read. -/
  | expectedFile (cause : Failure)
  | mismatch (expected actual : String)
  | headerDisturbs
  | rerunDiffers
  | repeatedExport (label : String)
  | miscounted (exports declarations : Nat)
  | otherError (expected : String) (e : Error)
  | noError (expected : String)
  | unexpectedError (e : Error)
  /-- The case expects both declarations and an error, or neither. -/
  | unclear
  deriving DecidableEq, Repr

/-- The wording of a complaint. -/
def Complaint.message : Complaint → String
  | .broken e => e.message
  | .expectedFile cause => "expected file: " ++ cause.text
  | .mismatch expected actual =>
    "output mismatch\n--- expected\n" ++ expected ++ "\n--- actual\n" ++ actual
  | .headerDisturbs => "header-less output differs from expected"
  | .rerunDiffers => "rerun is not byte-identical"
  | .repeatedExport label => "`" ++ label ++ "` emitted more than once"
  | .miscounted exports declarations =>
    toString exports ++ " exports but " ++ toString declarations ++ " declarations reported"
  | .otherError expected e => "expected " ++ expected ++ ", got " ++ e.kind ++ ": " ++ e.message
  | .noError expected => "expected " ++ expected ++ ", but transpiling succeeded"
  | .unexpectedError e => "unexpected " ++ e.kind ++ ": " ++ e.message
  | .unclear => "a case needs exactly one of `expected` or `error`"

/-! ## Looking at an output -/

/-- What follows the end of a comment, if that end is the end of a line. -/
def afterComment? : List Char → Option (List Char)
  | [] => none
  | '*' :: '/' :: '\n' :: rest => some rest
  | _ :: rest => afterComment? rest

/-- A text without the comment it begins with and the blank line after it. -/
def withoutHeader (text : String) : String :=
  match text.toList with
  | '/' :: '*' :: rest =>
    match afterComment? rest with
    | some ('\n' :: body) => String.ofList body
    | some body => String.ofList body
    | none => text
  | _ => text

/-- What follows a word at the start of a line. -/
def afterWord? (word line : List Char) : Option (List Char) :=
  if word.isPrefixOf line then some (line.drop word.length) else none

/-- The label a line exports. Labels are ASCII names, as every name of a schema is. -/
def exportedLabel? (line : List Char) : Option String := do
  let rest ← afterWord? "export ".toList line
  let rest ← ["interface ", "enum ", "type "].findSome? fun word => afterWord? word.toList rest
  let label := rest.takeWhile Text.isNameChar
  if label.isEmpty then none else some (String.ofList label)

/-- The labels a text exports, in order. -/
def exportedLabels (text : String) : List String :=
  (Text.pieces (· == '\n') text.toList).filterMap exportedLabel?

/-- Complains unless every label is exported once and all declarations are counted. -/
def checkExports (output : Output) : Except Complaint Unit :=
  let labels := exportedLabels output.text
  match Resolve.firstRepeated? [] labels with
  | some label => .error (.repeatedExport label)
  | none =>
    if labels.length = output.declarations then .ok ()
    else .error (.miscounted labels.length output.declarations)

/-! ## Cases -/

/-- Complains unless the output is the expected text. -/
def checkOutput (source expected : String) (order : Order) (headed bare : Output) (now : Moment) :
    Except Complaint Unit := do
  let stripped := withoutHeader headed.text
  if stripped ≠ expected then throw (.mismatch expected stripped)
  if bare.text ≠ expected then throw .headerDisturbs
  match typegen source { Options.bare with order } now with
  | .error e => throw (.broken e)
  | .ok rerun =>
    if rerun ≠ bare then throw .rerunDiffers
    checkExports bare

/-- The verdict on a case, given the text of its schema. -/
def Case.judge (c : Case) (t : Tree) (directory source : String) (now : Moment) :
    Except Complaint Unit :=
  let headed := typegen source { order := c.order } now
  let bare := typegen source { Options.bare with order := c.order } now
  match c.expected, c.error, headed, bare with
  | some expected, none, .ok headed, .ok bare =>
    match t.read (Path.join directory expected) with
    | .ok text => checkOutput source text c.order headed bare now
    | .error cause => .error (.expectedFile cause)
  | none, some kind, .error e, _ => if e.kind = kind then .ok () else .error (.otherError kind e)
  | none, some kind, .ok _, _ => .error (.noError kind)
  | some _, none, .error e, _ | some _, none, _, .error e => .error (.unexpectedError e)
  | _, _, _, _ => .error .unclear

/-- The verdict on a case whose files are in a directory. -/
def Case.verdict (c : Case) (t : Tree) (directory : String) (now : Moment) :
    Except Complaint Unit :=
  match readSchema t (Path.join directory c.schema) with
  | .ok source => c.judge t directory source now
  | .error e => .error (.broken e)

/-- The line of a case. -/
def Case.line (c : Case) (verdict : Except Complaint Unit) : String :=
  match verdict with
  | .ok () => "✅ " ++ c.name ++ "\n"
  | .error complaint => "❌ " ++ c.name ++ ": " ++ complaint.message ++ "\n"

/-- The report on the cases whose manifest is in a directory. -/
def run (t : Tree) (directory : String) (now : Moment) : Report :=
  match t.read (Path.join directory "manifest.json") with
  | .error cause => { code := 101, stderr := "manifest: " ++ cause.text ++ "\n" }
  | .ok text =>
    match manifest? text with
    | none => { code := 2, stderr := "❌ invalid manifest\n" }
    | some cases =>
      let verdicts := cases.map fun c => (c, c.verdict t directory now)
      let failed := verdicts.countP fun (_, verdict) => !verdict.isOk
      { code := if failed = 0 then 0 else 1
        stderr := String.join (verdicts.map fun (c, verdict) => c.line verdict) ++
          toString (cases.length - failed) ++ " passed, " ++ toString failed ++ " failed\n" }

end SchemaTypegen.Golden
