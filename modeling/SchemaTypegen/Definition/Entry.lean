import SchemaTypegen.Lexeme

/-!
# Entries of a block

How the lexemes of a block of fields make up its entries. An entry is held as the lexemes written
so far, commas between arguments included where the source left them out, together with how far
its type and the type of its current argument have come.
-/

namespace SchemaTypegen

/-- Progress through one type signature. -/
inductive Cursor where
  /-- No colon yet. -/
  | idle
  /-- After the colon, inside `depth` brackets. -/
  | reading (depth : Nat)
  /-- The name, or the outermost closing bracket, has been read. -/
  | complete
  deriving DecidableEq, Repr

namespace Cursor

/-- A name ends the signature unless it stands inside brackets. -/
def name : Cursor → Cursor
  | reading 0 => complete
  | cursor => cursor

/-- An opening bracket. -/
def openList? : Cursor → Option Cursor
  | reading depth => some (reading (depth + 1))
  | _ => none

/-- A closing bracket; the outermost one ends the signature. -/
def closeList? : Cursor → Option Cursor
  | reading 1 => some complete
  | reading (depth + 2) => some (reading (depth + 1))
  | _ => none

end Cursor

/-- A field entry in the making. -/
structure Entry where
  /-- The lexemes that make up the entry. -/
  written : List Lexeme := []
  /-- Progress through the field's own type. -/
  field : Cursor := .idle
  /-- Progress through the type of the current argument, inside parentheses. -/
  argument : Option Cursor := none
  deriving DecidableEq, Repr

namespace Entry

/-- The text of an entry: its lexemes with nothing between them. -/
def text (e : Entry) : String := String.join (e.written.map Lexeme.text)

/-- The entry with one more lexeme. -/
def push (e : Entry) (l : Lexeme) : Entry := { e with written := e.written ++ [l] }

/-- The cursor of the side being read: the argument's inside parentheses, else the field's. -/
def cursor (e : Entry) : Cursor := e.argument.getD e.field

/-- Moves the cursor of the side being read. -/
def setCursor (e : Entry) (c : Cursor) : Entry :=
  match e.argument with
  | some _ => { e with argument := some c }
  | none => { e with field := c }

/-- Whether the last lexeme is one of the marks. -/
def endsIn (e : Entry) (marks : List Mark) : Bool :=
  match e.written.getLast? with
  | some (.mark m) => marks.contains m
  | _ => false

/-- Whether an argument's name would stand where the list of arguments begins, or after a comma. -/
def atArgument (e : Entry) : Bool := e.endsIn [.openParen, .comma]

/-- What a lexeme makes of an entry. -/
inductive Step where
  /-- The entry goes on. -/
  | same (e : Entry)
  /-- The entry was complete, and another one begins. -/
  | next (e : Entry)
  deriving DecidableEq, Repr

/-- A name: of a field, of an argument, or of a type. A comma is supplied before an argument whose
predecessor is complete. -/
def readName? (e : Entry) (name : String) : Option Step :=
  match e.argument with
  | some .complete =>
    some (.same { (e.push (.mark .comma)).push (.name name) with argument := some .idle })
  | some (.reading depth) =>
    some (.same { e.push (.name name) with argument := some (Cursor.reading depth).name })
  | some .idle => if e.atArgument then some (.same (e.push (.name name))) else none
  | none =>
    match e.field with
    | .complete => some (.next { written := [.name name] })
    | .reading depth =>
      some (.same { e.push (.name name) with field := (Cursor.reading depth).name })
    | .idle => if e.written.isEmpty then some (.same (e.push (.name name))) else none

/-- A colon, after the name of a field or of an argument. -/
def readColon? (e : Entry) : Option Step :=
  let named := if e.argument.isSome then !e.atArgument else !e.written.isEmpty
  if e.cursor = .idle ∧ named then some (.same ((e.setCursor (.reading 0)).push (.mark .colon)))
  else none

/-- A comma: it ends an argument or an entry, and is passed over where neither has begun its
type. -/
def readComma? (e : Entry) : Option Step :=
  match e.argument with
  | some .complete => some (.same { e.push (.mark .comma) with argument := some .idle })
  | some (.reading _) => none
  | some .idle => some (.same e)
  | none => some (if e.field = .complete then .next {} else .same e)

/-- A mark, where it may stand. -/
def readMark? (e : Entry) : Mark → Option Step
  | .colon => e.readColon?
  | .comma => e.readComma?
  | .openBracket =>
    e.cursor.openList?.map fun c => .same ((e.setCursor c).push (.mark .openBracket))
  | .closeBracket =>
    e.cursor.closeList?.map fun c => .same ((e.setCursor c).push (.mark .closeBracket))
  | .bang =>
    if e.cursor ≠ .idle ∧ ¬ e.endsIn [.bang, .openBracket, .colon] then
      some (.same (e.push (.mark .bang)))
    else none
  | .openParen =>
    if e.argument = none ∧ e.field = .idle ∧ e.written ≠ [] then
      some (.same { e.push (.mark .openParen) with argument := some .idle })
    else none
  | .closeParen =>
    match e.argument with
    | some (.reading _) | none => none
    | some _ => some (.same { e.push (.mark .closeParen) with argument := none })
  | _ => none

/-- One lexeme of a block, other than the brace that closes it. `none` when it cannot stand
there. -/
def read? (e : Entry) : Lexeme → Option Step
  | .name name => e.readName? name
  | .mark m => e.readMark? m

end Entry

end SchemaTypegen
