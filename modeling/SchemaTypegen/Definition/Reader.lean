import SchemaTypegen.Definition
import SchemaTypegen.Definition.Entry

/-!
# Reading definitions

A machine over lexemes that waits for one of the declaration keywords outside all braces, reads the
declaration it begins, and waits again. What stands between declarations is skipped. A union has no
closing mark: the keyword of the next construct ends it, and that keyword is then read again from
the waiting state.
-/

namespace SchemaTypegen

open Text

/-- Names that begin a construct which is skipped, but which ends a union before it. -/
def isSkippedKeyword (name : String) : Bool :=
  sameLetters "scalar" name || sameLetters "schema" name || sameLetters "extend" name

/-- Whether a name is one of the declaration keywords. -/
def isDeclarationKeyword (name : String) : Bool := (Keyword.ofName? name).isSome

namespace Reader

/-- A declaration whose end has not been read. -/
structure Pending where
  keyword : Keyword
  /-- The keyword as it is written in the source. -/
  spelling : String
  label : String
  entries : List String
  line : Nat
  deriving DecidableEq, Repr

namespace Pending

/-- Adds an entry. -/
def add (d : Pending) (entry : String) : Pending := { d with entries := d.entries ++ [entry] }

/-- The definition, once its end has been read. -/
def finish (d : Pending) : Definition where
  keyword := d.spelling
  label := d.label
  entries := d.entries
  line := d.line

end Pending

/-- Where the machine stands. -/
inductive State where
  /-- Between declarations, inside `depth` open braces. -/
  | seeking (depth : Nat)
  /-- After a declaration keyword. -/
  | label (keyword : Keyword) (spelling : String) (line : Nat)
  /-- After the label; `implementing` once the list of interfaces has begun. -/
  | heading (d : Pending) (implementing : Bool)
  /-- Inside a block of fields. -/
  | fields (d : Pending) (entry : Entry)
  /-- Inside the block of an enum. -/
  | members (d : Pending)
  /-- After the `=` of a union; `expecting` when a member has to follow. -/
  | alternatives (d : Pending) (expecting : Bool)
  deriving DecidableEq, Repr

/-- What a lexeme does. -/
inductive Step where
  /-- The lexeme is read; it may have finished a definition. -/
  | next (state : State) (finished : Option Definition)
  /-- The definition ended before the lexeme, which is to be read again between declarations. -/
  | again (finished : Definition)
  deriving DecidableEq, Repr

/-- Goes on without a finished definition. -/
def proceed (state : State) : Except Error Step := .ok (.next state none)

/-- Finishes a definition and goes back to waiting. -/
def finish (d : Pending) : Except Error Step := .ok (.next (.seeking 0) (some d.finish))

/-- A malformed definition. -/
def fail {α : Type} (line : Nat) (fault : Fault) : Except Error α := .error (.malformed line fault)

/-- Between declarations. -/
def seek (depth : Nat) (line : Nat) : Lexeme → State
  | .name name =>
    match depth, Keyword.ofName? name with
    | 0, some keyword => .label keyword name line
    | _, _ => .seeking depth
  | .mark .openBrace => .seeking (depth + 1)
  | .mark .closeBrace => .seeking (depth - 1)
  | .mark _ => .seeking depth

/-- After the label of a declaration. -/
def head (d : Pending) (implementing : Bool) (line : Nat) (l : Lexeme) : Except Error Step :=
  match d.keyword, l with
  | .union, .mark .equals => proceed (.alternatives d true)
  | .union, _ => fail line (.equalsExpected d.label)
  | .enum, .mark .openBrace => proceed (.members d)
  | _, .mark .openBrace => proceed (.fields d {})
  | .type, .name name | .interface, .name name =>
    if implementing then
      if isDeclarationKeyword name then fail line (.blockExpected d.label)
      else proceed (.heading d true)
    else if sameLetters "implements" name then proceed (.heading d true)
    else fail line (.blockExpected d.label)
  | .type, .mark .ampersand | .interface, .mark .ampersand =>
    if implementing then proceed (.heading d true) else fail line (.blockExpected d.label)
  | _, _ => fail line (.blockExpected d.label)

/-- Inside a block of fields. -/
def block (d : Pending) (e : Entry) (line : Nat) (l : Lexeme) : Except Error Step :=
  if l = .mark .closeBrace ∧ e.argument = none then
    if e.written = [] then finish d
    else if e.field = .complete then finish (d.add e.text)
    else fail line (.untypedField e.text d.label)
  else match e.read? l with
    | some (.same e') => proceed (.fields d e')
    | some (.next e') => proceed (.fields (d.add e.text) e')
    | none => fail line (.unexpectedInBlock l.text d.label)

/-- Inside the block of an enum. -/
def member (d : Pending) (line : Nat) : Lexeme → Except Error Step
  | .name name => proceed (.members (d.add name))
  | .mark .comma => proceed (.members d)
  | .mark .closeBrace => finish d
  | .mark m => fail line (.unexpectedInEnum m.char d.label)

/-- Among the members of a union. -/
def alternative (d : Pending) (expecting : Bool) (line : Nat) (l : Lexeme) : Except Error Step :=
  match expecting, l with
  | true, .name name => proceed (.alternatives (d.add name) false)
  | true, .mark .bar =>
    if d.entries = [] then proceed (.alternatives d true) else fail line (.emptyMember d.label)
  | true, .mark _ => fail line (.memberExpected d.label)
  | false, .mark .bar => proceed (.alternatives d true)
  | false, .name name =>
    if isDeclarationKeyword name || isSkippedKeyword name then .ok (.again d.finish)
    else fail line (.barExpected name d.label)
  | false, .mark m => fail line (.unexpectedInUnion m.char d.label)

/-- One lexeme. -/
def State.step (state : State) (p : Placed) : Except Error Step :=
  match state with
  | .seeking depth => proceed (seek depth p.line p.lexeme)
  | .label keyword spelling line =>
    match p.lexeme with
    | .name name => proceed (.heading ⟨keyword, spelling, name, [], line⟩ false)
    | .mark _ => fail p.line (.labelExpected spelling)
  | .heading d implementing => head d implementing p.line p.lexeme
  | .fields d e => block d e p.line p.lexeme
  | .members d => member d p.line p.lexeme
  | .alternatives d expecting => alternative d expecting p.line p.lexeme

/-- The end of the text: it may stand between declarations, and ends a complete union. -/
def State.close : State → Except Error (List Definition)
  | .seeking _ => .ok []
  | .alternatives d false => .ok [d.finish]
  | .label _ spelling line => fail line (.labelMissing spelling)
  | .heading d _ | .fields d _ | .members d | .alternatives d true =>
    fail d.line (.unterminated d.label)

/-- How many times a lexeme may yet be read again: a union may end before it. -/
def State.rereads : State → Nat
  | .alternatives _ _ => 1
  | _ => 0

/-- A lexeme is read again only when it ends a union. -/
theorem rereads_of_again {state : State} {p : Placed} {d : Definition}
    (h : state.step p = .ok (.again d)) : state.rereads = 1 := by
  cases state with
  | alternatives _ _ => rfl
  | seeking _ => simp [State.step, proceed] at h
  | label _ _ _ =>
    simp only [State.step] at h
    split at h <;> simp [proceed, fail] at h
  | heading _ _ =>
    simp only [State.step, head] at h
    repeat' split at h
    all_goals simp [proceed, fail] at h
  | fields _ _ =>
    simp only [State.step, block] at h
    repeat' split at h
    all_goals simp [proceed, fail, finish] at h
  | members _ =>
    simp only [State.step, member] at h
    split at h <;> simp [proceed, fail, finish] at h

/-- The definitions that the remaining lexemes make up, from a state of the machine. -/
def run (state : State) (lexemes : List Placed) : Except Error (List Definition) :=
  match lexemes with
  | [] => state.close
  | p :: rest =>
    match _ : state.step p with
    | .error e => .error e
    | .ok (.next state' finished) => (run state' rest).map (finished.toList ++ ·)
    | .ok (.again finished) => (run (.seeking 0) (p :: rest)).map (finished :: ·)
  termination_by (lexemes.length, state.rereads)
  decreasing_by
    · exact Prod.Lex.left _ _ (Nat.lt_succ_self _)
    · have rereads : state.rereads = 1 := rereads_of_again ‹_›
      exact Prod.Lex.right _ (rereads ▸ Nat.zero_lt_one)

end Reader

/-- The definitions of a source, in order. -/
def Source.definitions (source : String) : Except Error (List Definition) :=
  Source.lex (stripMarkers source) >>= Reader.run (.seeking 0)

/-- The document of a source. -/
def Document.ofSource (source : String) : Except Error Document :=
  (Source.definitions source).map Document.ofDefinitions

end SchemaTypegen
