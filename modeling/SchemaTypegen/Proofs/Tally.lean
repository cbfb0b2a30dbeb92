import SchemaTypegen.Proofs.Division.Nesting
import SchemaTypegen.Proofs.Trace

/-!
# Entries by counts and flags

An entry in the making can be kept in another way: as its text, the number of open parentheses, and
for the type of the field and that of the current argument two flags and the number of open brackets
each. This `Tally` records the position in an entry three times over, and nothing in its type keeps
the records together. The counts are integers, so that a count can be taken below zero.

`Tally.read?` tests now one record and now another, the last character of the text included.
`Entry.Tracks` says how a tally belongs to an entry, and the two stay together:

* `Tracks.follows_read?`: a lexeme does the same to an entry and to its tally, or is refused by
  both.
* **`Counted.alike_trace`**: the machine with tallies and the machine with entries finish the same
  definitions, refuse the same lexemes with the same faults, and end in states that belong together.
-/

namespace SchemaTypegen

open Text Grammar

/-- Progress through one type signature, by flags and a count. -/
structure Gauge where
  /-- The colon has been read. -/
  expecting : Bool := false
  /-- The number of open brackets. -/
  brackets : Int := 0
  /-- The signature is complete. -/
  done : Bool := false
  deriving DecidableEq, Repr

namespace Gauge

/-- After the colon. -/
def start : Gauge := { expecting := true }

/-- Between the colon and the end of the signature. -/
def inProgress (g : Gauge) : Bool := g.expecting && !g.done

/-- A name ends the signature unless brackets are open. -/
def name (g : Gauge) : Gauge := if g.brackets = 0 then { g with done := true } else g

/-- An opening bracket. -/
def openList? (g : Gauge) : Option Gauge :=
  if g.inProgress then some { g with brackets := g.brackets + 1 } else none

/-- A closing bracket; the signature is complete when none is open. -/
def closeList? (g : Gauge) : Option Gauge :=
  if g.inProgress = false ∨ g.brackets = 0 then none
  else some { g with brackets := g.brackets - 1, done := g.done || g.brackets - 1 == 0 }

end Gauge

/-- An entry in the making, by its text, counts and flags. -/
structure Tally where
  text : String := ""
  /-- The number of open parentheses. -/
  parens : Int := 0
  /-- Progress through the field's own type. -/
  field : Gauge := {}
  /-- Progress through the type of the current argument. -/
  argument : Gauge := {}
  deriving DecidableEq, Repr

namespace Tally

/-- The gauge of the side being read: the argument's inside parentheses, else the field's. -/
def gauge (t : Tally) : Gauge := if 0 < t.parens then t.argument else t.field

/-- Sets the gauge of the side being read. -/
def setGauge (t : Tally) (g : Gauge) : Tally :=
  if 0 < t.parens then { t with argument := g } else { t with field := g }

/-- The tally with more text. -/
def push (t : Tally) (text : String) : Tally := { t with text := t.text ++ text }

/-- Whether the text ends in one of the marks. -/
def endsIn (t : Tally) (marks : List Mark) : Bool := endsInMark t.text marks

/-- The argument before is complete: a comma is written, and the next one begins. -/
def nextArgument (t : Tally) : Tally := { t.push "," with argument := {} }

/-- A name inside parentheses: of an argument or of its type. -/
def readInside? (t : Tally) (name : String) : Option Tally :=
  let t := if t.argument.done then t.nextArgument else t
  if t.argument.inProgress then some { t.push name with argument := t.argument.name }
  else if t.argument.expecting || !t.endsIn [.openParen, .comma] then none
  else some (t.push name)

/-- A name: of a field, of an argument or of a type. The texts are those of the entries that are
complete by it. -/
def readName? (t : Tally) (name : String) : Option (List String × Tally) :=
  if 0 < t.parens then (t.readInside? name).map ([], ·)
  else if t.field.done then some ([t.text], push {} name)
  else if t.field.inProgress then some ([], { t.push name with field := t.field.name })
  else if t.text ≠ "" then none
  else some ([], t.push name)

/-- A colon, after the name of a field or of an argument. -/
def readColon? (t : Tally) : Option Tally :=
  if 0 < t.parens then
    if t.argument.expecting || t.endsIn [.openParen, .comma] then none
    else some { t.push ":" with argument := .start }
  else if t.field.expecting || t.text == "" then none
  else some { t.push ":" with field := .start }

/-- A comma, inside parentheses or between fields. -/
def readComma? (t : Tally) : Option (List String × Tally) :=
  if 0 < t.parens then
    if t.argument.done then some ([], t.nextArgument)
    else if t.argument.expecting then none
    else some ([], t)
  else if t.field.done then some ([t.text], {})
  else some ([], t)

/-- A mark, where it may stand. -/
def readMark? (t : Tally) : Mark → Option (List String × Tally)
  | .colon => t.readColon?.map ([], ·)
  | .comma => t.readComma?
  | .openBracket => t.gauge.openList?.map fun g => ([], (t.setGauge g).push "[")
  | .closeBracket => t.gauge.closeList?.map fun g => ([], (t.setGauge g).push "]")
  | .bang =>
    if t.gauge.expecting = false ∨ t.endsIn [.bang, .openBracket, .colon] then none
    else some ([], t.push "!")
  | .openParen =>
    if 0 < t.parens ∨ t.field.expecting ∨ t.text = "" then none
    else some ([], { t.push "(" with parens := t.parens + 1, argument := {} })
  | .closeParen =>
    if t.parens = 0 ∨ t.argument.inProgress then none
    else some ([], { t.push ")" with parens := t.parens - 1 })
  | _ => none

/-- One lexeme of a block, other than the brace that closes it: the texts of the entries it
completes, and the tally after it. `none` when it cannot stand there. -/
def read? (t : Tally) : Lexeme → Option (List String × Tally)
  | .name name => t.readName? name
  | .mark m => t.readMark? m

theorem readInside?_of_done {t : Tally} (h : t.argument.done = true) (name : String) :
    t.readInside? name = some (t.nextArgument.push name) := by
  have last : (t.text ++ ",").toList.getLast? = some ',' := by
    rw [String.toList_append]
    exact List.getLast?_concat
  have ends : t.nextArgument.endsIn [.openParen, .comma] = true := by
    rw [endsIn, endsInMark, nextArgument, push, last]
    rfl
  simp only [readInside?, h, if_true, ends]
  rfl

theorem readInside?_of_idle {t : Tally} (h : t.argument = {}) (name : String) :
    t.readInside? name =
      if t.endsIn [.openParen, .comma] then some (t.push name) else none := by
  cases ends : t.endsIn [.openParen, .comma] <;> simp [readInside?, h, ends, Gauge.inProgress]

end Tally

/-! ## Entries and their tallies -/

/-- A cursor by flags and a count. -/
def Cursor.gauge : Cursor → Gauge
  | idle => {}
  | reading depth => { expecting := true, brackets := depth }
  | complete => { expecting := true, done := true }

theorem Cursor.name_gauge (depth : Nat) :
    (Cursor.reading depth).gauge.name = (Cursor.reading depth).name.gauge := by
  cases depth with
  | zero => rfl
  | succ depth => exact if_neg (Int.natCast_ne_zero.mpr (Nat.succ_ne_zero depth))

theorem Cursor.openList?_gauge (c : Cursor) : c.gauge.openList? = c.openList?.map gauge := by
  cases c <;> rfl

theorem Cursor.closeList?_gauge (c : Cursor) : c.gauge.closeList? = c.closeList?.map gauge := by
  cases c with
  | idle | complete => rfl
  | reading depth =>
    cases depth with
    | zero => rfl
    | succ depth =>
      rw [Entry.closeList?_reading_succ, Option.map_some, ← name_gauge]
      have open' : ((depth + 1 : Nat) : Int) ≠ 0 := Int.natCast_ne_zero.mpr (Nat.succ_ne_zero depth)
      have less : ((depth + 1 : Nat) : Int) - 1 = depth := by omega
      refine (if_neg (not_or.mpr ⟨Bool.noConfusion, open'⟩)).trans ?_
      refine (congrArg (fun n : Int => some (Gauge.mk true n (n == 0))) less).trans ?_
      cases depth <;> rfl

namespace Entry

/-- The tally is that of the entry. Outside parentheses the entry has no cursor for an argument, and
of the gauge that the tally still has only the count is known. -/
inductive Tracks : Entry → Tally → Prop where
  | outside {written : List Lexeme} {field : Cursor} {text : String} {argument : Gauge}
      (same : text = joinedText written) (flat : argument.brackets = 0) :
      Tracks ⟨written, field, none⟩ ⟨text, 0, field.gauge, argument⟩
  | inside {written : List Lexeme} {field argument : Cursor} {text : String}
      (same : text = joinedText written) :
      Tracks ⟨written, field, some argument⟩ ⟨text, 1, field.gauge, argument.gauge⟩

theorem tracks_nil : Tracks {} {} := .outside rfl rfl

theorem Tracks.text_eq {e : Entry} {t : Tally} (h : e.Tracks t) : t.text = e.text := by
  cases h with
  | outside same | inside same => exact same

/-- What a lexeme makes of an entry and of its tally. -/
inductive Follows (e : Entry) : Option Step → Option (List String × Tally) → Prop where
  | refused : Follows e none none
  | same {e' : Entry} {t' : Tally} (tracks : e'.Tracks t') :
      Follows e (some (.same e')) (some ([], t'))
  | next {e' : Entry} {t' : Tally} (tracks : e'.Tracks t') :
      Follows e (some (.next e')) (some ([e.text], t'))

/-! ## Moves of an entry and of its tally -/

variable {e : Entry} {t : Tally}

theorem Tracks.endsIn_eq (h : e.Tracks t) (writable : ∀ l ∈ e.written, isWritable l = true)
    (marks : List Mark) : t.endsIn marks = e.endsIn marks := by
  rw [Entry.endsIn_eq writable, Tally.endsIn, h.text_eq]

theorem joinedText_concat {written : List Lexeme} {text : String}
    (same : text = joinedText written) (l : Lexeme) :
    text ++ l.text = joinedText (written ++ [l]) := by
  rw [joinedText_append, joinedText_singleton, same]

theorem Tracks.gauge_eq (h : e.Tracks t) : t.gauge = e.cursor.gauge := by
  cases h <;> rfl

theorem Tracks.parens_eq_zero_iff (h : e.Tracks t) : t.parens = 0 ↔ e.argument = none := by
  cases h <;> simp

/-- A lexeme is written, and the cursor of the side being read is moved. -/
theorem Tracks.move (h : e.Tracks t) (c : Cursor) (l : Lexeme) :
    ((e.setCursor c).append [l]).Tracks ((t.setGauge c.gauge).push l.text) := by
  cases h with
  | outside same flat => exact .outside (joinedText_concat same l) flat
  | inside same => exact .inside (joinedText_concat same l)

theorem Tracks.write (h : e.Tracks t) (l : Lexeme) : (e.append [l]).Tracks (t.push l.text) := by
  cases h with
  | outside same flat => exact .outside (joinedText_concat same l) flat
  | inside same => exact .inside (joinedText_concat same l)

section Follows

variable (h : e.Tracks t) (writable : ∀ l ∈ e.written, isWritable l = true)

include h writable

theorem Tracks.follows_readName? (name : String) :
    Follows e (e.readName? name) (t.readName? name) := by
  have ends := h.endsIn_eq writable [.openParen, .comma]
  have moved := fun c => h.move c (.name name)
  have wrote := h.write (.name name)
  cases h with
  | @outside written field text argument same flat =>
    cases field with
    | complete => exact same ▸ .next (tracks_nil.write (.name name))
    | reading depth => exact .same (Cursor.name_gauge depth ▸ moved (Cursor.reading depth).name)
    | idle =>
      cases written with
      | nil => subst same; exact .same wrote
      | cons l ls =>
        have filled : text ≠ "" := same ▸ joinedText_ne_empty (writable l List.mem_cons_self)
        have refused : Tally.readName? ⟨text, 0, Cursor.idle.gauge, argument⟩ name = none :=
          if_pos filled
        rw [refused]
        exact .refused
  | @inside written field argument text same =>
    cases argument with
    | complete =>
      have read : Tally.readName? ⟨text, 1, field.gauge, Cursor.complete.gauge⟩ name =
          some ([], ⟨text ++ "," ++ name, 1, field.gauge, {}⟩) :=
        congrArg (Option.map ([], ·)) (Tally.readInside?_of_done rfl name)
      rw [read]
      exact .same (.inside (joinedText_concat (joinedText_concat same (.mark .comma)) (.name name)))
    | reading depth => exact .same (Cursor.name_gauge depth ▸ moved (Cursor.reading depth).name)
    | idle =>
      have read : Tally.readName? ⟨text, 1, field.gauge, Cursor.idle.gauge⟩ name =
          if Entry.atArgument ⟨written, field, some .idle⟩ then
            some ([], Tally.push ⟨text, 1, field.gauge, Cursor.idle.gauge⟩ name) else none := by
        rw [Entry.atArgument, ← ends]
        refine (congrArg (Option.map ([], ·)) (Tally.readInside?_of_idle rfl name)).trans ?_
        split <;> rfl
      rw [read]
      simp only [Entry.readName?]
      split
      · exact .same wrote
      · exact .refused

theorem Tracks.follows_readColon? :
    Follows e e.readColon? (t.readColon?.map ([], ·)) := by
  have ends := h.endsIn_eq writable [.openParen, .comma]
  have moved := h.move (.reading 0) (.mark .colon)
  cases h with
  | @outside written field text argument same flat =>
    cases field with
    | complete | reading depth => exact .refused
    | idle =>
      cases written with
      | nil => subst same; exact .refused
      | cons l ls =>
        have filled : text ≠ "" := same ▸ joinedText_ne_empty (writable l List.mem_cons_self)
        have read : Tally.readColon? ⟨text, 0, Cursor.idle.gauge, argument⟩ =
            some ⟨text ++ ":", 0, .start, argument⟩ := by
          simp [Tally.readColon?, Tally.push, Cursor.gauge, filled]
        rw [read]
        exact .same moved
  | @inside written field argument text same =>
    cases argument with
    | complete | reading depth => exact .refused
    | idle =>
      cases begins : Entry.endsIn ⟨written, field, some .idle⟩ [.openParen, .comma] with
      | true =>
        have refused : Entry.readColon? ⟨written, field, some .idle⟩ = none :=
          if_neg (by simp [Entry.atArgument, begins])
        have refused' : Tally.readColon? ⟨text, 1, field.gauge, Cursor.idle.gauge⟩ = none := by
          simp [Tally.readColon?, ends, begins]
        rw [refused, refused']
        exact .refused
      | false =>
        have read : Entry.readColon? ⟨written, field, some .idle⟩ =
            some (.same ⟨written ++ [.mark .colon], field, some (.reading 0)⟩) :=
          if_pos (by simp [Entry.atArgument, begins, Entry.cursor])
        have read' : Tally.readColon? ⟨text, 1, field.gauge, Cursor.idle.gauge⟩ =
            some ⟨text ++ ":", 1, field.gauge, .start⟩ := by
          have idle : Cursor.idle.gauge.expecting = false := rfl
          simp [Tally.readColon?, Tally.push, ends, begins, idle]
        rw [read, read']
        exact .same moved

theorem Tracks.follows_readComma? : Follows e e.readComma? t.readComma? := by
  cases h with
  | @outside written field text argument same flat =>
    cases field with
    | complete => exact same ▸ .next tracks_nil
    | idle | reading depth => exact .same (.outside same flat)
  | @inside written field argument text same =>
    cases argument with
    | complete => exact .same (.inside (joinedText_concat same (.mark .comma)))
    | reading depth => exact .refused
    | idle => exact .same (.inside same)

theorem Tracks.follows_readMark? (m : Mark) : Follows e (e.readMark? m) (t.readMark? m) := by
  have ends := h.endsIn_eq writable [.bang, .openBracket, .colon]
  have gauge := h.gauge_eq
  cases m with
  | colon => exact h.follows_readColon? writable
  | comma => exact h.follows_readComma? writable
  | openBracket =>
    rw [Tally.readMark?, gauge, Cursor.openList?_gauge, Entry.readMark?]
    cases e.cursor.openList? with
    | none => exact .refused
    | some c => exact .same (h.move c (.mark .openBracket))
  | closeBracket =>
    rw [Tally.readMark?, gauge, Cursor.closeList?_gauge, Entry.readMark?]
    cases e.cursor.closeList? with
    | none => exact .refused
    | some c => exact .same (h.move c (.mark .closeBracket))
  | bang =>
    have idle : e.cursor.gauge.expecting = false ↔ e.cursor = .idle := by
      cases e.cursor <;> simp [Cursor.gauge]
    rw [Tally.readMark?, gauge, ends, Entry.readMark?]
    by_cases stands : e.cursor ≠ .idle ∧ ¬ e.endsIn [.bang, .openBracket, .colon] = true
    · rw [if_pos stands, if_neg (not_or.mpr ⟨mt idle.mp stands.1, stands.2⟩)]
      exact .same (h.write (.mark .bang))
    · have refused := (not_and_or.mp stands).imp not_not.mp not_not.mp
      rw [if_neg stands, if_pos (by rwa [idle])]
      exact .refused
  | openParen =>
    cases h with
    | @inside written field argument text same => exact .refused
    | @outside written field text argument same flat =>
      cases field with
      | complete | reading depth => exact .refused
      | idle =>
        cases written with
        | nil => subst same; exact .refused
        | cons l ls =>
          have filled : text ≠ "" := same ▸ joinedText_ne_empty (writable l List.mem_cons_self)
          have read : Tally.readMark? ⟨text, 0, Cursor.idle.gauge, argument⟩ .openParen =
              some ([], ⟨text ++ "(", 1, Cursor.idle.gauge, {}⟩) := by
            simp [Tally.readMark?, Tally.push, Cursor.gauge, filled]
          rw [read]
          exact .same (.inside (joinedText_concat same (.mark .openParen)))
  | closeParen =>
    cases h with
    | outside => exact .refused
    | @inside written field argument text same =>
      cases argument with
      | reading depth => exact .refused
      | idle | complete => exact .same (.outside (joinedText_concat same (.mark .closeParen)) rfl)
  | openBrace | closeBrace | equals | bar | ampersand => exact .refused

/-- **A lexeme does the same to an entry and to its tally**, or is refused by both. -/
theorem Tracks.follows_read? (l : Lexeme) : Follows e (e.read? l) (t.read? l) := by
  cases l with
  | name name => exact h.follows_readName? writable name
  | mark m => exact h.follows_readMark? writable m

end Follows

end Entry

/-! ## The machine with tallies -/

namespace Reader

/-- The states of the machine with a tally in the place of the entry. -/
inductive Counted where
  /-- Outside blocks of fields there is no entry. -/
  | apart (s : State)
  /-- Inside a block of fields. -/
  | fields (d : Pending) (t : Tally)
  deriving DecidableEq, Repr

namespace Counted

/-- A state that is entered from outside a block. -/
def ofState : State → Counted
  | .fields d _ => .fields d {}
  | s => .apart s

/-- Inside a block of fields. -/
def block (d : Pending) (t : Tally) (line : Nat) (l : Lexeme) :
    Except Error (List Definition × Counted) :=
  if l = .mark .closeBrace ∧ t.parens = 0 then
    if t.text = "" then .ok ([d.finish], .apart (.seeking 0))
    else if t.field.done then .ok ([(d.add t.text).finish], .apart (.seeking 0))
    else fail line (.untypedField t.text d.label)
  else match t.read? l with
    | some (entries, t') => .ok ([], .fields (extend d entries) t')
    | none => fail line (.unexpectedInBlock l.text d.label)

/-- One lexeme, which is read again at once if it ends a union: the definitions it finishes and the
state after it. -/
def turn (c : Counted) (p : Placed) : Except Error (List Definition × Counted) :=
  match c with
  | .apart s => (s.turn p).map fun (ds, s') => (ds, ofState s')
  | .fields d t => block d t p.line p.lexeme

/-- The definitions that lexemes finish and the state after them. -/
def trace (c : Counted) : List Placed → Except Error (List Definition × Counted)
  | [] => .ok ([], c)
  | p :: ps => do
    let (ds, c') ← c.turn p
    let (ds', c'') ← trace c' ps
    return (ds ++ ds', c'')

/-- States of the two machines that belong together. -/
inductive Matches : State → Counted → Prop where
  | apart {s : State} (other : ∀ d e, s ≠ .fields d e) : Matches s (.apart s)
  | fields {d : Pending} {e : Entry} {t : Tally} (tracks : e.Tracks t)
      (writable : ∀ l ∈ e.written, isWritable l = true) : Matches (.fields d e) (.fields d t)

/-- Two computations agree: they fail alike, or finish the same definitions in states that belong
together. -/
inductive Alike :
    Except Error (List Definition × State) → Except Error (List Definition × Counted) → Prop where
  | failed {e : Error} : Alike (.error e) (.error e)
  | finished {ds : List Definition} {s : State} {c : Counted} (together : Matches s c) :
      Alike (.ok (ds, s)) (.ok (ds, c))

/-- A block of fields is entered with nothing written. -/
theorem entry_eq_nil_of_turn {s : State} (other : ∀ d e, s ≠ .fields d e) {p : Placed}
    {ds : List Definition} {d : Pending} {e : Entry} (h : s.turn p = .ok (ds, .fields d e)) :
    e = {} := by
  have notSought : ∀ depth, seek depth p.line p.lexeme ≠ .fields d e := by
    intro depth
    rcases seek_cases depth p.line p.lexeme with ⟨_, _, -, -, -, found⟩ | ⟨-, passed⟩
    · rw [found]; exact State.noConfusion
    · rw [passed]; exact State.noConfusion
  rcases turn_eq_ok.mp h with ⟨finished, step, -⟩ | ⟨d', step, -, sought⟩
  · cases s with
    | seeking depth =>
      have sought : seek depth p.line p.lexeme = .fields d e ∧ none = finished := by
        simpa [State.step, proceed] using step
      exact absurd sought.1 (notSought depth)
    | label keyword spelling line =>
      obtain ⟨l, labelLine⟩ := p
      cases l <;> cases step
    | heading d' implementing =>
      obtain ⟨-, ⟨-, entered⟩ | ⟨-, -, same⟩⟩ := step_heading step
      · obtain ⟨keyword, spelling, label, entries, line⟩ := d'
        cases keyword <;> cases entered <;> rfl
      · cases same
    | fields d' e' => exact absurd rfl (other d' e')
    | members d' =>
      rcases step_members step with ⟨-, same, -⟩ | ⟨_, -, same, -⟩ | ⟨-, same, -⟩ <;> cases same
    | alternatives d' expecting =>
      obtain ⟨-, ⟨_, -, same⟩ | ⟨-, same⟩⟩ := step_alternatives step <;> cases same
  · exact absurd sought.symm (notSought 0)

theorem matches_ofState {s : State} (blank : ∀ d e, s = .fields d e → e = {}) :
    Matches s (ofState s) := by
  cases s with
  | fields d e =>
    obtain rfl := blank d e rfl
    exact .fields Entry.tracks_nil fun l hl => absurd hl List.not_mem_nil
  | seeking | label | heading | members | alternatives =>
    exact .apart fun _ _ => State.noConfusion

section Block

variable {d : Pending} {e : Entry} {t : Tally} (tracks : e.Tracks t)
  (writable : ∀ l ∈ e.written, isWritable l = true) {p : Placed}

include tracks writable

theorem alike_close (closes : p.lexeme = .mark .closeBrace ∧ e.argument = none) :
    Alike ((State.fields d e).turn p) (block d t p.line p.lexeme) := by
  have between : Matches (.seeking 0) (.apart (.seeking 0)) := .apart fun _ _ => State.noConfusion
  have closes' : p.lexeme = .mark .closeBrace ∧ t.parens = 0 := by
    rwa [tracks.parens_eq_zero_iff]
  rw [State.turn, State.step, Reader.block, if_pos closes, block, if_pos closes']
  cases tracks with
  | inside => exact absurd closes.2 (Option.some_ne_none _)
  | @outside written field text argument same flat =>
    cases written with
    | nil => subst same; exact .finished between
    | cons l ls =>
      have filled : text ≠ "" := same ▸ Entry.joinedText_ne_empty (writable l List.mem_cons_self)
      rw [if_neg (List.cons_ne_nil l ls), if_neg filled]
      subst same
      cases field with
      | complete => exact .finished between
      | idle | reading depth => exact .failed

theorem alike_read (hp : isWritable p.lexeme = true)
    (stays : ¬ (p.lexeme = .mark .closeBrace ∧ e.argument = none)) :
    Alike ((State.fields d e).turn p) (block d t p.line p.lexeme) := by
  have stays' : ¬ (p.lexeme = .mark .closeBrace ∧ t.parens = 0) := by
    rwa [tracks.parens_eq_zero_iff]
  rw [State.turn, State.step, Reader.block, if_neg stays, block, if_neg stays']
  have follows := tracks.follows_read? writable p.lexeme
  have moves := fun step => @Entry.moves_of_read? e p.lexeme step
  generalize e.read? p.lexeme = x at follows moves
  generalize t.read? p.lexeme = y at follows
  cases follows with
  | refused => exact .failed
  | same tracks' =>
    simp only [extend_nil]
    exact .finished (.fields tracks' ((moves _ rfl).isWritable_same writable hp))
  | next tracks' => exact .finished (.fields tracks' ((moves _ rfl).isWritable_next hp))

theorem alike_block (hp : isWritable p.lexeme = true) :
    Alike ((State.fields d e).turn p) (block d t p.line p.lexeme) := by
  by_cases closes : p.lexeme = .mark .closeBrace ∧ e.argument = none
  · exact alike_close tracks writable closes
  · exact alike_read tracks writable hp closes

end Block

/-- Of one lexeme, the two machines make the same. -/
theorem alike_turn {s : State} {c : Counted} (h : Matches s c) {p : Placed}
    (hp : isWritable p.lexeme = true) : Alike (s.turn p) (c.turn p) := by
  cases h with
  | fields tracks writable => exact alike_block tracks writable hp
  | apart other =>
    have enters := fun ds d e => @entry_eq_nil_of_turn s other p ds d e
    rw [turn]
    generalize s.turn p = result at enters
    cases result with
    | error e => exact .failed
    | ok result =>
      exact .finished (matches_ofState fun d e same => enters _ d e (by rw [← same]))

/-- **The two machines agree on all lexemes.** -/
theorem alike_trace {s : State} {c : Counted} (h : Matches s c) {ps : List Placed}
    (writable : ∀ p ∈ ps, isWritable p.lexeme = true) :
    Alike (Reader.trace s ps) (c.trace ps) := by
  induction ps generalizing s c with
  | nil => exact .finished h
  | cons p ps ih =>
    obtain ⟨hp, rest⟩ := List.forall_mem_cons.mp writable
    have first := alike_turn h hp
    rw [Reader.trace, trace]
    generalize s.turn p = result at first
    generalize c.turn p = result' at first
    cases first with
    | failed => exact .failed
    | @finished ds s c together =>
      have others := ih together rest
      simp only [bind, Except.bind]
      generalize Reader.trace s ps = result at others
      generalize c.trace ps = result' at others
      cases others with
      | failed => exact .failed
      | finished together => exact .finished together

end Counted

end Reader

end SchemaTypegen
