import SchemaTypegen.Proofs.Reading.Entries

/-!
# What a lexeme can do to an entry

`Moves` lists the moves of the entry machine, one constructor each, with what must hold before the
move and what the entry is after it. `moves_of_read?` says that there are no others, so that a fact
about all entries is a case analysis over this list and never looks at the machine again.

`Collects e ls es` is a whole block from an open entry on: reading `ls` up to the closing brace
makes up the entries `es`. Its first consequence is `Collects.content_eq`: commas apart, the entries
hold the lexemes of the block, each once and in order.
-/

namespace SchemaTypegen

/-- Lexemes without their commas. -/
def content (ls : List Lexeme) : List Lexeme := ls.filter (· ≠ .mark .comma)

@[simp] theorem content_nil : content [] = [] := rfl

@[simp] theorem content_append (ls ls' : List Lexeme) :
    content (ls ++ ls') = content ls ++ content ls' :=
  List.filter_append ls ls'

@[simp] theorem content_comma (ls : List Lexeme) : content (.mark .comma :: ls) = content ls :=
  List.filter_cons_of_neg (by simp)

theorem content_cons {l : Lexeme} (h : l ≠ .mark .comma) (ls : List Lexeme) :
    content (l :: ls) = l :: content ls :=
  List.filter_cons_of_pos (by simpa using h)

/-- Whether a lexeme is a brace. -/
def Lexeme.isBrace : Lexeme → Bool
  | .mark .openBrace | .mark .closeBrace => true
  | _ => false

theorem Cursor.openList?_eq_some {c c' : Cursor} (h : c.openList? = some c') :
    ∃ depth, c = .reading depth ∧ c' = .reading (depth + 1) := by
  cases c with
  | reading depth => exact ⟨depth, rfl, (Option.some.inj h).symm⟩
  | idle | complete => exact absurd h (by simp [openList?])

theorem Cursor.closeList?_eq_some {c c' : Cursor} (h : c.closeList? = some c') :
    ∃ depth, c = .reading (depth + 1) ∧ c' = (Cursor.reading depth).name := by
  cases c with
  | reading depth =>
    cases depth with
    | zero => exact absurd h (by simp [closeList?])
    | succ depth =>
      rw [Entry.closeList?_reading_succ] at h
      exact ⟨depth, rfl, (Option.some.inj h).symm⟩
  | idle | complete => exact absurd h (by simp [closeList?])

namespace Entry

/-- The moves of an entry. -/
inductive Moves (e : Entry) : Lexeme → Step → Prop where
  /-- The name of a field. -/
  | fieldName {name : String} (outside : e.argument = none) (idle : e.field = .idle)
      (blank : e.written = []) : Moves e (.name name) (.same (e.append [.name name]))
  /-- The name of a field after a complete one. -/
  | nextField {name : String} (outside : e.argument = none) (complete : e.field = .complete) :
      Moves e (.name name) (.next { written := [.name name] })
  /-- The name of an argument. -/
  | argumentName {name : String} (idle : e.argument = some .idle) (begins : e.atArgument = true) :
      Moves e (.name name) (.same (e.append [.name name]))
  /-- The name of an argument after a complete one. -/
  | nextArgument {name : String} (complete : e.argument = some .complete) :
      Moves e (.name name) (.same ((e.setCursor .idle).append [.mark .comma, .name name]))
  /-- The name of a type. -/
  | typeName {name : String} {depth : Nat} (reading : e.cursor = .reading depth) :
      Moves e (.name name)
        (.same ((e.setCursor (Cursor.reading depth).name).append [.name name]))
  | colon (idle : e.cursor = .idle) (begun : e.argument = none → e.written ≠ [])
      (named : e.argument ≠ none → e.atArgument = false) :
      Moves e (.mark .colon) (.same ((e.setCursor (.reading 0)).append [.mark .colon]))
  /-- A comma that ends an argument. -/
  | argumentComma (complete : e.argument = some .complete) :
      Moves e (.mark .comma) (.same ((e.setCursor .idle).append [.mark .comma]))
  /-- A comma that ends an entry. -/
  | entryComma (outside : e.argument = none) (complete : e.field = .complete) :
      Moves e (.mark .comma) (.next {})
  /-- A comma that leaves no trace. -/
  | passedComma (resting : e.argument = some .idle ∨ e.argument = none ∧ e.field ≠ .complete) :
      Moves e (.mark .comma) (.same e)
  | openBracket {depth : Nat} (reading : e.cursor = .reading depth) :
      Moves e (.mark .openBracket)
        (.same ((e.setCursor (.reading (depth + 1))).append [.mark .openBracket]))
  | closeBracket {depth : Nat} (reading : e.cursor = .reading (depth + 1)) :
      Moves e (.mark .closeBracket)
        (.same ((e.setCursor (Cursor.reading depth).name).append [.mark .closeBracket]))
  | bang (busy : e.cursor ≠ .idle) (fits : e.endsIn [.bang, .openBracket, .colon] = false) :
      Moves e (.mark .bang) (.same (e.append [.mark .bang]))
  | openParen (outside : e.argument = none) (idle : e.field = .idle) (begun : e.written ≠ []) :
      Moves e (.mark .openParen)
        (.same { e.append [.mark .openParen] with argument := some .idle })
  | closeParen {c : Cursor} (inside : e.argument = some c) (resting : c = .idle ∨ c = .complete) :
      Moves e (.mark .closeParen) (.same { e.append [.mark .closeParen] with argument := none })

theorem moves_of_readName? {e : Entry} {name : String} {step : Step}
    (h : e.readName? name = some step) : Moves e (.name name) step := by
  obtain ⟨written, field, argument⟩ := e
  cases argument with
  | none =>
    cases field with
    | idle =>
      obtain ⟨blank, rfl⟩ : written = [] ∧ _ = step := by simpa [readName?] using h
      exact .fieldName rfl rfl blank
    | reading depth => exact Option.some.inj h ▸ .typeName rfl
    | complete => exact Option.some.inj h ▸ .nextField rfl rfl
  | some c =>
    cases c with
    | idle =>
      simp only [readName?, Option.ite_none_right_eq_some] at h
      exact Option.some.inj h.2 ▸ .argumentName rfl h.1
    | reading depth => exact Option.some.inj h ▸ .typeName rfl
    | complete =>
      have shape : Entry.mk (written ++ [.mark .comma] ++ [.name name]) field (some .idle) =
          (setCursor ⟨written, field, some .complete⟩ .idle).append [.mark .comma, .name name] := by
        simp [setCursor, append]
      refine Option.some.inj h ▸ ?_
      exact shape ▸ .nextArgument rfl

theorem moves_of_readColon? {e : Entry} {step : Step} (h : e.readColon? = some step) :
    Moves e (.mark .colon) step := by
  simp only [readColon?, Option.ite_none_right_eq_some] at h
  obtain ⟨⟨idle, named⟩, h⟩ := h
  refine Option.some.inj h ▸ .colon idle (fun outside => ?_) fun inside => ?_
  · simpa [outside] using named
  · simpa [Option.isSome_iff_ne_none.mpr inside] using named

theorem moves_of_readComma? {e : Entry} {step : Step} (h : e.readComma? = some step) :
    Moves e (.mark .comma) step := by
  obtain ⟨written, field, argument⟩ := e
  cases argument with
  | none =>
    by_cases complete : field = .complete
    · subst complete
      exact Option.some.inj h ▸ .entryComma rfl rfl
    · simp only [readComma?, complete, if_false] at h
      exact Option.some.inj h ▸ .passedComma (Or.inr ⟨rfl, complete⟩)
  | some c =>
    cases c with
    | idle => exact Option.some.inj h ▸ .passedComma (Or.inl rfl)
    | reading depth => exact absurd h (by simp [readComma?])
    | complete => exact Option.some.inj h ▸ .argumentComma rfl

theorem moves_of_readMark? {e : Entry} {m : Mark} {step : Step} (h : e.readMark? m = some step) :
    Moves e (.mark m) step := by
  cases m with
  | colon => exact moves_of_readColon? h
  | comma => exact moves_of_readComma? h
  | openBracket =>
    obtain ⟨c, opened, rfl⟩ := Option.map_eq_some_iff.mp h
    obtain ⟨depth, reading, rfl⟩ := Cursor.openList?_eq_some opened
    exact .openBracket reading
  | closeBracket =>
    obtain ⟨c, closed, rfl⟩ := Option.map_eq_some_iff.mp h
    obtain ⟨depth, reading, rfl⟩ := Cursor.closeList?_eq_some closed
    exact .closeBracket reading
  | bang =>
    simp only [readMark?, Option.ite_none_right_eq_some] at h
    obtain ⟨⟨busy, fits⟩, h⟩ := h
    exact Option.some.inj h ▸ .bang busy (by simpa using fits)
  | openParen =>
    simp only [readMark?, Option.ite_none_right_eq_some] at h
    obtain ⟨⟨outside, idle, begun⟩, h⟩ := h
    exact Option.some.inj h ▸ .openParen outside idle begun
  | closeParen =>
    obtain ⟨written, field, argument⟩ := e
    cases argument with
    | none => exact absurd h (by simp [readMark?])
    | some c =>
      cases c with
      | idle => exact Option.some.inj h ▸ .closeParen rfl (Or.inl rfl)
      | reading depth => exact absurd h (by simp [readMark?])
      | complete => exact Option.some.inj h ▸ .closeParen rfl (Or.inr rfl)
  | openBrace | closeBrace | equals | bar | ampersand => exact absurd h (by simp [readMark?])

/-- **There are no other moves.** -/
theorem moves_of_read? {e : Entry} {l : Lexeme} {step : Step} (h : e.read? l = some step) :
    Moves e l step := by
  cases l with
  | name name => exact moves_of_readName? h
  | mark m => exact moves_of_readMark? h

/-! ## What is written -/

@[simp] theorem written_append (e : Entry) (ls : List Lexeme) :
    (e.append ls).written = e.written ++ ls :=
  rfl

@[simp] theorem written_setCursor (e : Entry) (c : Cursor) :
    (e.setCursor c).written = e.written := by
  unfold setCursor
  cases e.argument <;> rfl

/-- A move that goes on with the entry adds the lexeme to it, commas apart. -/
theorem Moves.content_same {e e' : Entry} {l : Lexeme} (h : Moves e l (.same e')) :
    content e'.written = content e.written ++ content [l] := by
  cases h <;> simp

/-- A move that begins another entry leaves the lexeme in it, commas apart. -/
theorem Moves.content_next {e e' : Entry} {l : Lexeme} (h : Moves e l (.next e')) :
    content e'.written = content [l] := by
  cases h <;> simp

theorem Moves.isBrace_eq_false {e : Entry} {l : Lexeme} {step : Step} (h : Moves e l step) :
    l.isBrace = false := by
  cases h <;> rfl

/-! ## Blocks -/

/-- The lexemes from an open entry up to the closing brace, and the entries they make up. -/
inductive Collects : Entry → List Lexeme → List Entry → Prop where
  | none {e : Entry} (outside : e.argument = none) (blank : e.written = []) : Collects e [] []
  | last {e : Entry} (outside : e.argument = none) (begun : e.written ≠ [])
      (complete : e.field = .complete) : Collects e [] [e]
  | same {e e' : Entry} {l : Lexeme} {ls : List Lexeme} {es : List Entry}
      (move : Moves e l (.same e')) (rest : Collects e' ls es) : Collects e (l :: ls) es
  | next {e e' : Entry} {l : Lexeme} {ls : List Lexeme} {es : List Entry}
      (move : Moves e l (.next e')) (rest : Collects e' ls es) : Collects e (l :: ls) (e :: es)

/-- **The entries of a block hold its lexemes**, each once and in order, commas apart. -/
theorem Collects.content_eq {e : Entry} {ls : List Lexeme} {es : List Entry}
    (h : Collects e ls es) : content (es.flatMap Entry.written) = content (e.written ++ ls) := by
  induction h with
  | none outside blank => rw [blank]; rfl
  | last outside begun complete => simp
  | @same e e' l ls es move rest ih =>
    rw [ih, content_append, move.content_same, List.append_assoc, ← content_append,
      ← content_append, List.singleton_append]
  | @next e e' l ls es move rest ih =>
    rw [List.flatMap_cons, content_append, ih, content_append, move.content_next, ← content_append,
      ← content_append, List.singleton_append]

/-- What is written in a block can be written. -/
theorem Collects.isWritable {ls : List Lexeme} {es : List Entry} (h : Collects {} ls es)
    (writable : ∀ l ∈ ls, Grammar.isWritable l = true) :
    ∀ l ∈ es.flatMap Entry.written, Grammar.isWritable l = true := by
  intro l hl
  by_cases comma : l = .mark .comma
  · subst comma
    rfl
  · have held : l ∈ content ls := by
      have := h.content_eq
      rw [List.nil_append] at this
      exact this ▸ List.mem_filter.mpr ⟨hl, by simpa using comma⟩
    exact writable l (List.mem_filter.mp held).1

theorem Collects.isBrace_eq_false {e : Entry} {ls : List Lexeme} {es : List Entry}
    (h : Collects e ls es) : ∀ l ∈ ls, l.isBrace = false := by
  induction h with
  | none | last => exact fun l hl => absurd hl List.not_mem_nil
  | same move _ ih | next move _ ih =>
    intro l hl
    rcases List.mem_cons.mp hl with rfl | hl
    · exact move.isBrace_eq_false
    · exact ih l hl

/-- What holds of the empty entry and is kept by all moves holds of every entry of a block. -/
theorem Collects.all {P : Entry → Prop} (start : P {})
    (same : ∀ {e e' : Entry} {l : Lexeme}, P e → Moves e l (.same e') → P e')
    (named : ∀ name, P { written := [.name name] }) {ls : List Lexeme} {es : List Entry}
    (h : Collects {} ls es) : ∀ e ∈ es, P e ∧ e.argument = Option.none ∧ e.field = .complete := by
  suffices ∀ {e : Entry} {ls : List Lexeme} {es : List Entry}, Collects e ls es → P e →
      ∀ f ∈ es, P f ∧ f.argument = Option.none ∧ f.field = .complete from this h start
  intro e ls es h
  induction h with
  | none => exact fun _ f hf => absurd hf List.not_mem_nil
  | last outside _ complete =>
    intro holds f hf
    obtain rfl := List.mem_singleton.mp hf
    exact ⟨holds, outside, complete⟩
  | same move _ ih => exact fun holds => ih (same holds move)
  | @next e e' l ls es move _ ih =>
    intro holds f hf
    -- A complete entry gives way to one with a name in it, or to the empty one.
    have shape : P e' ∧ e.argument = Option.none ∧ e.field = .complete := by
      cases move with
      | nextField outside complete => exact ⟨named _, outside, complete⟩
      | entryComma outside complete => exact ⟨start, outside, complete⟩
    rcases List.mem_cons.mp hf with rfl | hf
    · exact ⟨holds, shape.2⟩
    · exact ih shape.1 f hf

end Entry

end SchemaTypegen
