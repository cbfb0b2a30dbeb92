import SchemaTypegen.Proofs.Grammar

/-!
# Layouts of an abstract schema

Every way in which a schema may be written down, from the tree to the characters of a source.

* `Shape.Laid`: the lexemes after the label of a declaration. Commas stand before, between and after
  fields and enum members, and before and between arguments, in any number; a union may begin with a
  bar.
* `Written`: the lexemes of a whole schema, each on its line. Keywords are spelled in any case, and
  `scalar` lines and balanced `schema` blocks may stand between declarations.
* `Spaced`: the characters. Any trivia may stand around lexemes, and two names in a row need some.
* `Marked`: insertion markers, which may stand anywhere, also inside a name.

`Renders` puts the four together.
-/

namespace SchemaTypegen.Grammar

open Text

/-! ## Declarations as lexemes -/

/-- The lexeme of a required type. -/
def bangLexemes (required : Bool) : List Lexeme := if required then [.mark .bang] else []

/-- The lexemes of a type. -/
def TypeExpr.lexemes : TypeExpr → List Lexeme
  | named name required => .name name.text :: bangLexemes required
  | list element required =>
    .mark .openBracket :: element.lexemes ++ .mark .closeBracket :: bangLexemes required

/-- The lexemes of an argument. -/
def ArgumentDecl.lexemes (a : ArgumentDecl) : List Lexeme :=
  .name a.name.text :: .mark .colon :: a.type.lexemes

/-- The lexemes of names with a mark between each two. -/
def joined (m : Mark) (names : List Name) : List Lexeme :=
  (names.map fun n => Lexeme.name n.text).intersperse (.mark m)

/-- Items in order, each laid out as `laid` says, with any number of commas before each and, if
`trailing`, after the last. -/
inductive Sprinkled {α : Type} (laid : α → List Lexeme → Prop) (trailing : Bool) :
    List α → List Lexeme → Prop where
  | nil : Sprinkled laid trailing [] []
  | comma {items : List α} {ls : List Lexeme} (more : items ≠ [] ∨ trailing = true)
      (rest : Sprinkled laid trailing items ls) :
      Sprinkled laid trailing items (.mark .comma :: ls)
  | item {a : α} {items : List α} {ls ls' : List Lexeme} (first : laid a ls)
      (rest : Sprinkled laid trailing items ls') :
      Sprinkled laid trailing (a :: items) (ls ++ ls')

/-- The parentheses of a field and what is in them. No comma follows the last argument. -/
inductive ArgumentsLaid : Option (List ArgumentDecl) → List Lexeme → Prop where
  | none : ArgumentsLaid none []
  | some {arguments : List ArgumentDecl} {ls : List Lexeme}
      (list : Sprinkled (fun a ls => ls = a.lexemes) arguments.isEmpty arguments ls) :
      ArgumentsLaid (some arguments) (.mark .openParen :: ls ++ [.mark .closeParen])

/-- A field. -/
inductive FieldLaid : FieldDecl → List Lexeme → Prop where
  | mk {f : FieldDecl} {ls : List Lexeme} (arguments : ArgumentsLaid f.arguments ls) :
      FieldLaid f (.name f.name.text :: ls ++ .mark .colon :: f.type.lexemes)

/-- A block of fields, braces included. -/
inductive BlockLaid : List FieldDecl → List Lexeme → Prop where
  | mk {fields : List FieldDecl} {ls : List Lexeme} (list : Sprinkled FieldLaid true fields ls) :
      BlockLaid fields (.mark .openBrace :: ls ++ [.mark .closeBrace])

/-- The `implements` clause between a label and its block. -/
inductive ClauseLaid : Option (List PlainName) → List Lexeme → Prop where
  | none : ClauseLaid none []
  | some {names : List PlainName} {word : String}
      (spelled : sameLetters "implements" word = true) :
      ClauseLaid (some names) (.name word :: joined .ampersand (names.map PlainName.toName))

/-- What follows the label of a declaration. -/
inductive Shape.Laid : Shape → List Lexeme → Prop where
  | type {interfaces : Option (List PlainName)} {fields : List FieldDecl} {ls ls' : List Lexeme}
      (clause : ClauseLaid interfaces ls) (block : BlockLaid fields ls') :
      Laid (.type interfaces fields) (ls ++ ls')
  | interface {interfaces : Option (List PlainName)} {fields : List FieldDecl}
      {ls ls' : List Lexeme} (clause : ClauseLaid interfaces ls) (block : BlockLaid fields ls') :
      Laid (.interface interfaces fields) (ls ++ ls')
  | input {fields : List FieldDecl} {ls : List Lexeme} (block : BlockLaid fields ls) :
      Laid (.input fields) ls
  | enum {members : List Name} {ls : List Lexeme}
      (list : Sprinkled (fun n ls => ls = [.name n.text]) true members ls) :
      Laid (.enum members) (.mark .openBrace :: ls ++ [.mark .closeBrace])
  | union {first : Name} {others : List Name} :
      Laid (.union first others) (.mark .equals :: joined .bar (first :: others))
  /-- A bar before the first member. -/
  | barredUnion {first : Name} {others : List Name} :
      Laid (.union first others) (.mark .equals :: .mark .bar :: joined .bar (first :: others))

/-! ## Schemas as lexemes -/

/-- Lexemes among which every opening brace has its closing brace, and no others close. -/
inductive Balanced : List Lexeme → Prop where
  | nil : Balanced []
  | other {l : Lexeme} {ls : List Lexeme} (notOpen : l ≠ .mark .openBrace)
      (notClose : l ≠ .mark .closeBrace) (rest : Balanced ls) : Balanced (l :: ls)
  | braces {ls ls' : List Lexeme} (inner : Balanced ls) (rest : Balanced ls') :
      Balanced (.mark .openBrace :: ls ++ .mark .closeBrace :: ls')

/-- The lexemes of a schema: its declarations in order, each keyword on its line, with constructs
between them that declare nothing. -/
inductive Written : List Item → List Placed → Prop where
  | nil : Written [] []
  | item {i : Item} {items : List Item} {ps qs : List Placed} {line : Nat}
      (laid : i.shape.Laid (ps.map Placed.lexeme)) (rest : Written items qs) :
      Written (i :: items) (⟨.name i.spelling, i.line⟩ :: ⟨.name i.label.text, line⟩ :: ps ++ qs)
  | scalar {items : List Item} {qs : List Placed} {word : String} {n : PlainName} {line line' : Nat}
      (spelled : sameLetters "scalar" word = true) (rest : Written items qs) :
      Written items (⟨.name word, line⟩ :: ⟨.name n.text, line'⟩ :: qs)
  | schema {items : List Item} {ps qs : List Placed} {word : String} {line line' line'' : Nat}
      (spelled : sameLetters "schema" word = true) (balanced : Balanced (ps.map Placed.lexeme))
      (rest : Written items qs) :
      Written items (⟨.name word, line⟩ :: ⟨.mark .openBrace, line'⟩ :: ps ++
        ⟨.mark .closeBrace, line''⟩ :: qs)

/-! ## Lexemes as characters -/

/-- Characters that separate lexemes: all trivia but the insertion marker. -/
def isGap (c : Char) : Bool := Source.isTrivia c && c != Source.marker

/-- Whether a lexeme is a name. -/
def isNameLexeme : Lexeme → Bool
  | .name _ => true
  | .mark _ => false

/-- Whether a lexeme can stand in a text: the text of a name has to be one. -/
def isWritable : Lexeme → Bool
  | .name text => isName text
  | .mark _ => true

/-- The characters of lexemes with trivia around them, from `line` on. Where a name comes first and
`afterName` says that a name came before, there is trivia before it. -/
inductive Spaced : Bool → Nat → List Placed → List Char → Prop where
  | done {afterName : Bool} {line : Nat} {gap : List Char} (trivia : ∀ c ∈ gap, isGap c = true) :
      Spaced afterName line [] gap
  | lexeme {afterName : Bool} {line : Nat} {gap text : List Char} {l : Lexeme} {ps : List Placed}
      (trivia : ∀ c ∈ gap, isGap c = true)
      (apart : afterName = true → isNameLexeme l = true → gap ≠ [])
      (writable : isWritable l = true)
      (rest : Spaced (isNameLexeme l) (line + gap.count '\n') ps text) :
      Spaced afterName line (⟨l, line + gap.count '\n'⟩ :: ps) (gap ++ l.text.toList ++ text)

/-- A text and the same text with insertion markers put in. -/
inductive Marked : List Char → List Char → Prop where
  | nil : Marked [] []
  | char {c : Char} {text source : List Char} (rest : Marked text source) :
      Marked (c :: text) (c :: source)
  | marker {text source : List Char} (rest : Marked text source) :
      Marked text (Source.marker :: source)

/-- `source` is one way of writing down the schema. -/
def Renders (items : List Item) (source : String) : Prop :=
  ∃ ps text, Written items ps ∧ Spaced false 1 ps text ∧ Marked text source.toList

/-! ## Checking a layout -/

/-- Lexemes that all stand on one line. -/
def onLine (line : Nat) (ls : List Lexeme) : List Placed := ls.map fun l => ⟨l, line⟩

theorem map_lexeme_onLine (line : Nat) (ls : List Lexeme) :
    (onLine line ls).map Placed.lexeme = ls := by
  unfold onLine
  rw [List.map_map]
  exact List.map_id ls

theorem Written.itemOnLine {i : Item} {items : List Item} {ls : List Lexeme} {qs : List Placed}
    (laid : i.shape.Laid ls) (rest : Written items qs) :
    Written (i :: items)
      (⟨.name i.spelling, i.line⟩ :: ⟨.name i.label.text, i.line⟩ :: onLine i.line ls ++ qs) :=
  .item (by rw [map_lexeme_onLine]; exact laid) rest

theorem Written.schemaOnLine {items : List Item} {ls : List Lexeme} {qs : List Placed} (line : Nat)
    (balanced : Balanced ls) (rest : Written items qs) :
    Written items (⟨.name "schema", line⟩ :: ⟨.mark .openBrace, line⟩ :: onLine line ls ++
      ⟨.mark .closeBrace, line⟩ :: qs) :=
  .schema (by decide) (by rw [map_lexeme_onLine]; exact balanced) rest

/-- Whether a text is spaced lexemes. No lexeme begins with a gap, so the gaps can be found. -/
def isSpaced (afterName : Bool) (line : Nat) : List Placed → List Char → Bool
  | [], text => text.all isGap
  | ⟨l, n⟩ :: ps, text =>
    let gap := text.takeWhile isGap
    let rest := text.dropWhile isGap
    n == line + gap.count '\n' && (!afterName || !isNameLexeme l || !gap.isEmpty) &&
      isWritable l && l.text.toList.isPrefixOf rest &&
      isSpaced (isNameLexeme l) n ps (rest.drop l.text.toList.length)

theorem spaced_of_isSpaced {afterName : Bool} {line : Nat} {ps : List Placed} {text : List Char}
    (h : isSpaced afterName line ps text = true) : Spaced afterName line ps text := by
  induction ps generalizing afterName line text with
  | nil => exact .done (List.all_eq_true.mp h)
  | cons p ps ih =>
    obtain ⟨l, n⟩ := p
    simp only [isSpaced, Bool.and_eq_true, beq_iff_eq, List.isPrefixOf_iff_prefix] at h
    obtain ⟨⟨⟨⟨rfl, apart⟩, writable⟩, ⟨after, hafter⟩⟩, rest⟩ := h
    rw [← hafter, List.drop_left] at rest
    have pieces : text = text.takeWhile isGap ++ l.text.toList ++ after := by
      rw [List.append_assoc, hafter, List.takeWhile_append_dropWhile]
    have separated : afterName = true → isNameLexeme l = true → text.takeWhile isGap ≠ [] := by
      rintro rfl hname hgap
      rw [hgap, hname] at apart
      exact absurd apart (by decide)
    have trivia := List.all_eq_true.mp (List.all_takeWhile (p := isGap) (l := text))
    have spaced := Spaced.lexeme trivia separated writable (ih rest)
    rw [← pieces] at spaced
    exact spaced

/-- Every source is its own text with its markers put back. -/
theorem marked_filter (source : List Char) :
    Marked (source.filter (· != Source.marker)) source := by
  induction source with
  | nil => exact .nil
  | cons c source ih =>
    by_cases hc : c = Source.marker
    · subst hc
      exact .marker ih
    · rw [List.filter_cons_of_pos (by simpa using hc)]
      exact .char ih

end SchemaTypegen.Grammar
