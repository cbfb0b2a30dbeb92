import SchemaTypegen.Proofs.Division

/-!
# What stands between a label and its block

A declaration whose block is missing must not take the block of what follows it. Where there is no
list of interfaces, the brace follows the label directly. A list of interfaces is any mix of names
and `&`, and only declaration keywords are kept out of it. The keywords of constructs that are
skipped end a union, but they do not end a list of interfaces: there they are names like others, and
the block after them becomes that of the declaration.

* **`construct_in_heading_iff`**: in every declaration with a block, what stands between the label
  and the block, and which keywords may stand there.
* `block_taken`: a type without a block takes that of `schema`.
-/

namespace SchemaTypegen

open Text Grammar

theorem isSkippedKeyword_of_sameLetters {word : String}
    (h : sameLetters "implements" word = true) : isSkippedKeyword word = false := by
  have plain : isSkippedKeyword "implements" = false := by decide
  rw [sameLetters, beq_iff_eq] at h
  unfold isSkippedKeyword sameLetters at plain ⊢
  rw [← h]
  exact plain

/-- No name before a block is a declaration keyword. -/
theorem Clause.isDeclarationKeyword_names {keyword : Keyword} {heading : List Placed}
    (h : Clause keyword (heading.map Placed.lexeme)) :
    ∀ name ∈ names heading, isDeclarationKeyword name = false := by
  intro name hname
  obtain ⟨p, hp, named⟩ := List.mem_filterMap.mp hname
  have plain := (Reader.plain_of_clause h p.lexeme (List.mem_map_of_mem hp)).2
  cases lexeme : p.lexeme with
  | mark m => simp [lexeme, Lexeme.name?] at named
  | name text =>
    rw [lexeme] at named plain
    obtain rfl := Option.some.inj named
    exact plain

/-- What stands before a block lists these interfaces: none, or the names after `implements`. -/
inductive Implements : List Placed → List String → Prop where
  | none : Implements [] []
  | listed {opening : Placed} {word : String} {rest : List Placed}
      (opens : opening.lexeme = .name word) (spelled : sameLetters "implements" word = true) :
      Implements (opening :: rest) (names rest)

/-- Every clause lists interfaces, and of the names in it only these may be keywords of constructs
that are skipped. -/
theorem Clause.exists_implements {keyword : Keyword} {heading : List Placed}
    (h : Clause keyword (heading.map Placed.lexeme)) :
    ∃ interfaces, Implements heading interfaces ∧ ∀ name, isSkippedKeyword name = true →
      (name ∈ names heading ↔ name ∈ interfaces) := by
  cases heading with
  | nil => exact ⟨[], .none, fun _ _ => Iff.rfl⟩
  | cons first rest =>
    rw [List.map_cons] at h
    generalize same : first.lexeme = l at h
    cases h with
    | @implements word ls lists spelled plain =>
      refine ⟨names rest, .listed same spelled, fun name skipped => ?_⟩
      have apart : name ≠ word := by
        rintro rfl
        exact absurd skipped (by rw [isSkippedKeyword_of_sameLetters spelled]; simp)
      have opening : first.lexeme.name? = some word := by rw [same, Lexeme.name?]
      rw [names_cons, opening, Option.toList_some, List.singleton_append, List.mem_cons,
        or_iff_right apart]

theorem Reads.braced {s : Span} {d : Definition} (h : Reads s d) {keyword : Keyword}
    (heads : s.Heads keyword d) (block : keyword ≠ .union) : s.Braced := by
  cases h with
  | fields _ _ braced => exact braced
  | members _ braced => exact braced
  | alternatives union =>
    exact absurd (Option.some.inj (heads.spelled.symm.trans union.spelled)) block

/-- A declaration with a block: between its label and the opening brace stands nothing or a list of
interfaces. No name there is a declaration keyword, and the keyword of a construct that is skipped
is there exactly if it is one of the interfaces. -/
def Headed (s : Span) (d : Definition) : Prop :=
  ∃ keyword, s.Heads keyword d ∧ (keyword ≠ .union →
    s.Braced ∧ Clause keyword (s.heading.map Placed.lexeme) ∧
      (∀ name ∈ names s.heading, isDeclarationKeyword name = false) ∧
      ∃ interfaces, Implements s.heading interfaces ∧ ∀ name, isSkippedKeyword name = true →
        (name ∈ names s.heading ↔ name ∈ interfaces))

/-- **What stands between a label and its block.** In every accepted source, no declaration keyword
stands between the label of a declaration and its block, so no declaration takes the block of
another. The keyword of a construct that is skipped stands there exactly if the declaration lists it
as an interface. -/
theorem Source.construct_in_heading_iff {source : String} {ds : List Definition}
    (h : Source.definitions source = .ok ds) :
    ∃ ps, Source.lex (stripMarkers source) = .ok ps ∧ Divided Headed ps ds := by
  obtain ⟨ps, lexed, run⟩ := Success.bind_eq_ok.mp h
  refine ⟨ps, lexed, (Reader.divided_of_run run).mono ?_⟩
  rintro s - d ⟨reads, keyword, heads, clause⟩
  exact ⟨keyword, heads, fun block => ⟨reads.braced heads block, clause,
    clause.isDeclarationKeyword_names, clause.exists_implements⟩⟩

/-! ### A list of interfaces, and one that goes too far -/

/-- A type with a list of interfaces, an interface without one, and a block that is skipped. -/
def listedSource : String :=
  "type A implements B & C\x7bx:Int\x7d interface B\x7b\x7d schema\x7bquery:A\x7d"

/-- The definitions of `listedSource`. -/
def listedDefinitions : List Definition :=
  [⟨"type", "A", ["x:Int"], 1⟩, ⟨"interface", "B", [], 1⟩]

theorem Source.definitions_listedSource :
    Source.definitions listedSource = .ok listedDefinitions :=
  Source.definitions_of_sweep (onLine 1
    [.name "type", .name "A", .name "implements", .name "B", .mark .ampersand, .name "C",
      .mark .openBrace, .name "x", .mark .colon, .name "Int", .mark .closeBrace,
      .name "interface", .name "B", .mark .openBrace, .mark .closeBrace,
      .name "schema", .mark .openBrace, .name "query", .mark .colon, .name "A", .mark .closeBrace])
    (by decide) (by rfl)

theorem Source.construct_in_heading_listedSource :
    Source.definitions listedSource = .ok listedDefinitions ∧
      ∃ ps, Source.lex (stripMarkers listedSource) = .ok ps ∧ Divided Headed ps listedDefinitions :=
  ⟨Source.definitions_listedSource, Source.construct_in_heading_iff Source.definitions_listedSource⟩

/-- The type has no block, and `schema` follows its interface. -/
def takenSource : String := "type A implements B\nschema \x7b query: Query \x7d"

/-- The only definition of `takenSource`. -/
def takenDefinition : Definition := ⟨"type", "A", ["query:Query"], 1⟩

/-- All lexemes of `takenSource`, as those of one declaration. -/
def takenSpan : Span where
  keyword := ⟨.name "type", 1⟩
  label := ⟨.name "A", 1⟩
  heading := [⟨.name "implements", 1⟩, ⟨.name "B", 1⟩, ⟨.name "schema", 2⟩]
  opening := ⟨.mark .openBrace, 2⟩
  body := onLine 2 [.name "query", .mark .colon, .name "Query"]
  closing := [⟨.mark .closeBrace, 2⟩]

/-- **A block may be taken by the declaration before it.** The source is accepted, and the block of
`schema` is that of the type, between whose label and block `schema` stands. -/
theorem Source.block_taken :
    Source.definitions takenSource = .ok [takenDefinition] ∧
      Source.lex (stripMarkers takenSource) = .ok takenSpan.lexemes ∧
      takenSpan.Declares takenDefinition ∧
      ∃ name ∈ names takenSpan.heading, isSkippedKeyword name = true := by
  have spaced : isSpaced false 1 takenSpan.lexemes (stripMarkers takenSource).toList = true := by
    decide
  refine ⟨Source.definitions_of_sweep _ spaced (by rfl), Source.lex_of_isSpaced spaced, ?_, ?_⟩
  · refine ⟨.type, ⟨rfl, by decide, rfl⟩, ?_, by decide⟩
    rw [if_neg (by decide)]
    exact ⟨rfl, rfl, by decide, by decide⟩
  · exact ⟨"schema", by decide, by decide⟩

end SchemaTypegen
