import SchemaTypegen.Proofs.Division.Runs

/-!
# A source is its declarations and what is skipped between them

Whatever a source looks like, if it is accepted then its lexemes are those of its declarations, one
for each definition and in order, with skipped lexemes before, between and after them. `Divided R`
is that division, where `R` relates the lexemes of a declaration to the definition read from them.

`divided_of_run` puts together what the states of the machine make of their lexemes, and keeps with
each declaration how its entries were made up (`Reads`). Every fact about the definitions of a
source follows from `Reads` alone. What a declaration gives does not hang on what follows it, but
for the one lexeme that ends a union (`Gives`).

* **`definitions_divide`**: no declaration is lost, invented or cut short.
-/

namespace SchemaTypegen

open Text Grammar

/-! ## Declarations in a source -/

/-- The lexemes of one declaration, in parts. -/
structure Span where
  keyword : Placed
  label : Placed
  /-- Between the label and the mark that opens the body. -/
  heading : List Placed
  opening : Placed
  body : List Placed
  /-- The mark that closes the body, where there is one. -/
  closing : List Placed

namespace Span

/-- All lexemes of a declaration. -/
def lexemes (s : Span) : List Placed :=
  s.keyword :: s.label :: (s.heading ++ s.opening :: s.body ++ s.closing)

theorem lexemes_append (s : Span) (ps : List Placed) : s.lexemes ++ ps =
    s.keyword :: s.label :: (s.heading ++ s.opening :: (s.body ++ (s.closing ++ ps))) := by
  simp [lexemes]

/-- A declaration with a block: its two braces are the only ones, and no declaration keyword stands
before the first of them. -/
structure Braced (s : Span) : Prop where
  opening : s.opening.lexeme = .mark .openBrace
  closing : s.closing.map Placed.lexeme = [.mark .closeBrace]
  heading : ∀ p ∈ s.heading, p.lexeme.isBrace = false ∧ p.lexeme.isKeyword = false
  body : ∀ p ∈ s.body, p.lexeme.isBrace = false

/-- A declaration with alternatives: after `=` come bars and at least one name. -/
structure Barred (s : Span) : Prop where
  heading : s.heading = []
  opening : s.opening.lexeme = .mark .equals
  closing : s.closing = []
  body : ∀ p ∈ s.body, p.lexeme = .mark .bar ∨ p.lexeme.name?.isSome
  member : ∃ p ∈ s.body, p.lexeme.name?.isSome

/-- The declaration begins as the definition says, and with a keyword. -/
structure Heads (s : Span) (keyword : Keyword) (d : Definition) : Prop where
  first : s.keyword = ⟨.name d.keyword, d.line⟩
  spelled : Keyword.ofName? d.keyword = some keyword
  label : s.label.lexeme = .name d.label

end Span

/-- Lexemes that are skipped and declarations, in turn, with a definition for each declaration. A
declaration begins outside all braces. -/
inductive Divided (R : Span → Definition → Prop) : List Placed → List Definition → Prop where
  | rest {skipped : List Placed} (plain : Skippable 0 skipped) : Divided R skipped []
  | declaration {skipped ps : List Placed} {s : Span} {d : Definition} {ds : List Definition}
      (plain : Skippable 0 skipped) (outside : braceDepth 0 skipped = 0) (reads : R s d)
      (rest : Divided R ps ds) : Divided R (skipped ++ s.lexemes ++ ps) (d :: ds)

theorem Divided.mono {R R' : Span → Definition → Prop} {ps : List Placed} {ds : List Definition}
    (h : Divided R ps ds)
    (weaker : ∀ s : Span, (∀ p ∈ s.lexemes, p ∈ ps) → ∀ d, R s d → R' s d) : Divided R' ps ds := by
  induction h with
  | rest plain => exact .rest plain
  | declaration plain outside reads _ ih =>
    refine .declaration plain outside (weaker _ (fun p hp => by simp [hp]) _ reads) (ih ?_)
    exact fun s within => weaker s fun p hp => List.mem_append_right _ (within p hp)

/-- Every definition is that of a declaration. -/
theorem Divided.exists_of_mem {R : Span → Definition → Prop} {ps : List Placed}
    {ds : List Definition} (h : Divided R ps ds) {d : Definition} (hd : d ∈ ds) :
    ∃ s : Span, R s d ∧ ∀ p ∈ s.lexemes, p ∈ ps := by
  induction h with
  | rest => exact absurd hd List.not_mem_nil
  | declaration _ _ reads _ ih =>
    rcases List.mem_cons.mp hd with rfl | hd
    · exact ⟨_, reads, fun p hp => by simp [hp]⟩
    · obtain ⟨s, reads, within⟩ := ih hd
      exact ⟨s, reads, fun p hp => List.mem_append_right _ (within p hp)⟩

/-! ## How a definition is read -/

/-- How a definition is read from the lexemes of a declaration. -/
inductive Reads (s : Span) (d : Definition) : Prop where
  | fields {keyword : Keyword} {entries : List Entry} (heads : s.Heads keyword d)
      (keeps : keyword ≠ .enum ∧ keyword ≠ .union) (braced : s.Braced)
      (collects : Entry.Collects {} (s.body.map Placed.lexeme) entries)
      (same : d.entries = entries.map Entry.text)
  | members (heads : s.Heads .enum d) (braced : s.Braced)
      (body : ∀ p ∈ s.body, p.lexeme = .mark .comma ∨ p.lexeme.name?.isSome)
      (same : d.entries = names s.body)
  | alternatives (heads : s.Heads .union d) (barred : s.Barred) (same : d.entries = names s.body)

theorem Reads.exists_heads {s : Span} {d : Definition} (h : Reads s d) :
    ∃ keyword, s.Heads keyword d := by
  cases h with
  | fields heads | members heads | alternatives heads => exact ⟨_, heads⟩

/-- Between the label and the body stands nothing or a list of interfaces. -/
def Span.HasClause (s : Span) (d : Definition) : Prop :=
  ∃ keyword, s.Heads keyword d ∧ Clause keyword (s.heading.map Placed.lexeme)

namespace Reader

/-- The lexemes give these definitions, whatever follows them, if it begins as `rest` does. -/
def Gives (ps rest : List Placed) (ds : List Definition) : Prop :=
  ∀ qs, qs.head? = rest.head? → run (.seeking 0) (ps ++ qs) = (run (.seeking 0) qs).map (ds ++ ·)

theorem Gives.append {ps qs rest : List Placed} {ds ds' : List Definition}
    (h : Gives ps (qs ++ rest) ds) (h' : Gives qs rest ds') :
    Gives (ps ++ qs) rest (ds ++ ds') := by
  intro rs next
  have first : (qs ++ rs).head? = (qs ++ rest).head? := by
    rw [List.head?_append, List.head?_append, next]
  rw [List.append_assoc, h _ first, h' rs next]
  cases run (.seeking 0) rs <;> simp [Except.map]

theorem gives_of_skippable {skipped : List Placed} (plain : Skippable 0 skipped)
    (outside : braceDepth 0 skipped = 0) (rest : List Placed) : Gives skipped rest [] := by
  intro qs _
  rw [run_skipped plain, outside]
  cases run (.seeking 0) qs <;> rfl

/-- A whole declaration, from its keyword on. Only a union looks at what follows it. -/
theorem run_label {keyword : Keyword} {name : String} {line : Nat} {ps : List Placed}
    {ds : List Definition} (spelled : Keyword.ofName? name = some keyword)
    (h : run (.label keyword name line) ps = .ok ds) :
    ∃ (s : Span) (d : Definition) (rest : List Placed),
      (⟨.name name, line⟩ :: ps : List Placed) = s.lexemes ++ rest ∧ (Reads s d ∧ s.HasClause d) ∧
      Gives s.lexemes rest [d] := by
  cases ps with
  | nil =>
    rw [run_nil] at h
    exact absurd h (by simp [State.close, fail])
  | cons p ps =>
    obtain ⟨s, finished, ds', step, run, rfl⟩ := run_cons_eq_ok h rfl
    obtain ⟨l, labelLine⟩ := p
    cases l with
    | mark m => exact absurd step (by simp [State.step, fail])
    | name label =>
      have named := step
      cases step
      obtain ⟨heading, opening, tail, rfl, opens, clause, enters⟩ := run_heading run
      have entered := (enters tail).symm.trans run
      have begins : ∀ qs, Reader.run (.seeking 0) (⟨.name name, line⟩ :: ⟨.name label, labelLine⟩ ::
          (heading ++ opening :: qs)) = Reader.run (opened _) qs := fun qs =>
        (run_keyword spelled line _).trans ((run_cons_proceed named _).trans (enters qs))
      have clean : ∀ p ∈ heading, p.lexeme.isBrace = false ∧ p.lexeme.isKeyword = false :=
        fun p hp => plain_of_clause clause _ (List.mem_map_of_mem hp)
      have heads : ∀ (s : Span) (entries : List String), s.keyword = ⟨.name name, line⟩ →
          s.label = ⟨.name label, labelLine⟩ → s.Heads keyword ⟨name, label, entries, line⟩ :=
        fun s entries hkeyword hlabel => ⟨hkeyword, spelled, congrArg Placed.lexeme hlabel⟩
      cases keyword with
      | union =>
        obtain ⟨body, rest, rfl, plain, member, after⟩ := run_alternatives entered
        obtain rfl := List.map_eq_nil_iff.mp (eq_nil_of_clause_union clause)
        let s : Span := ⟨⟨.name name, line⟩, ⟨.name label, labelLine⟩, [], opening, body, []⟩
        have heads := heads s (names body) rfl rfl
        refine ⟨s, _, rest, (s.lexemes_append rest).symm,
          ⟨.alternatives heads ⟨rfl, opens, rfl, plain, member rfl⟩ rfl, .union, heads, .none⟩,
          fun qs next => ?_⟩
        rw [s.lexemes_append]
        exact (begins _).trans (after qs next)
      | enum =>
        obtain ⟨body, close, rest, rfl, closes, plain, after⟩ := run_members entered
        let s : Span :=
          ⟨⟨.name name, line⟩, ⟨.name label, labelLine⟩, heading, opening, body, [close]⟩
        have unbraced : ∀ p ∈ body, p.lexeme.isBrace = false := by
          intro p hp
          rcases plain p hp with h | h
          · rw [h]; rfl
          · cases hl : p.lexeme with
            | name name => rfl
            | mark m => rw [hl] at h; exact absurd h Bool.false_ne_true
        have heads := heads s (names body) rfl rfl
        have braced : s.Braced := ⟨opens, by simp [s, closes], clean, unbraced⟩
        refine ⟨s, _, rest, (s.lexemes_append rest).symm,
          ⟨.members heads braced plain rfl, .enum, heads, clause⟩, fun qs _ => ?_⟩
        rw [s.lexemes_append]
        exact (begins _).trans (after qs)
      | type | input | interface =>
        obtain ⟨body, close, rest, es, rfl, closes, collects, after⟩ := run_fields entered
        let s : Span :=
          ⟨⟨.name name, line⟩, ⟨.name label, labelLine⟩, heading, opening, body, [close]⟩
        have unbraced : ∀ p ∈ body, p.lexeme.isBrace = false :=
          fun p hp => collects.isBrace_eq_false _ (List.mem_map_of_mem hp)
        have heads := heads s (es.map Entry.text) rfl rfl
        have braced : s.Braced := ⟨opens, by simp [s, closes], clean, unbraced⟩
        refine ⟨s, _, rest, (s.lexemes_append rest).symm,
          ⟨.fields heads (by decide) braced collects rfl, _, heads, clause⟩, fun qs _ => ?_⟩
        rw [s.lexemes_append]
        exact (begins _).trans (after qs)

/-- A run between declarations finishes nothing, or comes to a first declaration and goes on after
it. -/
theorem run_cases {ps : List Placed} {ds : List Definition} (h : run (.seeking 0) ps = .ok ds) :
    ds = [] ∧ Skippable 0 ps ∨
      ∃ (skipped : List Placed) (s : Span) (rest : List Placed) (d : Definition)
        (ds' : List Definition), ps = skipped ++ s.lexemes ++ rest ∧ ds = d :: ds' ∧
        Skippable 0 skipped ∧ braceDepth 0 skipped = 0 ∧ (Reads s d ∧ s.HasClause d) ∧
        Gives s.lexemes rest [d] ∧ run (.seeking 0) rest = .ok ds' := by
  rcases run_seeking h with ⟨rfl, plain⟩ | ⟨skipped, name, line, keyword, tail, rfl, plain, outside,
    spelled, run⟩
  · exact Or.inl ⟨rfl, plain⟩
  · obtain ⟨s, d, rest, split, reads, gives⟩ := run_label spelled run
    rw [← run_keyword spelled, split, gives rest rfl] at run
    obtain ⟨ds', after, rfl⟩ := Success.map_eq_ok.mp run
    refine Or.inr ⟨skipped, s, rest, d, ds', ?_, rfl, plain, outside, reads, gives, after⟩
    rw [split, List.append_assoc]

/-- **A successful run divides its lexemes.** -/
theorem divided_of_run {ps : List Placed} {ds : List Definition}
    (h : run (.seeking 0) ps = .ok ds) : Divided (fun s d => Reads s d ∧ s.HasClause d) ps ds := by
  induction ds generalizing ps with
  | nil =>
    rcases run_cases h with ⟨-, plain⟩ | ⟨_, _, _, _, _, _, more, _⟩
    · exact .rest plain
    · exact absurd more (List.cons_ne_nil _ _).symm
  | cons d ds ih =>
    rcases run_cases h with
      ⟨none, -⟩ | ⟨skipped, s, rest, _, _, rfl, same, plain, outside, reads, -, after⟩
    · exact absurd none (List.cons_ne_nil d ds)
    · obtain ⟨rfl, rfl⟩ := List.cons.inj same
      exact .declaration plain outside reads (ih after)

end Reader

/-- A source that is accepted has lexemes, and its definitions divide them. -/
theorem Source.divided_of_definitions {source : String} {ds : List Definition}
    (h : Source.definitions source = .ok ds) :
    ∃ ps, Source.lex (stripMarkers source) = .ok ps ∧
      (∀ p ∈ ps, isWritable p.lexeme = true) ∧ Divided Reads ps ds := by
  obtain ⟨ps, lexed, run⟩ := Success.bind_eq_ok.mp h
  exact ⟨ps, lexed, isWritable_of_mem_lexFrom lexed,
    (Reader.divided_of_run run).mono fun _ _ _ reads => reads.1⟩

/-! ## The text of the entries -/

/-- A text without its commas. -/
def withoutCommas (text : String) : String := String.ofList (text.toList.filter (· != ','))

theorem withoutCommas_append (text text' : String) :
    withoutCommas (text ++ text') = withoutCommas text ++ withoutCommas text' := by
  rw [withoutCommas, String.toList_append, List.filter_append, String.ofList_append]
  rfl

theorem withoutCommas_name {name : String} (valid : isName name = true) :
    withoutCommas name = name := by
  have kept : ∀ c ∈ name.toList, (c != ',') = true := by
    intro c hc
    rw [bne_iff_ne]
    rintro rfl
    exact absurd (Name.isNameChar_of_mem ⟨name, valid⟩ hc) (by decide)
  rw [withoutCommas, List.filter_eq_self.mpr kept, String.ofList_toList]

/-- Taking the commas out of a text is taking out the lexemes that they are. -/
theorem withoutCommas_joinedText {ls : List Lexeme} (writable : ∀ l ∈ ls, isWritable l = true) :
    withoutCommas (Entry.joinedText ls) = Entry.joinedText (content ls) := by
  induction ls with
  | nil => rfl
  | cons l ls ih =>
    have ih := ih fun l' hl' => writable l' (List.mem_cons_of_mem l hl')
    rw [Entry.joinedText_cons, withoutCommas_append, ih]
    by_cases comma : l = .mark .comma
    · subst comma
      rw [content_comma]
      exact String.empty_append
    · rw [content_cons comma, Entry.joinedText_cons]
      congr 1
      cases l with
      | name name => exact withoutCommas_name (writable _ List.mem_cons_self)
      | mark m =>
        cases m with
        | comma => exact absurd rfl comma
        | _ => decide

theorem join_map_text (es : List Entry) :
    String.join (es.map Entry.text) = Entry.joinedText (es.flatMap Entry.written) := by
  induction es with
  | nil => rfl
  | cons e es ih =>
    rw [List.map_cons, String.join_cons, ih, List.flatMap_cons, Entry.joinedText_append]
    rfl

/-- Lexemes with only names left are the names among them. -/
theorem filter_eq_names {ps : List Placed} {keep : Lexeme → Bool}
    (kept : ∀ p ∈ ps, keep p.lexeme = p.lexeme.name?.isSome) :
    (ps.map Placed.lexeme).filter keep = (names ps).map Lexeme.name := by
  induction ps with
  | nil => rfl
  | cons p ps ih =>
    have first := kept p List.mem_cons_self
    have ih := ih fun q hq => kept q (List.mem_cons_of_mem p hq)
    rw [List.map_cons, List.filter_cons, first, ih, names_cons]
    cases p.lexeme <;> rfl

theorem isName_of_mem_names {ps : List Placed} (writable : ∀ p ∈ ps, isWritable p.lexeme = true)
    {name : String} (h : name ∈ names ps) : isName name = true := by
  obtain ⟨p, hp, named⟩ := List.mem_filterMap.mp h
  have valid := writable p hp
  cases hl : p.lexeme with
  | mark m => rw [hl] at named; exact absurd named (by simp [Lexeme.name?])
  | name text =>
    rw [hl] at named valid
    exact Option.some.inj named ▸ valid

/-- The names of a declaration are written out as they are. -/
theorem withoutCommas_join_names {ps : List Placed}
    (writable : ∀ p ∈ ps, isWritable p.lexeme = true) :
    withoutCommas (String.join (names ps)) =
      Entry.joinedText ((names ps).map Lexeme.name) := by
  have text : String.join (names ps) = Entry.joinedText ((names ps).map Lexeme.name) := by
    rw [Entry.joinedText, List.map_map]
    exact congrArg String.join (List.map_id _).symm
  have valid : ∀ l ∈ (names ps).map Lexeme.name, isWritable l = true := by
    intro l hl
    obtain ⟨name, hname, rfl⟩ := List.mem_map.mp hl
    exact isName_of_mem_names writable hname
  have plain : content ((names ps).map Lexeme.name) = (names ps).map Lexeme.name :=
    List.filter_eq_self.mpr fun l hl => by
      obtain ⟨name, -, rfl⟩ := List.mem_map.mp hl
      simp
  rw [text, withoutCommas_joinedText valid, plain]

/-! ## The division of a source -/

namespace Span

/-- The lexemes of a body that are no separators: commas are not, and no bars in a union. -/
def content (s : Span) : Keyword → List Lexeme
  | .union => (SchemaTypegen.content (s.body.map Placed.lexeme)).filter (· ≠ .mark .bar)
  | .type | .input | .enum | .interface => SchemaTypegen.content (s.body.map Placed.lexeme)

/-- The declaration is that of the definition: it has its keyword, its line and its label, the form
that goes with the keyword, and a body of the same text, separators apart. -/
def Declares (s : Span) (d : Definition) : Prop :=
  ∃ keyword, s.Heads keyword d ∧ (if keyword = .union then s.Barred else s.Braced) ∧
    withoutCommas (String.join d.entries) = Entry.joinedText (s.content keyword)

theorem content_of_ne {keyword : Keyword} (h : keyword ≠ .union) (s : Span) :
    s.content keyword = SchemaTypegen.content (s.body.map Placed.lexeme) := by
  cases keyword with
  | union => exact absurd rfl h
  | _ => rfl

end Span

theorem Reads.declares {s : Span} {d : Definition} (h : Reads s d)
    (writable : ∀ p ∈ s.lexemes, isWritable p.lexeme = true) : s.Declares d := by
  have body : ∀ p ∈ s.body, isWritable p.lexeme = true :=
    fun p hp => writable p (by simp [Span.lexemes, hp])
  cases h with
  | @fields keyword es heads keeps braced collects same =>
    have held : content (es.flatMap Entry.written) = content (s.body.map Placed.lexeme) :=
      collects.content_eq
    have valid : ∀ l ∈ es.flatMap Entry.written, isWritable l = true := by
      refine collects.isWritable fun l hl => ?_
      obtain ⟨p, hp, rfl⟩ := List.mem_map.mp hl
      exact body p hp
    refine ⟨keyword, heads, by rwa [if_neg keeps.2], ?_⟩
    rw [same, join_map_text, withoutCommas_joinedText valid, held, Span.content_of_ne keeps.2]
  | members heads braced plain same =>
    have kept : content (s.body.map Placed.lexeme) = (names s.body).map Lexeme.name := by
      refine filter_eq_names fun p hp => ?_
      rcases plain p hp with comma | name
      · rw [comma]; rfl
      · cases hl : p.lexeme with
        | name text => simp [Lexeme.name?]
        | mark m => rw [hl] at name; exact absurd name (by simp [Lexeme.name?])
    refine ⟨.enum, heads, by rwa [if_neg (by decide)], ?_⟩
    rw [same, withoutCommas_join_names body, ← kept]
    rfl
  | alternatives heads barred same =>
    have kept : s.content .union = (names s.body).map Lexeme.name := by
      rw [Span.content, content, List.filter_filter]
      refine filter_eq_names fun p hp => ?_
      rcases barred.body p hp with bar | name
      · rw [bar]; rfl
      · cases hl : p.lexeme with
        | name text => simp [Lexeme.name?]
        | mark m => rw [hl] at name; exact absurd name (by simp [Lexeme.name?])
    refine ⟨.union, heads, by rwa [if_pos rfl], ?_⟩
    rw [same, withoutCommas_join_names body, kept]

/-- **No declaration is lost, invented or cut short.** The lexemes of an accepted source are those
of its declarations, one for each definition and in order, and others before, between and after them
among which no declaration keyword stands outside all braces. -/
theorem Source.definitions_divide {source : String} {ds : List Definition}
    (h : Source.definitions source = .ok ds) :
    ∃ ps, Source.lex (stripMarkers source) = .ok ps ∧ Divided Span.Declares ps ds := by
  obtain ⟨ps, lexed, writable, divided⟩ := Source.divided_of_definitions h
  refine ⟨ps, lexed, divided.mono fun s within d reads => ?_⟩
  exact reads.declares fun p hp => writable p (within p hp)

/-! ### A union that ends at a skipped construct -/

/-- After the union a keyword stands inside braces, and the input has commas that are not needed. -/
def dividedSource : String := "UNION U=|A|B schema\x7btype\x7d input I\x7b,a:[ID!],,b:ID\x7d"

/-- The definitions of `dividedSource`. -/
def dividedDefinitions : List Definition :=
  [⟨"UNION", "U", ["A", "B"], 1⟩, ⟨"input", "I", ["a:[ID!]", "b:ID"], 1⟩]

theorem Source.definitions_dividedSource :
    Source.definitions dividedSource = .ok dividedDefinitions := by
  exact Source.definitions_of_sweep (onLine 1
    [.name "UNION", .name "U", .mark .equals, .mark .bar, .name "A", .mark .bar, .name "B",
      .name "schema", .mark .openBrace, .name "type", .mark .closeBrace,
      .name "input", .name "I", .mark .openBrace, .mark .comma, .name "a", .mark .colon,
      .mark .openBracket, .name "ID", .mark .bang, .mark .closeBracket, .mark .comma, .mark .comma,
      .name "b", .mark .colon, .name "ID", .mark .closeBrace]) (by decide) (by rfl)

theorem Source.definitions_divide_dividedSource :
    Source.definitions dividedSource = .ok dividedDefinitions ∧
      ∃ ps, Source.lex (stripMarkers dividedSource) = .ok ps ∧
        Divided Span.Declares ps dividedDefinitions :=
  ⟨Source.definitions_dividedSource, Source.definitions_divide Source.definitions_dividedSource⟩

end SchemaTypegen
