import SchemaTypegen.Proofs.Lexing
import SchemaTypegen.Proofs.Reading.Entries

/-!
# Every layout of a schema is read as its normal form

The machine on the lexemes of a layout. `Leads s ls s'` says that the lexemes take the machine from
`s` to `s'` without finishing a definition, and `Finishes s ls d` that they finish `d` and nothing
else. Neither looks at the lines of the lexemes: only the line of a keyword is kept.

* `leads_fields`: an entry is written to the definition when the next one begins, at a comma, or at
  the closing brace. `Ready` is the invariant between two fields, and `flush` is what the definition
  holds once the open entry is written.
* `run_of_union`: a union ends before the next keyword, which is then read again, or at the end.
* `run_of_written`: by induction on the layout of the whole schema.
* **`ofSource_of_renders`**: from the characters of a source to its document.
-/

namespace SchemaTypegen

namespace Reader

open Text Grammar

/-! ## Runs over part of the lexemes -/

theorem run_cons_next {s s' : State} {p : Placed} {finished : Option Definition}
    (h : s.step p = .ok (.next s' finished)) (rest : List Placed) :
    run s (p :: rest) = (run s' rest).map (finished.toList ++ ·) := by
  rw [run]
  split <;> simp_all

theorem run_cons_again {s : State} {p : Placed} {d : Definition} (h : s.step p = .ok (.again d))
    (rest : List Placed) : run s (p :: rest) = (run (.seeking 0) (p :: rest)).map (d :: ·) := by
  rw [run]
  split <;> simp_all

theorem run_cons_proceed {s s' : State} {p : Placed} (h : s.step p = proceed s')
    (rest : List Placed) : run s (p :: rest) = run s' rest := by
  rw [run_cons_next h]
  cases run s' rest <;> rfl

/-- The lexemes take the machine from one state to another and finish nothing. -/
def Leads (s : State) (ls : List Lexeme) (s' : State) : Prop :=
  ∀ ps rest, ps.map Placed.lexeme = ls → run s (ps ++ rest) = run s' rest

/-- The lexemes finish one definition and take the machine back to between declarations. -/
def Finishes (s : State) (ls : List Lexeme) (d : Definition) : Prop :=
  ∀ ps rest, ps.map Placed.lexeme = ls → run s (ps ++ rest) = (run (.seeking 0) rest).map (d :: ·)

theorem Leads.refl (s : State) : Leads s [] s := by
  intro ps rest h
  rw [List.map_eq_nil_iff.mp h]
  rfl

theorem Leads.trans {s s' s'' : State} {ls ls' : List Lexeme} (h : Leads s ls s')
    (h' : Leads s' ls' s'') : Leads s (ls ++ ls') s'' := by
  intro ps rest hps
  obtain ⟨ps₁, ps₂, rfl, h₁, h₂⟩ := List.map_eq_append_iff.mp hps
  rw [List.append_assoc, h ps₁ _ h₁, h' ps₂ _ h₂]

theorem Leads.finishes {s s' : State} {ls ls' : List Lexeme} {d : Definition} (h : Leads s ls s')
    (h' : Finishes s' ls' d) : Finishes s (ls ++ ls') d := by
  intro ps rest hps
  obtain ⟨ps₁, ps₂, rfl, h₁, h₂⟩ := List.map_eq_append_iff.mp hps
  rw [List.append_assoc, h ps₁ _ h₁, h' ps₂ _ h₂]

theorem Leads.single {s s' : State} {l : Lexeme} (h : ∀ line, s.step ⟨l, line⟩ = proceed s') :
    Leads s [l] s' := by
  intro ps rest hps
  obtain ⟨p, rfl, rfl⟩ := List.map_eq_singleton_iff.mp hps
  exact run_cons_proceed (h p.line) rest

theorem Leads.cons {s s' s'' : State} {l : Lexeme} {ls : List Lexeme}
    (h : ∀ line, s.step ⟨l, line⟩ = proceed s') (rest : Leads s' ls s'') : Leads s (l :: ls) s'' :=
  (Leads.single h).trans rest

theorem Finishes.single {s : State} {l : Lexeme} {d : Pending}
    (h : ∀ line, s.step ⟨l, line⟩ = finish d) : Finishes s [l] d.finish := by
  intro ps rest hps
  obtain ⟨p, rfl, rfl⟩ := List.map_eq_singleton_iff.mp hps
  exact run_cons_next (h p.line) rest

/-! ## Blocks of fields -/

/-- The definition with more entries. -/
def extend (d : Pending) (entries : List String) : Pending :=
  { d with entries := d.entries ++ entries }

@[simp] theorem extend_nil (d : Pending) : extend d [] = d := by
  unfold extend
  rw [List.append_nil]

@[simp] theorem extend_add (d : Pending) (entry : String) (entries : List String) :
    extend (d.add entry) entries = extend d (entry :: entries) := by
  unfold extend Pending.add
  rw [List.append_assoc]
  rfl

/-- The definition once the open entry is written to it. -/
def flush (d : Pending) (e : Entry) : Pending := if e.written = [] then d else d.add e.text

/-- Between two fields: nothing is open, or a complete entry is. -/
def Ready (e : Entry) : Prop := e = {} ∨ (e.argument = none ∧ e.field = .complete ∧ e.written ≠ [])

theorem leads_of_continues {e e' : Entry} {ls : List Lexeme} (d : Pending)
    (h : Entry.Continues e ls e') (noBrace : .mark .closeBrace ∉ ls) :
    Leads (.fields d e) ls (.fields d e') := by
  induction h with
  | nil => exact Leads.refl _
  | @cons e e' e'' l ls read _ ih =>
    rw [List.mem_cons, not_or] at noBrace
    refine Leads.cons (fun line => ?_) (ih noBrace.2)
    simp only [State.step, block, Ne.symm noBrace.1, false_and, if_false, read]

theorem leads_name_of_ready {e : Entry} (h : Ready e) (d : Pending) (name : String) :
    Leads (.fields d e) [.name name] (.fields (flush d e) { written := [.name name] }) := by
  refine Leads.single fun line => ?_
  rcases h with rfl | ⟨hargument, hfield, hwritten⟩
  · rfl
  · simp [State.step, block, Entry.read?, Entry.readName?, hargument, hfield, flush, hwritten]

theorem leads_comma_of_ready {e : Entry} (h : Ready e) (d : Pending) :
    Leads (.fields d e) [.mark .comma] (.fields (flush d e) {}) := by
  refine Leads.single fun line => ?_
  rcases h with rfl | ⟨hargument, hfield, hwritten⟩
  · rfl
  · simp [State.step, block, Entry.read?, Entry.readMark?, Entry.readComma?, hargument, hfield,
      flush, hwritten]

theorem finishes_brace_of_ready {e : Entry} (h : Ready e) (d : Pending) :
    Finishes (.fields d e) [.mark .closeBrace] (flush d e).finish := by
  refine Finishes.single fun line => ?_
  rcases h with rfl | ⟨hargument, hfield, hwritten⟩
  · rfl
  · simp [State.step, block, hargument, hfield, flush, hwritten]

theorem closeBrace_notMem_type (t : TypeExpr) : Lexeme.mark .closeBrace ∉ t.lexemes := by
  have bangs : ∀ required, Lexeme.mark .closeBrace ∉ bangLexemes required := by decide
  induction t with
  | named name required => simp [TypeExpr.lexemes, bangs]
  | list element required ih => simp [TypeExpr.lexemes, bangs, ih]

theorem closeBrace_notMem_parens {arguments : Option (List ArgumentDecl)} {ls : List Lexeme}
    (h : ArgumentsLaid arguments ls) : Lexeme.mark .closeBrace ∉ ls := by
  cases h with
  | none => exact List.not_mem_nil
  | @some arguments ls list =>
    suffices h : Lexeme.mark .closeBrace ∉ ls by simp [h]
    generalize arguments.isEmpty = trailing at list
    induction list with
    | nil => exact List.not_mem_nil
    | comma _ _ ih => simp [ih]
    | item first _ ih => simp [first, ih, ArgumentDecl.lexemes, closeBrace_notMem_type]

/-- A field between two others: what was open is written, and the field is left open. -/
theorem leads_field {f : FieldDecl} {ls : List Lexeme} (h : FieldLaid f ls) {e : Entry}
    (ready : Ready e) (d : Pending) :
    Leads (.fields d e) ls
      (.fields (flush d e) { written := Entry.normal f, field := .complete }) := by
  cases h with
  | mk arguments =>
    refine (leads_name_of_ready ready d f.name.text).trans ?_
    refine leads_of_continues _ (Entry.continues_field arguments) ?_
    simp [closeBrace_notMem_parens arguments, closeBrace_notMem_type]

/-- The fields of a block, one entry each in normal form. -/
theorem leads_fields {fields : List FieldDecl} {ls : List Lexeme}
    (h : Sprinkled FieldLaid true fields ls) :
    ∀ {e : Entry} (d : Pending), Ready e → ∃ d' e', Ready e' ∧
      Leads (.fields d e) ls (.fields d' e') ∧
      flush d' e' = extend (flush d e) (fields.map FieldDecl.text) := by
  induction h with
  | nil =>
    intro e d ready
    exact ⟨d, e, ready, Leads.refl _, (extend_nil _).symm⟩
  | comma _ _ ih =>
    intro e d ready
    obtain ⟨d', e', ready', leads, flushed⟩ := ih (flush d e) (Or.inl rfl)
    exact ⟨d', e', ready', (leads_comma_of_ready ready d).trans leads, flushed⟩
  | @item f fields ls ls' first _ ih =>
    intro e d ready
    have begun : Entry.normal f ≠ [] := List.cons_ne_nil _ _
    have written : flush (flush d e) { written := Entry.normal f, field := .complete } =
        (flush d e).add f.text := by
      simp only [flush, begun, if_false, Entry.text]
      rw [← Entry.joinedText_normal, Entry.joinedText]
    obtain ⟨d', e', ready', leads, flushed⟩ :=
      ih (e := { written := Entry.normal f, field := .complete }) (flush d e)
        (Or.inr ⟨rfl, rfl, begun⟩)
    refine ⟨d', e', ready', (leads_field first ready d).trans leads, ?_⟩
    rw [flushed, written, extend_add, List.map_cons]

/-- A block of fields, from its opening brace to its closing brace. -/
theorem finishes_block {fields : List FieldDecl} {ls : List Lexeme} (h : BlockLaid fields ls)
    {s : State} {d : Pending}
    (opens : ∀ line, s.step ⟨.mark .openBrace, line⟩ = proceed (.fields d {})) :
    Finishes s ls (extend d (fields.map FieldDecl.text)).finish := by
  cases h with
  | mk list =>
    obtain ⟨d', e', ready, leads, flushed⟩ := leads_fields list (e := {}) d (Or.inl rfl)
    have done := (Leads.cons opens leads).finishes (finishes_brace_of_ready ready d')
    rw [flushed] at done
    exact done

/-! ## Declarations -/

/-- What is known of a declaration after its label. -/
def begun (i : Item) : Pending := ⟨i.shape.keyword, i.spelling, i.label.text, [], i.line⟩

theorem finish_extend_begun (i : Item) :
    (extend (begun i) i.shape.entries).finish = i.definition :=
  rfl

/-- The names after `implements`, with the marks between them. -/
theorem leads_interfaces {d : Pending} (h : d.keyword = .type ∨ d.keyword = .interface)
    (names : List PlainName) :
    Leads (.heading d true) (joined .ampersand (names.map PlainName.toName)) (.heading d true) := by
  have name : ∀ n : PlainName, Leads (.heading d true) [.name n.text] (.heading d true) :=
    fun n => Leads.single fun line => by
      rcases h with h | h <;> simp [State.step, head, h, n.plain]
  have mark : Leads (.heading d true) [.mark .ampersand] (.heading d true) :=
    Leads.single fun line => by
      rcases h with h | h <;> simp [State.step, head, h]
  induction names with
  | nil => exact Leads.refl _
  | cons n names ih =>
    cases names with
    | nil => exact name n
    | cons n' names => exact (name n).trans (mark.trans ih)

/-- An `implements` clause, whether there is one or not, and the block after it. -/
theorem finishes_clause_block {d : Pending} (h : d.keyword = .type ∨ d.keyword = .interface)
    {interfaces : Option (List PlainName)} {fields : List FieldDecl} {ls ls' : List Lexeme}
    (clause : ClauseLaid interfaces ls) (block : BlockLaid fields ls') :
    Finishes (.heading d false) (ls ++ ls') (extend d (fields.map FieldDecl.text)).finish := by
  have opens : ∀ implementing line, (State.heading d implementing).step ⟨.mark .openBrace, line⟩ =
      proceed (.fields d {}) := by
    intro implementing line
    rcases h with h | h <;> simp [State.step, head, h]
  cases clause with
  | none => exact finishes_block block (opens false)
  | @some names word spelled =>
    have clause : ∀ line, (State.heading d false).step ⟨.name word, line⟩ =
        proceed (.heading d true) := by
      intro line
      rcases h with h | h <;> simp [State.step, head, h, spelled]
    exact (Leads.cons clause (leads_interfaces h names)).finishes
      (finishes_block block (opens true))

/-- The members of an enum. -/
theorem leads_members {members : List Name} {ls : List Lexeme}
    (h : Sprinkled (fun n ls => ls = [.name n.text]) true members ls) :
    ∀ d : Pending, Leads (.members d) ls (.members (extend d (members.map Name.text))) := by
  induction h with
  | nil =>
    intro d
    rw [List.map_nil, extend_nil]
    exact Leads.refl _
  | comma _ _ ih => exact fun d => Leads.cons (fun _ => rfl) (ih d)
  | @item n members ls ls' first _ ih =>
    intro d
    subst first
    have rest := ih (d.add n.text)
    rw [extend_add] at rest
    exact Leads.cons (fun _ => rfl) rest

/-- The members of a union, after `=`, a leading bar or none. -/
theorem leads_alternatives (d : Pending) (first : Name) (others : List Name) :
    Leads (.alternatives d true) (joined .bar (first :: others))
      (.alternatives (extend d ((first :: others).map Name.text)) false) := by
  have name : ∀ (d : Pending) (n : Name),
      Leads (.alternatives d true) [.name n.text] (.alternatives (d.add n.text) false) :=
    fun d n => Leads.single fun _ => rfl
  have bar : ∀ d : Pending, Leads (.alternatives d false) [.mark .bar] (.alternatives d true) :=
    fun d => Leads.single fun _ => rfl
  induction others generalizing d first with
  | nil => exact name d first
  | cons n others ih =>
    have rest := ih (d.add first.text) n
    rw [extend_add] at rest
    exact (name d first).trans ((bar _).trans rest)

/-- A declaration with a closing brace, after its label. -/
theorem finishes_item {i : Item} {ls : List Lexeme} (laid : i.shape.Laid ls)
    (closes : i.shape.keyword ≠ .union) : Finishes (.heading (begun i) false) ls i.definition := by
  rw [← finish_extend_begun]
  obtain ⟨label, shape, spelling, line, spelled⟩ := i
  cases laid with
  | type clause block => exact finishes_clause_block (Or.inl rfl) clause block
  | interface clause block => exact finishes_clause_block (Or.inr rfl) clause block
  | input block => exact finishes_block block fun _ => rfl
  | enum list =>
    exact (Leads.cons (fun _ => rfl) (leads_members list _)).finishes (Finishes.single fun _ => rfl)
  | union => exact absurd rfl closes
  | barredUnion => exact absurd rfl closes

/-- A union, after its label: it is complete, but nothing has ended it. -/
theorem leads_union {i : Item} {ls : List Lexeme} (laid : i.shape.Laid ls)
    (union : i.shape.keyword = .union) :
    Leads (.heading (begun i) false) ls
      (.alternatives (extend (begun i) i.shape.entries) false) := by
  obtain ⟨label, shape, spelling, line, spelled⟩ := i
  cases laid with
  | type | interface | input | enum => exact absurd union Keyword.noConfusion
  | union => exact Leads.cons (fun _ => rfl) (leads_alternatives _ _ _)
  | barredUnion =>
    exact Leads.cons (fun _ => rfl) (Leads.cons (fun _ => rfl) (leads_alternatives _ _ _))

/-! ## Constructs that declare nothing -/

/-- Inside braces nothing but braces counts. -/
theorem leads_balanced {ls : List Lexeme} (h : Balanced ls) :
    ∀ depth, Leads (.seeking (depth + 1)) ls (.seeking (depth + 1)) := by
  induction h with
  | nil => exact fun depth => Leads.refl _
  | @other l ls notOpen notClose _ ih =>
    intro depth
    refine Leads.cons (fun line => ?_) (ih depth)
    cases l with
    | name name => rfl
    | mark m => cases m <;> first | rfl | contradiction
  | braces _ _ ih ih' =>
    intro depth
    exact (Leads.cons (fun _ => rfl) (ih (depth + 1))).trans (Leads.cons (fun _ => rfl) (ih' depth))

/-- No word is spelled like a declaration keyword and like something else. -/
theorem ofName?_eq_none_of_sameLetters {word name : String} (h : sameLetters word name = true)
    (plain : Keyword.ofName? word = none) : Keyword.ofName? name = none := by
  rw [sameLetters, beq_iff_eq] at h
  unfold Keyword.ofName? sameLetters at plain ⊢
  rw [← h]
  exact plain

theorem leads_plain_name {name : String} (plain : Keyword.ofName? name = none) :
    Leads (.seeking 0) [.name name] (.seeking 0) := by
  refine Leads.single fun line => ?_
  simp only [State.step, seek, plain]

/-! ## Schemas -/

/-- After a union, the keyword of the next construct or the end of the text ends it. -/
theorem run_of_union {d : Pending} {ps : List Placed}
    (ends : ∀ p ∈ ps.head?, ∃ name, p.lexeme = .name name ∧
      (isDeclarationKeyword name || isSkippedKeyword name) = true) :
    run (.alternatives d false) ps = (run (.seeking 0) ps).map (d.finish :: ·) := by
  cases ps with
  | nil =>
    rw [run, run]
    rfl
  | cons p ps =>
    obtain ⟨name, hp, hname⟩ := ends p rfl
    refine run_cons_again ?_ ps
    simp only [State.step, hp, alternative, hname, if_true]

/-- Every construct of a schema begins with a keyword that would end a union. -/
theorem head_of_written {items : List Item} {ps : List Placed} (h : Written items ps) :
    ∀ p ∈ ps.head?, ∃ name, p.lexeme = .name name ∧
      (isDeclarationKeyword name || isSkippedKeyword name) = true := by
  intro p hp
  cases h with
  | nil => exact absurd hp (by simp)
  | @item i _ _ _ _ _ _ =>
    obtain rfl : _ = p := by simpa using hp
    exact ⟨i.spelling, rfl, by simp [isDeclarationKeyword, i.spelled]⟩
  | @scalar _ _ word _ _ _ spelled _ =>
    obtain rfl : _ = p := by simpa using hp
    exact ⟨word, rfl, by simp [isSkippedKeyword, spelled]⟩
  | @schema _ _ _ word _ _ _ spelled _ _ =>
    obtain rfl : _ = p := by simpa using hp
    exact ⟨word, rfl, by simp [isSkippedKeyword, spelled]⟩

/-- **The machine reads every layout of a schema as its definitions**, in order. -/
theorem run_of_written {items : List Item} {ps : List Placed} (h : Written items ps) :
    run (.seeking 0) ps = .ok (items.map Item.definition) := by
  induction h with
  | nil => rw [run]; rfl
  | @item i items ps qs line laid rest ih =>
    have keyword : (State.seeking 0).step ⟨.name i.spelling, i.line⟩ =
        proceed (.label i.shape.keyword i.spelling i.line) := by
      simp only [State.step, seek, i.spelled]
    have label : (State.label i.shape.keyword i.spelling i.line).step ⟨.name i.label.text, line⟩ =
        proceed (.heading (begun i) false) := rfl
    rw [List.cons_append, List.cons_append, run_cons_proceed keyword, run_cons_proceed label]
    by_cases union : i.shape.keyword = .union
    · rw [leads_union laid union ps qs rfl, run_of_union (head_of_written rest), ih,
        finish_extend_begun]
      rfl
    · rw [finishes_item laid union ps qs rfl, ih]
      rfl
  | @scalar items qs word n line line' spelled _ ih =>
    have plain : Keyword.ofName? n.text = none := by
      simpa [isDeclarationKeyword] using n.plain
    have skipped : Leads (.seeking 0) [.name word, .name n.text] (.seeking 0) :=
      (leads_plain_name (ofName?_eq_none_of_sameLetters spelled (by decide))).trans
        (leads_plain_name plain)
    rw [← ih, ← skipped [⟨.name word, line⟩, ⟨.name n.text, line'⟩] qs rfl]
    rfl
  | @schema items ps qs word line line' line'' spelled balanced _ ih =>
    have block : Leads (.seeking 0)
        (.mark .openBrace :: ps.map Placed.lexeme ++ [.mark .closeBrace]) (.seeking 0) :=
      (Leads.cons (fun _ => rfl) (leads_balanced balanced 0)).trans (Leads.single fun _ => rfl)
    have skipped := (leads_plain_name
      (ofName?_eq_none_of_sameLetters spelled (by decide))).trans block
    rw [← ih, ← skipped (⟨.name word, line⟩ :: ⟨.mark .openBrace, line'⟩ :: ps ++
      [⟨.mark .closeBrace, line''⟩]) qs (by simp)]
    simp

end Reader

open Grammar

/-- **Every rendering of a schema is read as its normal form**: one definition for each declaration,
in source order, with the keyword as spelled, the line it stands on, the label, and the entries in
normal form; and the document keeps the root operations apart. -/
theorem Document.ofSource_of_renders {items : List Item} {source : String}
    (h : Renders items source) :
    Source.definitions source = .ok (items.map Item.definition) ∧
      Document.ofSource source = .ok (document items) := by
  obtain ⟨ps, text, written, spaced, marked⟩ := h
  have definitions : Source.definitions source = .ok (items.map Item.definition) := by
    rw [Source.definitions, Source.lex_stripMarkers_of_spaced spaced marked]
    exact Reader.run_of_written written
  refine ⟨definitions, ?_⟩
  rw [Document.ofSource, definitions, ← ofDefinitions_map_definition]
  rfl

/-! ### A rendering with most of the freedom there is -/

/-- A union of one member. -/
def sampleUnion : Item := ⟨.of "U", .union (.of "A") [], "UNION", 1, by decide⟩

/-- A field with two arguments. -/
def sampleField : FieldDecl where
  name := .of "f"
  arguments := some
    [⟨.of "x", .list (.named (.of "ID") true) false⟩,
      ⟨.of "y", .named (.of "ID") false⟩]
  type := .named (.of "A") true

/-- A type with an interface. -/
def sampleType : Item where
  label := .of "A"
  shape := .type (some [⟨.of "N", by decide⟩]) [sampleField]
  spelling := "tYpe"
  line := 2
  spelled := by decide

/-- The union ends at the keyword after it, a marker stands inside that keyword, some commas are
missing and some are not needed, and a block is skipped. -/
def sampleSource : String :=
  "UNION U=|A\ntY\u0002pe A implements N\x7b,f(,x:[ID!]y:ID):A!,\x7dschema\x7ba\x7b\x7d\x7d"

theorem renders_sample : Renders [sampleUnion, sampleType] sampleSource := by
  have union : sampleUnion.shape.Laid _ := .barredUnion
  have clause : ClauseLaid (some [⟨.of "N", by decide⟩]) [.name "implements", .name "N"] :=
    .some (by decide)
  have field : FieldLaid sampleField _ :=
    .mk (.some (.comma (Or.inl (List.cons_ne_nil _ _)) (.item rfl (.item rfl .nil))))
  have type : sampleType.shape.Laid _ :=
    .type clause (.mk (.comma (Or.inr rfl) (.item field (.comma (Or.inr rfl) .nil))))
  have braces : Balanced [.name "a", .mark .openBrace, .mark .closeBrace] :=
    .other (by decide) (by decide) (.braces .nil .nil)
  have written :=
    Written.itemOnLine union (Written.itemOnLine type (Written.schemaOnLine 2 braces .nil))
  exact ⟨_, _, written, spaced_of_isSpaced (by decide), marked_filter _⟩

theorem Document.ofSource_sample :
    Source.definitions sampleSource = .ok ([sampleUnion, sampleType].map Item.definition) ∧
      [sampleUnion, sampleType].map Item.definition =
        [⟨"UNION", "U", ["A"], 1⟩, ⟨"tYpe", "A", ["f(x:[ID!],y:ID):A!"], 2⟩] ∧
      Document.ofSource sampleSource = .ok (document [sampleUnion, sampleType]) :=
  ⟨(Document.ofSource_of_renders renders_sample).1, by decide,
    (Document.ofSource_of_renders renders_sample).2⟩

end SchemaTypegen
