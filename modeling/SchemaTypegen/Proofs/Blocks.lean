import SchemaTypegen.Proofs.Trace

/-!
# Which blocks of a source are closed

A block is closed if its opening brace has its own closing brace after it. The blocks of
declarations always are, and so are the blocks that are skipped before a declaration. After the last
declaration a skipped block may be left open: between declarations the end of the text is accepted
at any depth. Everything from such a brace on is part of what is skipped, whatever it declares.

* `blocksClosed_iff`: all blocks are closed exactly if no brace is open at the end.
* **`blocks_closed_iff_endState`**: in an accepted source, exactly if the run does not end inside
  braces.
* `block_left_open`: there are sources whose runs do.
-/

namespace SchemaTypegen

open Text Grammar

/-! ## Closed blocks -/

/-- Every opening brace has its own closing brace: the first one up to which all is balanced. -/
def BlocksClosed (ls : List Lexeme) : Prop :=
  ∀ before after, ls = before ++ .mark .openBrace :: after →
    ∃ inside rest, Balanced inside ∧ after = inside ++ .mark .closeBrace :: rest

/-- How many braces are open after lexemes, whatever their lines. -/
def openAfter (depth : Nat) (ls : List Lexeme) : Nat := ls.foldl Lexeme.braceDepth depth

theorem openAfter_map_lexeme (depth : Nat) (ps : List Placed) :
    openAfter depth (ps.map Placed.lexeme) = braceDepth depth ps :=
  List.foldl_map

theorem openAfter_cons (depth : Nat) (l : Lexeme) (ls : List Lexeme) :
    openAfter depth (l :: ls) = openAfter (l.braceDepth depth) ls :=
  rfl

theorem openAfter_append (depth : Nat) (ls ls' : List Lexeme) :
    openAfter depth (ls ++ ls') = openAfter (openAfter depth ls) ls' :=
  List.foldl_append

theorem Lexeme.braceDepth_of_ne {l : Lexeme} (notOpen : l ≠ .mark .openBrace)
    (notClose : l ≠ .mark .closeBrace) (depth : Nat) : l.braceDepth depth = depth := by
  refine Lexeme.braceDepth_of_isBrace ?_ depth
  unfold Lexeme.isBrace
  split
  · exact absurd rfl notOpen
  · exact absurd rfl notClose
  · rfl

/-- Balanced lexemes leave the depth as it is. -/
theorem openAfter_of_balanced {ls : List Lexeme} (h : Balanced ls) (depth : Nat) :
    openAfter depth ls = depth := by
  induction h generalizing depth with
  | nil => rfl
  | other notOpen notClose _ ih =>
    rw [openAfter_cons, Lexeme.braceDepth_of_ne notOpen notClose, ih]
  | braces _ _ ih ih' =>
    rw [List.cons_append, openAfter_cons, openAfter_append, ih, openAfter_cons]
    exact ih' depth

/-- Where the depth falls below that of an open brace, the brace is closed. -/
theorem exists_closing {depth : Nat} {ls : List Lexeme} (h : openAfter (depth + 1) ls ≤ depth) :
    ∃ inside rest, Balanced inside ∧ ls = inside ++ .mark .closeBrace :: rest := by
  -- A block that begins before that is closed first, and what follows it is shorter.
  induction hn : ls.length using Nat.strongRecOn generalizing ls depth with
  | _ n ih =>
    cases ls with
    | nil => exact absurd h (Nat.not_succ_le_self depth)
    | cons l ls =>
      rw [List.length_cons] at hn
      rw [openAfter_cons] at h
      by_cases closes : l = .mark .closeBrace
      · exact ⟨[], ls, .nil, by rw [closes]; rfl⟩
      by_cases opens : l = .mark .openBrace
      · subst opens
        have inner : openAfter (depth + 2) ls ≤ depth + 1 := Nat.le_succ_of_le h
        obtain ⟨inside, rest, balanced, rfl⟩ := ih _ (by omega) inner rfl
        have outer : openAfter (depth + 1) rest ≤ depth := by
          have h : openAfter (depth + 2) (inside ++ .mark .closeBrace :: rest) ≤ depth := h
          rwa [openAfter_append, openAfter_of_balanced balanced, openAfter_cons] at h
        rw [List.length_append, List.length_cons] at hn
        obtain ⟨inside', rest', balanced', rfl⟩ := ih _ (by omega) outer rfl
        exact ⟨_, rest', .braces balanced balanced', by simp⟩
      · rw [Lexeme.braceDepth_of_ne opens closes] at h
        obtain ⟨inside, rest, balanced, rfl⟩ := ih _ (by omega) h rfl
        exact ⟨l :: inside, rest, .other opens closes balanced, rfl⟩

/-- Closed blocks leave no more braces open than there were. -/
theorem BlocksClosed.openAfter_le {ls : List Lexeme} (h : BlocksClosed ls) (depth : Nat) :
    openAfter depth ls ≤ depth := by
  have tail : ∀ {first rest : List Lexeme}, BlocksClosed (first ++ rest) → BlocksClosed rest :=
    fun {first rest} h before after split => h (first ++ before) after (by simp [split])
  induction hn : ls.length using Nat.strongRecOn generalizing ls depth with
  | _ n ih =>
    cases ls with
    | nil => exact Nat.le_refl depth
    | cons l ls =>
      rw [List.length_cons] at hn
      have rest := @tail [l] ls h
      by_cases opens : l = .mark .openBrace
      · subst opens
        obtain ⟨inside, others, balanced, rfl⟩ := h [] ls rfl
        rw [openAfter_cons, openAfter_append, openAfter_of_balanced balanced, openAfter_cons]
        rw [List.length_append, List.length_cons] at hn
        have others := @tail [.mark .closeBrace] others (tail rest)
        exact ih _ (by omega) others depth rfl
      · have step : l.braceDepth depth ≤ depth := by
          by_cases closes : l = .mark .closeBrace
          · subst closes
            exact Nat.sub_le depth 1
          · exact Nat.le_of_eq (Lexeme.braceDepth_of_ne opens closes depth)
        rw [openAfter_cons]
        exact Nat.le_trans (ih _ (by omega) rest _ rfl) step

/-- **All blocks are closed exactly if no brace is open at the end.** -/
theorem blocksClosed_iff (ps : List Placed) :
    BlocksClosed (ps.map Placed.lexeme) ↔ braceDepth 0 ps = 0 := by
  rw [← openAfter_map_lexeme]
  constructor
  · exact fun h => Nat.le_zero.mp (h.openAfter_le 0)
  · intro none before after split
    rw [split, openAfter_append, openAfter_cons] at none
    exact exists_closing (Nat.le_trans (Nat.le_of_eq none) (Nat.zero_le (openAfter 0 before)))

/-! ## Blocks of a source -/

theorem Span.Declares.braceDepth_lexemes {s : Span} {d : Definition} (h : s.Declares d) :
    braceDepth 0 s.lexemes = 0 := by
  obtain ⟨keyword, heads, form, -⟩ := h
  have first : s.keyword.lexeme.isBrace = false := by rw [heads.first]; rfl
  have label : s.label.lexeme.isBrace = false := by rw [heads.label]; rfl
  rw [Span.lexemes, braceDepth_cons, Lexeme.braceDepth_of_isBrace first, braceDepth_cons,
    Lexeme.braceDepth_of_isBrace label, braceDepth_append, braceDepth_append]
  split at form
  · have plain : ∀ p ∈ s.opening :: s.body, p.lexeme.isBrace = false := by
      intro p hp
      rcases List.mem_cons.mp hp with rfl | hp
      · rw [form.opening]; rfl
      · rcases form.body p hp with bar | name
        · rw [bar]; rfl
        · cases hl : p.lexeme with
          | name text => rfl
          | mark m => rw [hl] at name; exact absurd name (by simp [Lexeme.name?])
    rw [form.heading, form.closing, braceDepth_of_isBrace plain]
    rfl
  · obtain ⟨close, only, closes⟩ := List.map_eq_singleton_iff.mp form.closing
    rw [braceDepth_of_isBrace fun p hp => (form.heading p hp).1, braceDepth_cons, form.opening,
      braceDepth_of_isBrace form.body, only, braceDepth_cons, closes]
    rfl

/-- The last declaration ends outside all braces, and what follows it is skipped. -/
theorem Divided.exists_append {ps : List Placed} {ds : List Definition}
    (h : Divided Span.Declares ps ds) : ∃ read skipped, ps = read ++ skipped ∧
      Divided Span.Declares read ds ∧ braceDepth 0 read = 0 ∧ Skippable 0 skipped := by
  induction h with
  | @rest skipped plain => exact ⟨[], skipped, rfl, .rest (skippable_nil 0), rfl, plain⟩
  | @declaration skipped ps s d ds plain outside declares _ ih =>
    obtain ⟨read, tail, rfl, divided, closed, free⟩ := ih
    refine ⟨skipped ++ s.lexemes ++ read, tail, by simp,
      .declaration plain outside declares divided, ?_, free⟩
    rw [braceDepth_append, braceDepth_append, outside, declares.braceDepth_lexemes, closed]

/-- **Which blocks of an accepted source are closed.** All of them are, exactly if the run does not
end inside braces between declarations. In any case the source is its declarations with what is
skipped between them, where all blocks are closed, and what is skipped after the last declaration,
where all the braces stand that are open at the end. -/
theorem Source.blocks_closed_iff_endState {source : String} {ds : List Definition}
    (h : Source.definitions source = .ok ds) :
    ∃ ps s, Source.lex (stripMarkers source) = .ok ps ∧ Source.endState source = .ok s ∧
      (BlocksClosed (ps.map Placed.lexeme) ↔ ∀ depth, s ≠ .seeking (depth + 1)) ∧
      ∃ read skipped, ps = read ++ skipped ∧ Divided Span.Declares read ds ∧
        BlocksClosed (read.map Placed.lexeme) ∧ Skippable 0 skipped ∧
        braceDepth 0 skipped = s.openBraces := by
  obtain ⟨ps, lexed, writable, divided⟩ := Source.divided_of_definitions h
  have divided : Divided Span.Declares ps ds :=
    divided.mono fun s within d reads => reads.declares fun p hp => writable p (within p hp)
  obtain ⟨ps', _, s, last, lexed', traced, ends, closed, -⟩ := Source.exists_trace_of_definitions h
  obtain rfl := Except.ok.inj (lexed.symm.trans lexed')
  have depth : s.openBraces = braceDepth 0 ps := Reader.openBraces_of_trace traced
  have inside : s.openBraces = 0 ↔ ∀ depth, s ≠ .seeking (depth + 1) := by
    rcases Reader.State.close_eq_ok.mp closed with ⟨n, rfl, -⟩ | ⟨d, rfl, -⟩
    · cases n <;> simp [Reader.State.openBraces]
    · simp [Reader.State.openBraces]
  obtain ⟨read, skipped, rfl, divided, outside, free⟩ := divided.exists_append
  refine ⟨_, s, lexed, ends, ?_, read, skipped, rfl, divided, (blocksClosed_iff read).mpr outside,
    free, ?_⟩
  · rw [blocksClosed_iff, ← depth, inside]
  · rw [depth, braceDepth_append, outside]

/-! ### A block that is closed, and one that is not -/

/-- A skipped block after a declaration, closed and with a keyword in it. -/
def shutSource : String := "type B\x7by:Int\x7dschema\x7btype\x7d"

/-- The lexemes of `shutSource`. -/
def shutLexemes : List Placed := onLine 1
  [.name "type", .name "B", .mark .openBrace, .name "y", .mark .colon, .name "Int",
    .mark .closeBrace, .name "schema", .mark .openBrace, .name "type", .mark .closeBrace]

theorem Source.lex_shutSource : Source.lex (stripMarkers shutSource) = .ok shutLexemes :=
  Source.lex_of_isSpaced (by decide)

theorem Source.definitions_shutSource :
    Source.definitions shutSource = .ok [⟨"type", "B", ["y:Int"], 1⟩] :=
  Source.definitions_of_sweep shutLexemes (by decide) (by rfl)

theorem Source.blocks_closed_shutSource :
    Source.definitions shutSource = .ok [⟨"type", "B", ["y:Int"], 1⟩] ∧
      BlocksClosed (shutLexemes.map Placed.lexeme) := by
  refine ⟨Source.definitions_shutSource, ?_⟩
  obtain ⟨ps, s, lexed, ends, closed, -⟩ :=
    Source.blocks_closed_iff_endState Source.definitions_shutSource
  obtain rfl := Except.ok.inj (Source.lex_shutSource.symm.trans lexed)
  have outside : Source.endState shutSource = .ok (.seeking 0) := by
    rw [Source.endState, Source.lex_shutSource]
    rfl
  obtain rfl := Except.ok.inj (outside.symm.trans ends)
  exact closed.mpr fun depth => by simp

/-- The same with a declaration in the skipped block and no brace after it. -/
def ajarSource : String := "type B\x7by:Int\x7dschema\x7btype A\x7bx:Int\x7d"

/-- **A block may be left open, and a declaration lost in it.** The source is accepted, one of its
opening braces has no closing brace, and of the two types it declares one is missing. -/
theorem Source.block_left_open :
    Source.definitions ajarSource = .ok [⟨"type", "B", ["y:Int"], 1⟩] ∧
      ∃ ps, Source.lex (stripMarkers ajarSource) = .ok ps ∧
        ¬ BlocksClosed (ps.map Placed.lexeme) := by
  have spaced : isSpaced false 1 (onLine 1
      [.name "type", .name "B", .mark .openBrace, .name "y", .mark .colon, .name "Int",
        .mark .closeBrace, .name "schema", .mark .openBrace, .name "type", .name "A",
        .mark .openBrace, .name "x", .mark .colon, .name "Int", .mark .closeBrace])
      (Source.stripMarkers ajarSource).toList = true := by decide
  refine ⟨Source.definitions_of_sweep _ spaced (by rfl), _, Source.lex_of_isSpaced spaced, ?_⟩
  rw [blocksClosed_iff]
  decide

end SchemaTypegen
