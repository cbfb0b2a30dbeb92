import SchemaTypegen.Proofs.Division.Headings
import SchemaTypegen.Proofs.Lexing.Words
import SchemaTypegen.Proofs.Trace

/-!
# A declaration that is cut off

A text may end anywhere. If it ends inside a declaration with a block, the error is that of the
declaration, on the line of its keyword, however much stands before the declaration and however much
of it has been read.

* A text cut after a word is read as its words up to there (`lex_cut`).
* Between its label and the closing brace, a declaration is held by the state (`State.unclosed?`):
  a lexeme other than a closing brace leaves it there (`unclosed_of_turn`), so a run that goes well
  cannot end before the brace (`run_unclosed`).
* The declarations before it have ended where it begins, whatever follows (`exists_span_of_run`).

**`Source.cut_reported`** puts these together.
-/

namespace SchemaTypegen

open Text Grammar

/-! ## Words up to a cut -/

namespace Source

namespace Wording

theorem length_placedAfter (before : List Char) (words : List (Lexeme × List Char)) :
    (placedAfter before words).length = words.length := by
  induction words generalizing before with
  | nil => rfl
  | cons word words ih => exact congrArg (· + 1) (ih _)

theorem placedAfter_append (before : List Char) (words words' : List (Lexeme × List Char)) :
    placedAfter before (words ++ words') =
      placedAfter before words ++ placedAfter (before ++ wordsText words) words' := by
  induction words generalizing before with
  | nil => simp [placedAfter, wordsText]
  | cons word words ih =>
    obtain ⟨l, gap⟩ := word
    rw [List.cons_append, placedAfter, placedAfter, ih, wordsText_cons, List.cons_append]
    simp only [List.append_assoc]

/-- Words still fit if the text ends after one of them: each is followed by the same character as
before, or by none. -/
theorem Fits.cut {rest gap : List Char} {l : Lexeme} {words others : List (Lexeme × List Char)}
    (h : Fits rest (words ++ (l, gap) :: others)) : Fits [] (words ++ [(l, [])]) := by
  induction words with
  | nil =>
    cases h with
    | cons writable => exact .cons writable (by simp) (by simp [wordsText]) .nil
  | cons word words ih =>
    rw [List.cons_append] at h ⊢
    cases h with
    | @cons l' gap' _ writable trivia ends fits =>
      refine .cons writable trivia (fun name c hc => ends name c ?_) (ih fits)
      have longer : gap' ++ (wordsText (words ++ (l, gap) :: others) ++ rest) =
          gap' ++ (wordsText (words ++ [(l, [])]) ++ []) ++ (gap ++ wordsText others ++ rest) := by
        simp [wordsText]
      rw [longer, List.head?_append, Option.mem_def.mp hc]
      rfl

/-- A text that is read has a wording, which gives its lexemes. -/
theorem exists_of_lex {text : String} {ps : List Placed} (h : lex text = .ok ps) :
    ∃ w : Wording, w.Of text.toList [] ∧ ps = w.placed := by
  obtain ⟨w, front, rest, whole, worded, stuck⟩ := exists_of text.toList
  rw [lex, whole, worded.lexFrom_append] at h
  cases rest with
  | nil =>
    rw [List.append_nil] at whole
    rw [lexFrom_nil, Except.map, List.append_nil] at h
    exact ⟨w, whole ▸ worded, (Except.ok.inj h).symm⟩
  | cons c rest =>
    rw [lexFrom_stray (stuck c rfl)] at h
    exact absurd h (by simp [Except.map])

/-- **A text cut after a word is read as its words up to there.** -/
theorem Of.lex_cut {w : Wording} {text : List Char} (h : w.Of text [])
    {words others : List (Lexeme × List Char)} {l : Lexeme} {gap : List Char}
    (split : w.words = words ++ (l, gap) :: others) :
    lex (String.ofList (w.lead ++ wordsText words ++ l.text.toList)) =
      .ok (w.placed.take (words.length + 1)) := by
  have fits := h.words
  rw [split] at fits
  have cut : Of ⟨w.lead, words ++ [(l, [])]⟩ (w.lead ++ wordsText words ++ l.text.toList) [] := by
    refine ⟨h.lead, fits.cut, ?_⟩
    simp [Wording.text, wordsText]
  have read := cut.lexFrom_append
  rw [List.append_nil, lexFrom_nil, Except.map, List.append_nil] at read
  have all : (placedAfter w.lead words).length ≤ words.length + 1 := by
    rw [length_placedAfter]
    omega
  rw [lex, String.toList_ofList, read, placed, placed, split, placedAfter_append,
    placedAfter_append, List.take_append, List.take_of_length_le all, length_placedAfter,
    Nat.add_sub_cancel_left]
  rfl

end Wording

end Source

/-! ## Inside a declaration -/

namespace Reader

/-- The declaration whose label has been read, but not the brace that closes its block. -/
def State.unclosed? : State → Option Pending
  | .heading d _ | .fields d _ | .members d => some d
  | .seeking _ | .label _ _ _ | .alternatives _ _ => none

theorem close_of_unclosed {s : State} {d : Pending} (held : s.unclosed? = some d) :
    s.close = fail d.line (.unterminated d.label) := by
  cases s with
  | heading | fields | members => cases held; rfl
  | seeking | label | alternatives => exact absurd held (Option.some_ne_none d).symm

/-- A lexeme other than a closing brace leaves the machine inside the declaration. -/
theorem unclosed_of_turn {s s' : State} {p : Placed} {d : Pending} {ds : List Definition}
    (h : s.turn p = .ok (ds, s')) (held : s.unclosed? = some d) (block : d.keyword ≠ .union)
    (more : p.lexeme ≠ .mark .closeBrace) :
    ∃ d', s'.unclosed? = some d' ∧ d'.keyword = d.keyword ∧ d'.label = d.label ∧
      d'.line = d.line := by
  rcases turn_eq_ok.mp h with ⟨finished, step, -⟩ | ⟨last, step, -, -⟩
  · cases s with
    | heading d' implementing =>
      cases held
      obtain ⟨-, ⟨-, rfl⟩ | ⟨-, -, rfl⟩⟩ := step_heading step
      · refine ⟨d, ?_, rfl, rfl, rfl⟩
        obtain ⟨keyword, spelling, label, entries, line⟩ := d
        cases keyword with
        | union => exact absurd rfl block
        | _ => rfl
      · exact ⟨d, rfl, rfl, rfl, rfl⟩
    | fields d' e =>
      cases held
      rcases step_fields step with ⟨closes, -⟩ | ⟨e', -, rfl, -⟩ | ⟨e', -, rfl, -⟩
      · exact absurd closes more
      · exact ⟨d, rfl, rfl, rfl, rfl⟩
      · exact ⟨d.add e.text, rfl, rfl, rfl, rfl⟩
    | members d' =>
      cases held
      rcases step_members step with ⟨closes, -⟩ | ⟨name, -, rfl, -⟩ | ⟨-, rfl, -⟩
      · exact absurd closes more
      · exact ⟨d.add name, rfl, rfl, rfl, rfl⟩
      · exact ⟨d, rfl, rfl, rfl, rfl⟩
    | seeking | label | alternatives => exact absurd held (Option.some_ne_none d).symm
  · -- Only a union is ended by a lexeme that is read again.
    cases s with
    | alternatives => exact absurd held (Option.some_ne_none d).symm
    | _ => exact absurd (rereads_of_again step) Nat.zero_ne_one

/-- **A block that is not closed is reported**, if the lexemes could go on to a run that
succeeds. -/
theorem run_unclosed {s : State} {d : Pending} {ps qs : List Placed} {ds : List Definition}
    (h : run s (ps ++ qs) = .ok ds) (held : s.unclosed? = some d) (block : d.keyword ≠ .union)
    (more : ∀ p ∈ ps, p.lexeme ≠ .mark .closeBrace) :
    run s ps = fail d.line (.unterminated d.label) := by
  induction ps generalizing s d ds with
  | nil => rw [run_nil, close_of_unclosed held]
  | cons p ps ih =>
    rw [List.cons_append, run_cons_turn] at h
    obtain ⟨⟨first, s'⟩, turn, after⟩ := Success.bind_eq_ok.mp h
    obtain ⟨others, after, -⟩ := Success.map_eq_ok.mp after
    obtain ⟨d', held', keyword, label, line⟩ :=
      unclosed_of_turn turn held block (more p List.mem_cons_self)
    have rest := ih after held' (keyword ▸ block) fun q hq => more q (List.mem_cons_of_mem p hq)
    rw [run_cons_turn, turn, ← label, ← line]
    exact congrArg (Except.map (first ++ ·)) rest

/-- The lexemes of a declaration with a block, cut before the last of them. -/
theorem run_take {s : Span} {d : Definition} {keyword : Keyword} (heads : s.Heads keyword d)
    (block : keyword ≠ .union) (braced : s.Braced) {rest : List Placed} {ds : List Definition}
    (h : run (.seeking 0) (s.lexemes ++ rest) = .ok ds) {n : Nat}
    (inside : n + 1 < s.lexemes.length) :
    run (.seeking 0) (s.lexemes.take (n + 1)) =
      fail d.line (if n = 0 then .labelMissing d.keyword else .unterminated d.label) := by
  have first : ∀ qs, run (.seeking 0) (s.keyword :: qs) =
      run (.label keyword d.keyword d.line) qs := by
    rw [heads.first]
    exact run_keyword heads.spelled d.line
  have named : (State.label keyword d.keyword d.line).step s.label =
      proceed (.heading ⟨keyword, d.keyword, d.label, [], d.line⟩ false) := by
    simp only [State.step, heads.label]
  rw [Span.lexemes, List.cons_append, first, List.cons_append, run_cons_proceed named] at h
  rw [Span.lexemes, List.take_succ_cons, first]
  cases n with
  | zero =>
    rw [List.take_zero, run_nil]
    rfl
  | succ n =>
    -- The closing brace is the last lexeme, so it is not among those taken.
    obtain ⟨brace, closing, -⟩ := List.map_eq_singleton_iff.mp braced.closing
    have short : n ≤ (s.heading ++ s.opening :: s.body).length := by
      simp only [Span.lexemes, closing, List.length_cons, List.length_append, List.length_nil]
        at inside ⊢
      omega
    rw [← List.take_append_drop n (s.heading ++ _ ++ _), List.append_assoc] at h
    rw [List.take_succ_cons, run_cons_proceed named, if_neg (Nat.succ_ne_zero n)]
    refine run_unclosed h rfl block fun p hp closes => ?_
    rw [List.take_append_of_le_length short] at hp
    rcases List.mem_append.mp (List.mem_of_mem_take hp) with hp | hp
    · exact absurd (braced.heading p hp).1 (by rw [closes]; decide)
    · rcases List.mem_cons.mp hp with rfl | hp
      · exact absurd (braced.opening.symm.trans closes) (by decide)
      · exact absurd (braced.body p hp) (by rw [closes]; decide)

/-- **A declaration in a run.** The declarations before it are read in the same way whatever stands
in its place, if that begins with the same lexeme. -/
theorem exists_span_of_run {ds : List Definition} {d : Definition} {ds' : List Definition} :
    ∀ {ps : List Placed}, run (.seeking 0) ps = .ok (ds ++ d :: ds') → ∃ before s after,
      ps = before ++ s.lexemes ++ after ∧ Divided Reads before ds ∧ Reads s d ∧
      Divided Reads after ds' ∧ Gives before (s.lexemes ++ after) ds ∧
      run (.seeking 0) (s.lexemes ++ after) = .ok (d :: ds') := by
  induction ds with
  | nil =>
    intro ps h
    rcases run_cases h with ⟨none, -⟩ | ⟨skipped, s, rest, d', ds'', rfl, same, plain, outside,
      reads, gives, after⟩
    · exact absurd none (List.cons_ne_nil d ds')
    · obtain ⟨rfl, rfl⟩ := List.cons.inj same
      refine ⟨skipped, s, rest, rfl, .rest plain, reads.1, ?_,
        gives_of_skippable plain outside _, ?_⟩
      · exact (divided_of_run after).mono fun _ _ _ reads => reads.1
      · rw [gives rest rfl, after]
        rfl
  | cons first ds ih =>
    intro ps h
    rcases run_cases h with ⟨none, -⟩ | ⟨skipped, s', rest, d', ds'', rfl, same, plain, outside,
      reads', gives', after⟩
    · exact absurd none (List.cons_ne_nil first _)
    · obtain ⟨rfl, rfl⟩ := List.cons.inj same
      obtain ⟨before, s, tail, rfl, divided, reads, rest, gives, run⟩ := ih after
      refine ⟨skipped ++ s'.lexemes ++ before, s, tail, by simp only [List.append_assoc],
        .declaration plain outside reads'.1 divided, reads, rest, ?_, run⟩
      rw [List.append_assoc] at gives'
      exact ((gives_of_skippable plain outside _).append gives').append gives

end Reader

/-! ## Sources -/

/-- A source without its markers has none in any beginning of it. -/
theorem Source.stripMarkers_front {source : String} {front rest : List Char}
    (h : (stripMarkers source).toList = front ++ rest) :
    stripMarkers (String.ofList front) = String.ofList front := by
  have plain : ∀ c ∈ front, (c != marker) = true := by
    intro c hc
    have mem : c ∈ (stripMarkers source).toList := h ▸ List.mem_append_left rest hc
    rw [stripMarkers, String.toList_ofList] at mem
    exact (List.mem_filter.mp mem).2
  rw [stripMarkers, String.toList_ofList, List.filter_eq_self.mpr plain]

/-- The text is refused on the line of the declaration's keyword if it ends after a word of the
declaration other than its last: the label is missing, or the end. The declaration begins after `n`
words. -/
def Source.Wording.ReportsCuts (w : Wording) (n : Nat) (s : Span) (d : Definition) : Prop :=
  ∀ words l gap others, w.words = words ++ (l, gap) :: others →
    n ≤ words.length → words.length + 1 < n + s.lexemes.length →
    Document.ofSource (String.ofList (w.lead ++ wordsText words ++ l.text.toList)) =
      .error (.malformed d.line
        (if words.length = n then .labelMissing d.keyword else .unterminated d.label))

theorem Source.Wording.Of.reportsCuts {w : Wording} {source : String} {s : Span} {d : Definition}
    {before after : List Placed} {earlier ds : List Definition}
    (worded : w.Of (stripMarkers source).toList [])
    (placed : w.placed = before ++ s.lexemes ++ after) (reads : Reads s d)
    (gives : Reader.Gives before (s.lexemes ++ after) earlier)
    (h : Reader.run (.seeking 0) (s.lexemes ++ after) = .ok ds)
    (union : Keyword.ofName? d.keyword ≠ some .union) : w.ReportsCuts before.length s d := by
  intro words l gap others split reached inside
  obtain ⟨keyword, heads⟩ := reads.exists_heads
  have block : keyword ≠ .union := fun same => union (same ▸ heads.spelled)
  obtain ⟨n, length⟩ := Nat.exists_eq_add_of_le reached
  rw [length, Nat.add_assoc, Nat.add_lt_add_iff_left] at inside
  have cut : w.placed.take (words.length + 1) = before ++ s.lexemes.take (n + 1) := by
    rw [placed, List.append_assoc, length, Nat.add_assoc, List.take_length_add_append,
      List.take_append_of_le_length (Nat.le_of_lt inside)]
  have whole : (stripMarkers source).toList =
      w.lead ++ wordsText words ++ l.text.toList ++ (gap ++ wordsText others) := by
    rw [← worded.text, Wording.text, split]
    simp [wordsText]
  have reported := gives (s.lexemes.take (n + 1)) rfl
  rw [Reader.run_take heads block (reads.braced heads block) h inside] at reported
  rw [Document.ofSource, Source.definitions, stripMarkers_front whole, worded.lex_cut split, cut]
  simp only [length, Nat.add_eq_left]
  exact congrArg (Except.map Document.ofDefinitions) reported

/-- **A declaration that is cut off is reported at its keyword.** The words of an accepted source
are those of its declarations and others. If the source, without its markers, is cut after a word of
a declaration with a block, up to the one before the closing brace, then what is left is refused on
the line of the declaration's keyword. -/
theorem Source.cut_reported {source : String} {ds : List Definition}
    (h : Source.definitions source = .ok ds) :
    ∃ w : Wording, w.Of (stripMarkers source).toList [] ∧
      Source.lex (stripMarkers source) = .ok w.placed ∧
      ∀ earlier d later, ds = earlier ++ d :: later →
        ∃ (before : List Placed) (s : Span) (after : List Placed),
          w.placed = before ++ s.lexemes ++ after ∧ Divided Span.Declares before earlier ∧
          s.Declares d ∧ Divided Span.Declares after later ∧
          (Keyword.ofName? d.keyword ≠ some .union → w.ReportsCuts before.length s d) := by
  obtain ⟨ps, lexed, run⟩ := Success.bind_eq_ok.mp h
  obtain ⟨w, worded, rfl⟩ := Wording.exists_of_lex lexed
  have writable := isWritable_of_mem_lexFrom lexed
  refine ⟨w, worded, lexed, ?_⟩
  rintro earlier d later rfl
  obtain ⟨before, s, after, placed, divided, reads, rest, gives, tail⟩ :=
    Reader.exists_span_of_run run
  have within : ∀ p, p ∈ before ∨ p ∈ s.lexemes ∨ p ∈ after → isWritable p.lexeme = true := by
    intro p hp
    exact writable p (by simpa [placed, or_assoc] using hp)
  refine ⟨before, s, after, placed, ?_, ?_, ?_, ?_⟩
  · exact divided.mono fun _ part _ reads => reads.declares fun p hp => within p (.inl (part p hp))
  · exact reads.declares fun p hp => within p (.inr (.inl hp))
  · exact rest.mono fun _ part _ reads =>
      reads.declares fun p hp => within p (.inr (.inr (part p hp)))
  · exact worded.reportsCuts placed reads gives tail

/-! ### A type after a union -/

/-- The union has no mark at its end, and the type begins on the line after it. -/
def severedSource : String := "union U=A\ntype A\x7bx(y:Int):\n[Int]\x7d"

/-- The union of `severedSource`. -/
def severedUnion : Definition := ⟨"union", "U", ["A"], 1⟩

/-- The type of `severedSource`. -/
def severedType : Definition := ⟨"type", "A", ["x(y:Int):[Int]"], 2⟩

theorem Source.definitions_severedSource :
    Source.definitions severedSource = .ok [severedUnion, severedType] :=
  Source.definitions_of_sweep (onLine 1 [.name "union", .name "U", .mark .equals, .name "A"] ++
    onLine 2 [.name "type", .name "A", .mark .openBrace, .name "x", .mark .openParen, .name "y",
      .mark .colon, .name "Int", .mark .closeParen, .mark .colon] ++
    onLine 3 [.mark .openBracket, .name "Int", .mark .closeBracket, .mark .closeBrace])
    (by decide) (by rfl)

theorem Source.cut_reported_severedSource :
    Source.definitions severedSource = .ok [severedUnion, severedType] ∧
      ∃ w : Wording, w.Of (stripMarkers severedSource).toList [] ∧
        ∃ (before : List Placed) (s : Span) (after : List Placed),
          w.placed = before ++ s.lexemes ++ after ∧ Divided Span.Declares before [severedUnion] ∧
          s.Declares severedType ∧ w.ReportsCuts before.length s severedType := by
  refine ⟨Source.definitions_severedSource, ?_⟩
  obtain ⟨w, worded, -, cuts⟩ := Source.cut_reported Source.definitions_severedSource
  obtain ⟨before, s, after, placed, divided, declares, rest, reported⟩ :=
    cuts [severedUnion] severedType [] rfl
  exact ⟨w, worded, before, s, after, placed, divided, declares, reported (by decide)⟩

end SchemaTypegen
