import SchemaTypegen.Proofs.Tally

/-!
# The counts of a tally are those of its text

In every state that lexemes lead to, the counts and flags of a tally can be read off its text: the
open parentheses are those the text has not closed, and the open brackets are those it has not
closed since its last colon. No count is ever below zero, although nothing but the lexemes that came
before keeps it from being taken there.

The entry machine has no counts to go wrong. What its entries look like as texts (`Entry.Formed`) is
kept along every trace, and a tally belongs to an entry.

* `formed_of_trace`: open entries are formed, and those before them whole.
* **`tallies_sound`**: the machine with tallies agrees with the machine with entries, and all its
  tallies are sound.
-/

namespace SchemaTypegen

open Text Grammar

/-- The counts, the flags and the text of a tally say the same. -/
structure Tally.Sound (t : Tally) : Prop where
  parens : t.parens = 0 ∨ t.parens = 1
  openParens : (t.text.toList.count '(' : Int) = t.text.toList.count ')' + t.parens
  openBrackets : ((sinceColon t.text.toList).count '[' : Int) =
    (sinceColon t.text.toList).count ']' + t.gauge.brackets
  done : t.gauge.done = true → t.gauge.expecting = true ∧ t.gauge.brackets = 0
  outside : t.parens = 0 → t.argument.brackets = 0
  inside : t.parens = 1 → t.field.expecting = false
  /-- No count is below zero. -/
  counts : 0 ≤ t.parens ∧ 0 ≤ t.field.brackets ∧ 0 ≤ t.argument.brackets
  begins : t.text = "" ∨ IsEntry t.text
  blanks : ∀ c ∈ t.text.toList, isBlank c = false
  bangs : Undoubled '!' t.text.toList
  colons : Undoubled ':' t.text.toList

theorem Cursor.brackets_gauge (c : Cursor) : c.gauge.brackets = c.depth := by
  cases c <;> rfl

namespace Entry

variable {e : Entry} {t : Tally}

theorem Tracks.gauge_done (h : e.Tracks t) (done : t.gauge.done = true) :
    t.gauge.expecting = true ∧ t.gauge.brackets = 0 := by
  rw [h.gauge_eq] at done ⊢
  generalize e.cursor = c at done ⊢
  cases c with
  | complete => exact ⟨rfl, rfl⟩
  | idle | reading depth => exact absurd done Bool.false_ne_true

theorem Tracks.parens_eq (h : e.Tracks t) : t.parens = (e.openMarks.count '(' : Nat) := by
  have brackets : ∀ depth, (List.replicate depth '[').count '(' = 0 := fun depth =>
    List.count_eq_zero.mpr fun mem => absurd (List.eq_of_mem_replicate mem) (by decide)
  rw [openMarks, List.count_append, brackets, Nat.zero_add]
  cases h <;> rfl

/-- The tally of a formed entry is sound. -/
theorem Tracks.sound (h : e.Tracks t) (formed : e.Formed) : t.Sound where
  parens := by cases h <;> simp
  openParens := by
    rw [h.text_eq, h.parens_eq]
    exact_mod_cast formed.nested.leaves.count_eq (Or.inl ⟨rfl, rfl⟩)
  openBrackets := by
    rw [h.text_eq, h.gauge_eq, Cursor.brackets_gauge]
    exact_mod_cast formed.nested.level
  done := h.gauge_done
  outside := by
    intro none
    cases h with
    | outside _ flat => exact flat
    | inside => exact absurd none Int.one_ne_zero
  inside := by
    intro one
    have outer := formed.sound.outer
    cases h with
    | outside => exact absurd one Int.zero_ne_one
    | @inside _ field _ _ _ =>
      obtain rfl : field = .idle := outer (Option.some_ne_none _)
      rfl
  counts := by
    cases h with
    | @outside _ field _ argument _ flat =>
      simp [Cursor.brackets_gauge, flat]
    | inside => simp [Cursor.brackets_gauge]
  begins := h.text_eq ▸ formed.begun.isEntry formed.writable
  blanks := h.text_eq ▸ isBlank_of_mem_joinedText formed.writable
  bangs := h.text_eq ▸ formed.bangs
  colons := h.text_eq ▸ formed.doubled

end Entry

namespace Reader

/-! ## States -/

/-- In a block of fields the open entry is formed and those before it are whole. Before the block
there are none. -/
def State.Formed : State → Prop
  | .heading d _ => d.entries = []
  | .fields d e => e.Formed ∧ ∀ entry ∈ d.entries, IsWhole entry
  | .seeking _ | .label _ _ _ | .members _ | .alternatives _ _ => True

theorem formed_seek (depth line : Nat) (l : Lexeme) : (seek depth line l).Formed := by
  rcases seek_cases depth line l with ⟨_, _, -, -, -, found⟩ | ⟨-, passed⟩
  · rw [found]
    trivial
  · rw [passed]
    trivial

theorem formed_of_next {s s' : State} {p : Placed} {finished : Option Definition} (h : s.Formed)
    (hp : isWritable p.lexeme = true) (step : s.step p = .ok (.next s' finished)) : s'.Formed := by
  cases s with
  | seeking depth =>
    obtain ⟨rfl, -⟩ : seek depth p.line p.lexeme = s' ∧ none = finished := by
      simpa [State.step, proceed] using step
    exact formed_seek depth p.line p.lexeme
  | label keyword spelling line =>
    obtain ⟨l, labelLine⟩ := p
    cases l with
    | name name => cases step; rfl
    | mark m => cases step
  | heading d implementing =>
    obtain ⟨-, ⟨-, rfl⟩ | ⟨-, -, rfl⟩⟩ := step_heading step
    · have none : d.entries = [] := h
      obtain ⟨keyword, spelling, label, entries, line⟩ := d
      have fields : (State.fields ⟨keyword, spelling, label, entries, line⟩ {}).Formed :=
        ⟨Entry.formed_empty, fun entry he => absurd (none ▸ he) List.not_mem_nil⟩
      cases keyword with
      | type | input | interface => exact fields
      | enum | union => trivial
    · exact h
  | fields d e =>
    obtain ⟨formed, whole⟩ := h
    rcases step_fields step with ⟨-, rfl, -⟩ | ⟨e', move, rfl, -⟩ | ⟨e', move, rfl, -⟩
    · trivial
    · exact ⟨formed.step hp move, whole⟩
    · obtain ⟨last, formed⟩ := formed.next hp move
      exact ⟨formed, List.forall_mem_append.mpr ⟨whole, List.forall_mem_singleton.mpr last⟩⟩
  | members d =>
    rcases step_members step with ⟨-, rfl, -⟩ | ⟨_, -, rfl, -⟩ | ⟨-, rfl, -⟩ <;> trivial
  | alternatives d expecting =>
    obtain ⟨-, ⟨_, -, rfl⟩ | ⟨-, rfl⟩⟩ := step_alternatives step <;> trivial

theorem formed_of_turn {s s' : State} {p : Placed} {ds : List Definition} (h : s.Formed)
    (hp : isWritable p.lexeme = true) (turn : s.turn p = .ok (ds, s')) : s'.Formed := by
  rcases turn_eq_ok.mp turn with ⟨finished, step, -⟩ | ⟨d, -, -, rfl⟩
  · exact formed_of_next h hp step
  · exact formed_seek 0 p.line p.lexeme

/-- **Along every trace open entries are formed**, and those before them whole. -/
theorem formed_of_trace {s s' : State} {ps : List Placed} {ds : List Definition} (h : s.Formed)
    (writable : ∀ p ∈ ps, isWritable p.lexeme = true) (traced : trace s ps = .ok (ds, s')) :
    s'.Formed := by
  induction ps generalizing s ds with
  | nil =>
    obtain ⟨-, rfl⟩ := Prod.mk.inj (Except.ok.inj traced)
    exact h
  | cons p ps ih =>
    obtain ⟨hp, rest⟩ := List.forall_mem_cons.mp writable
    obtain ⟨_, next, _, turn, traced, -⟩ := trace_cons_eq_ok.mp traced
    exact ih (formed_of_turn h hp turn) rest traced

/-- **The counts of a tally are those of its text.** On all lexemes that can be written, which those
of a source are, the machine with tallies does what the machine with entries does. Wherever in a
block of fields they leave it, its tally is sound: it has one open parenthesis or none, and its
counts and flags are those of its text and never below zero. The entries before are whole: their
parentheses and brackets are closed, and they end in a complete type. -/
theorem tallies_sound :
    (∀ source ps, Source.lex source = .ok ps → ∀ p ∈ ps, isWritable p.lexeme = true) ∧
    ∀ ps : List Placed, (∀ p ∈ ps, isWritable p.lexeme = true) →
      Counted.Alike (trace (.seeking 0) ps) ((Counted.apart (.seeking 0)).trace ps) ∧
      ∀ ds d t, (Counted.apart (.seeking 0)).trace ps = .ok (ds, .fields d t) →
        t.Sound ∧ ∀ entry ∈ d.entries, IsWhole entry := by
  refine ⟨fun source ps lexed => Source.isWritable_of_mem_lexFrom lexed, fun ps writable => ?_⟩
  have alike : Counted.Alike (trace (.seeking 0) ps) ((Counted.apart (.seeking 0)).trace ps) :=
    Counted.alike_trace (.apart fun _ _ => State.noConfusion) writable
  refine ⟨alike, fun ds d t counted => ?_⟩
  have formed := fun s read => @formed_of_trace (.seeking 0) s ps read trivial writable
  rw [counted] at alike
  generalize trace (.seeking 0) ps = traced at alike formed
  cases alike with
  | finished together =>
    cases together with
    | fields tracks _ =>
      obtain ⟨formed, whole⟩ := formed _ _ rfl
      exact ⟨tracks.sound formed, whole⟩

/-! ### A second list of arguments -/

/-- The lexemes of a block up to the second of two open brackets, in the second of two lists of
arguments. -/
def nestedLexemes : List Placed := onLine 1
  [.name "type", .name "T", .mark .openBrace, .name "x", .mark .colon, .mark .openBracket,
    .name "A", .mark .bang, .mark .closeBracket, .mark .bang, .name "f", .mark .openParen,
    .name "a", .mark .colon, .name "Int", .mark .closeParen, .mark .openParen, .name "b",
    .mark .colon, .mark .openBracket, .mark .openBracket]

/-- The tally after `nestedLexemes`. -/
def nestedTally : Tally where
  text := "f(a:Int)(b:[["
  parens := 1
  argument := { expecting := true, brackets := 2 }

theorem trace_nestedLexemes : (Counted.apart (.seeking 0)).trace nestedLexemes =
    .ok ([], .fields ⟨.type, "type", "T", ["x:[A!]!"], 1⟩ nestedTally) := by
  rfl

theorem tallies_sound_nestedLexemes :
    (Counted.apart (.seeking 0)).trace nestedLexemes =
      .ok ([], .fields ⟨.type, "type", "T", ["x:[A!]!"], 1⟩ nestedTally) ∧
    nestedTally.Sound ∧ IsWhole "x:[A!]!" := by
  obtain ⟨-, agree⟩ := tallies_sound
  obtain ⟨-, sound⟩ := agree nestedLexemes (by decide)
  obtain ⟨sound, whole⟩ := sound _ _ _ trace_nestedLexemes
  exact ⟨trace_nestedLexemes, sound, whole _ List.mem_cons_self⟩

end Reader

end SchemaTypegen
