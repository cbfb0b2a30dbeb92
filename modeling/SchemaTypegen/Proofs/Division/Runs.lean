import SchemaTypegen.Proofs.Division.Moves
import SchemaTypegen.Proofs.Reading

/-!
# Where a run leaves a state

A run that succeeds is split at the lexeme where the machine leaves the state it is in: at the end
of a body (`run_fields`, `run_members`, `run_alternatives`), at the mark that opens it
(`run_heading`), at the next keyword outside all braces (`run_seeking`). Each lemma says what the
lexemes up to there are and what becomes of them, whatever comes after, which is again a run. Only
a union looks at what comes after it, and at one lexeme of it.
-/

namespace SchemaTypegen

open Text

/-- The name that a lexeme is. -/
def Lexeme.name? : Lexeme → Option String
  | .name text => some text
  | .mark _ => none

/-- Whether a lexeme is a declaration keyword. -/
def Lexeme.isKeyword : Lexeme → Bool
  | .name text => isDeclarationKeyword text
  | .mark _ => false

/-- Whether a lexeme may come next between a label and its block: `implements`, and once that has
come, `&` and every name that is no declaration keyword. -/
def Lexeme.continuesHeading (implementing : Bool) : Lexeme → Bool
  | .name text =>
    if implementing then !isDeclarationKeyword text else sameLetters "implements" text
  | .mark m => implementing && m == .ampersand

/-- What stands between a label and its block: nothing, or for a type and an interface `implements`
and a list of interfaces, which is not looked at any closer. -/
inductive Clause (keyword : Keyword) : List Lexeme → Prop where
  | none : Clause keyword []
  | implements {word : String} {ls : List Lexeme}
      (lists : keyword = .type ∨ keyword = .interface)
      (spelled : sameLetters "implements" word = true)
      (listed : ∀ l ∈ ls, l = .mark .ampersand ∨
        ∃ text, l = .name text ∧ isDeclarationKeyword text = false) :
      Clause keyword (.name word :: ls)

/-- The names among lexemes. -/
def names (ps : List Placed) : List String := ps.filterMap fun p => p.lexeme.name?

@[simp] theorem names_nil : names [] = [] := rfl

theorem names_cons (p : Placed) (ps : List Placed) :
    names (p :: ps) = p.lexeme.name?.toList ++ names ps := by
  cases h : p.lexeme.name? <;> simp [names, h]

/-- How many braces are open after a lexeme. A brace that closes none changes nothing. -/
def Lexeme.braceDepth (depth : Nat) : Lexeme → Nat
  | .mark .openBrace => depth + 1
  | .mark .closeBrace => depth - 1
  | _ => depth

/-- How many braces are open after lexemes. -/
def braceDepth (depth : Nat) (ps : List Placed) : Nat :=
  ps.foldl (fun depth p => p.lexeme.braceDepth depth) depth

/-- No declaration keyword stands outside all braces, where `depth` are open to begin with. -/
def Skippable (depth : Nat) (ps : List Placed) : Prop :=
  ∀ before p after, ps = before ++ p :: after → braceDepth depth before = 0 →
    p.lexeme.isKeyword = false

theorem skippable_nil (depth : Nat) : Skippable depth [] :=
  fun before _ _ h =>
    absurd h.symm (List.append_ne_nil_of_right_ne_nil before (List.cons_ne_nil _ _))

theorem skippable_cons {depth : Nat} {p : Placed} {ps : List Placed}
    (first : depth = 0 → p.lexeme.isKeyword = false)
    (rest : Skippable (p.lexeme.braceDepth depth) ps) : Skippable depth (p :: ps) := by
  intro before q after h outside
  cases before with
  | nil =>
    obtain ⟨rfl, -⟩ := List.cons.inj h
    exact first outside
  | cons r before =>
    obtain ⟨rfl, tail⟩ := List.cons.inj h
    exact rest before q after tail outside

namespace Reader

/-! ## One lexeme -/

theorem run_nil (s : State) : run s [] = s.close := by
  rw [run]

theorem run_cons_cases {s : State} {p : Placed} {ps : List Placed} {ds : List Definition}
    (h : run s (p :: ps) = .ok ds) :
    (∃ s' finished ds', s.step p = .ok (.next s' finished) ∧ run s' ps = .ok ds' ∧
      ds = finished.toList ++ ds') ∨
    ∃ d ds', s.step p = .ok (.again d) ∧ run (.seeking 0) (p :: ps) = .ok ds' ∧ ds = d :: ds' := by
  cases step : s.step p with
  | error e =>
    rw [run] at h
    split at h <;> simp_all
  | ok result =>
    cases result with
    | next s' finished =>
      rw [run_cons_next step, Success.map_eq_ok] at h
      obtain ⟨ds', rest, rfl⟩ := h
      exact Or.inl ⟨s', finished, ds', rfl, rest, rfl⟩
    | again d =>
      rw [run_cons_again step, Success.map_eq_ok] at h
      obtain ⟨ds', rest, rfl⟩ := h
      exact Or.inr ⟨d, ds', rfl, rest, rfl⟩

/-- Outside unions every lexeme is read once. -/
theorem run_cons_eq_ok {s : State} {p : Placed} {ps : List Placed} {ds : List Definition}
    (h : run s (p :: ps) = .ok ds) (once : s.rereads = 0) :
    ∃ s' finished ds', s.step p = .ok (.next s' finished) ∧ run s' ps = .ok ds' ∧
      ds = finished.toList ++ ds' := by
  refine (run_cons_cases h).resolve_right ?_
  rintro ⟨d, ds', step, -⟩
  rw [rereads_of_again step] at once
  exact absurd once Nat.one_ne_zero

/-! ## Bodies -/

theorem step_fields {d : Pending} {e : Entry} {p : Placed} {s : State}
    {finished : Option Definition}
    (h : (State.fields d e).step p = .ok (.next s finished)) :
    (p.lexeme = .mark .closeBrace ∧ s = .seeking 0 ∧
      ∃ es, Entry.Collects e [] es ∧ finished = some (extend d (es.map Entry.text)).finish) ∨
    (∃ e', e.Moves p.lexeme (.same e') ∧ s = .fields d e' ∧ finished = none) ∨
    ∃ e', e.Moves p.lexeme (.next e') ∧ s = .fields (d.add e.text) e' ∧ finished = none := by
  simp only [State.step, block] at h
  split at h
  · rename_i closes
    refine Or.inl ⟨closes.1, ?_⟩
    split at h
    · rename_i blank
      cases h
      exact ⟨rfl, [], .none closes.2 blank, by simp⟩
    · rename_i begun
      split at h
      · rename_i complete
        cases h
        exact ⟨rfl, [e], .last closes.2 begun complete, by simp [extend, Pending.add]⟩
      · exact absurd h (by simp [fail])
  · refine Or.inr ?_
    split at h
    · rename_i e' read
      cases h
      exact Or.inl ⟨e', Entry.moves_of_read? read, rfl, rfl⟩
    · rename_i e' read
      cases h
      exact Or.inr ⟨e', Entry.moves_of_read? read, rfl, rfl⟩
    · exact absurd h (by simp [fail])

/-- A block of fields ends at its closing brace. -/
theorem run_fields {ps : List Placed} : ∀ {d : Pending} {e : Entry} {ds : List Definition},
    run (.fields d e) ps = .ok ds → ∃ body close rest es,
      ps = body ++ close :: rest ∧ close.lexeme = .mark .closeBrace ∧
      e.Collects (body.map Placed.lexeme) es ∧
      ∀ qs, run (.fields d e) (body ++ close :: qs) =
        (run (.seeking 0) qs).map ((extend d (es.map Entry.text)).finish :: ·) := by
  induction ps with
  | nil =>
    intro d e ds h
    rw [run_nil] at h
    exact absurd h (by simp [State.close, fail])
  | cons p ps ih =>
    intro d e ds h
    obtain ⟨s, finished, ds', step, run, rfl⟩ := run_cons_eq_ok h rfl
    rcases step_fields step with ⟨closes, rfl, es, last, rfl⟩ | ⟨e', move, rfl, rfl⟩ |
      ⟨e', move, rfl, rfl⟩
    · exact ⟨[], p, ps, es, rfl, closes, last, run_cons_next step⟩
    · obtain ⟨body, close, rest, es, rfl, closes, collects, after⟩ := ih run
      refine ⟨p :: body, close, rest, es, rfl, closes, .same move collects, fun qs => ?_⟩
      rw [List.cons_append, run_cons_proceed step, after]
    · obtain ⟨body, close, rest, es, rfl, closes, collects, after⟩ := ih run
      refine ⟨p :: body, close, rest, e :: es, rfl, closes, .next move collects, fun qs => ?_⟩
      rw [List.cons_append, run_cons_proceed step, after, extend_add, List.map_cons]

theorem step_members {d : Pending} {p : Placed} {s : State} {finished : Option Definition}
    (h : (State.members d).step p = .ok (.next s finished)) :
    (p.lexeme = .mark .closeBrace ∧ s = .seeking 0 ∧ finished = some d.finish) ∨
    (∃ name, p.lexeme = .name name ∧ s = .members (d.add name) ∧ finished = none) ∨
    p.lexeme = .mark .comma ∧ s = .members d ∧ finished = none := by
  obtain ⟨l, line⟩ := p
  cases l with
  | name name => cases h; exact Or.inr (Or.inl ⟨name, rfl, rfl, rfl⟩)
  | mark m =>
    cases m with
    | comma => cases h; exact Or.inr (Or.inr ⟨rfl, rfl, rfl⟩)
    | closeBrace => cases h; exact Or.inl ⟨rfl, rfl, rfl⟩
    | _ => cases h

/-- The block of an enum ends at its closing brace. -/
theorem run_members {ps : List Placed} : ∀ {d : Pending} {ds : List Definition},
    run (.members d) ps = .ok ds → ∃ body close rest,
      ps = body ++ close :: rest ∧ close.lexeme = .mark .closeBrace ∧
      (∀ p ∈ body, p.lexeme = .mark .comma ∨ p.lexeme.name?.isSome) ∧
      ∀ qs, run (.members d) (body ++ close :: qs) =
        (run (.seeking 0) qs).map ((extend d (names body)).finish :: ·) := by
  induction ps with
  | nil =>
    intro d ds h
    rw [run_nil] at h
    exact absurd h (by simp [State.close, fail])
  | cons p ps ih =>
    intro d ds h
    obtain ⟨s, finished, ds', step, run, rfl⟩ := run_cons_eq_ok h rfl
    rcases step_members step with ⟨closes, rfl, rfl⟩ | ⟨name, named, rfl, rfl⟩ | ⟨comma, rfl, rfl⟩
    · refine ⟨[], p, ps, rfl, closes, by simp, fun qs => ?_⟩
      rw [names_nil, extend_nil]
      exact run_cons_next step qs
    · obtain ⟨body, close, rest, rfl, closes, plain, after⟩ := ih run
      refine ⟨p :: body, close, rest, rfl, closes, ?_, fun qs => ?_⟩
      · simpa [named, Lexeme.name?] using plain
      · rw [List.cons_append, run_cons_proceed step, after, extend_add, names_cons, named]
        rfl
    · obtain ⟨body, close, rest, rfl, closes, plain, after⟩ := ih run
      refine ⟨p :: body, close, rest, rfl, closes, by simpa [comma] using plain, fun qs => ?_⟩
      rw [List.cons_append, run_cons_proceed step, after, names_cons, comma]
      rfl

theorem step_alternatives {d : Pending} {expecting : Bool} {p : Placed} {s : State}
    {finished : Option Definition}
    (h : (State.alternatives d expecting).step p = .ok (.next s finished)) :
    finished = none ∧ ((∃ name, p.lexeme = .name name ∧ s = .alternatives (d.add name) false) ∨
      p.lexeme = .mark .bar ∧ s = .alternatives d true) := by
  obtain ⟨l, line⟩ := p
  cases l with
  | name name =>
    cases expecting with
    | true => cases h; exact ⟨rfl, Or.inl ⟨name, rfl, rfl⟩⟩
    | false =>
      simp only [State.step, alternative] at h
      split at h <;> cases h
  | mark m =>
    by_cases bar : m = .bar
    · subst bar
      cases expecting with
      | false => cases h; exact ⟨rfl, Or.inr ⟨rfl, rfl⟩⟩
      | true =>
        simp only [State.step, alternative] at h
        split at h
        · cases h; exact ⟨rfl, Or.inr ⟨rfl, rfl⟩⟩
        · cases h
    · cases m with
      | bar => exact absurd rfl bar
      | _ => cases expecting <;> cases h

/-- A union ends only after a member. -/
theorem step_alternatives_again {d : Pending} {expecting : Bool} {p : Placed} {d' : Definition}
    (h : (State.alternatives d expecting).step p = .ok (.again d')) :
    expecting = false ∧ d' = d.finish := by
  simp only [State.step, alternative, proceed, fail] at h
  split at h
  · cases h
  · split at h <;> cases h
  · cases h
  · cases h
  · split at h
    · cases h; exact ⟨rfl, rfl⟩
    · cases h
  · cases h

/-- The alternatives of a union end where a construct begins, or with the text. -/
theorem run_alternatives {ps : List Placed} : ∀ {d : Pending} {expecting : Bool}
    {ds : List Definition}, run (.alternatives d expecting) ps = .ok ds → ∃ body rest,
      ps = body ++ rest ∧
      (∀ p ∈ body, p.lexeme = .mark .bar ∨ p.lexeme.name?.isSome) ∧
      (expecting = true → ∃ p ∈ body, p.lexeme.name?.isSome) ∧
      ∀ qs, qs.head? = rest.head? → run (.alternatives d expecting) (body ++ qs) =
        (run (.seeking 0) qs).map ((extend d (names body)).finish :: ·) := by
  induction ps with
  | nil =>
    intro d expecting ds h
    rw [run_nil] at h
    cases expecting with
    | true => exact absurd h (by simp [State.close, fail])
    | false =>
      refine ⟨[], [], rfl, by simp, by simp, fun qs none => ?_⟩
      rw [List.head?_eq_none_iff.mp none, names_nil, extend_nil, List.nil_append, run_nil, run_nil]
      rfl
  | cons p ps ih =>
    intro d expecting ds h
    rcases run_cons_cases h with ⟨s, finished, ds', step, run, rfl⟩ | ⟨d', ds', step, run, rfl⟩
    · obtain ⟨rfl, ⟨name, named, rfl⟩ | ⟨bar, rfl⟩⟩ := step_alternatives step
      · obtain ⟨body, rest, rfl, plain, -, after⟩ := ih run
        refine ⟨p :: body, rest, rfl, ?_, fun _ => ⟨p, List.mem_cons_self, ?_⟩, fun qs next => ?_⟩
        · simpa [named, Lexeme.name?] using plain
        · rw [named]
          rfl
        · rw [List.cons_append, run_cons_proceed step, after qs next, extend_add, names_cons, named]
          rfl
      · obtain ⟨body, rest, rfl, plain, member, after⟩ := ih run
        obtain ⟨q, hq, name⟩ := member rfl
        refine ⟨p :: body, rest, rfl, by simpa [bar] using plain,
          fun _ => ⟨q, List.mem_cons_of_mem p hq, name⟩, fun qs next => ?_⟩
        rw [List.cons_append, run_cons_proceed step, after qs next, names_cons, bar]
        rfl
    · -- The lexeme is read again, so it is not part of the union.
      obtain ⟨rfl, rfl⟩ := step_alternatives_again step
      refine ⟨[], p :: ps, rfl, by simp, by simp, fun qs next => ?_⟩
      obtain ⟨qs, rfl⟩ := List.head?_eq_some_iff.mp next
      rw [names_nil, extend_nil]
      exact run_cons_again step qs

/-! ## Headings -/

/-- The state after the mark that opens a body. -/
def opened (d : Pending) : State :=
  match d.keyword with
  | .union => .alternatives d true
  | .enum => .members d
  | .type | .input | .interface => .fields d {}

/-- The mark that opens a body. -/
def openingMark : Keyword → Mark
  | .union => .equals
  | .type | .input | .enum | .interface => .openBrace

theorem isKeyword_of_sameLetters {name : String} (h : sameLetters "implements" name = true) :
    (Lexeme.name name).isKeyword = false := by
  have plain := ofName?_eq_none_of_sameLetters h (by decide)
  simp [Lexeme.isKeyword, isDeclarationKeyword, plain]

theorem continuesHeading_false {l : Lexeme} : l.continuesHeading false = true ↔
    ∃ text, l = .name text ∧ sameLetters "implements" text = true := by
  cases l <;> simp [Lexeme.continuesHeading]

theorem continuesHeading_true {l : Lexeme} : l.continuesHeading true = true ↔
    l = .mark .ampersand ∨ ∃ text, l = .name text ∧ isDeclarationKeyword text = false := by
  cases l <;> simp [Lexeme.continuesHeading]

theorem plain_of_continuesHeading {implementing : Bool} {l : Lexeme}
    (h : l.continuesHeading implementing = true) : l.isBrace = false ∧ l.isKeyword = false := by
  cases implementing with
  | false =>
    obtain ⟨text, rfl, spelled⟩ := continuesHeading_false.mp h
    exact ⟨rfl, isKeyword_of_sameLetters spelled⟩
  | true =>
    rcases continuesHeading_true.mp h with rfl | ⟨text, rfl, plain⟩
    · exact ⟨rfl, rfl⟩
    · exact ⟨rfl, plain⟩

/-- After a label, a lexeme opens the body or is part of a list of interfaces. -/
theorem step_heading {d : Pending} {implementing : Bool} {p : Placed} {s : State}
    {finished : Option Definition}
    (h : (State.heading d implementing).step p = .ok (.next s finished)) :
    finished = none ∧ ((p.lexeme = .mark (openingMark d.keyword) ∧ s = opened d) ∨
      ((d.keyword = .type ∨ d.keyword = .interface) ∧
        p.lexeme.continuesHeading implementing = true ∧ s = .heading d true)) := by
  obtain ⟨l, line⟩ := p
  obtain ⟨keyword, spelling, label, entries, line'⟩ := d
  -- What may follow the label of a type or an interface, other than the opening brace.
  have listed : ∀ {name : String} {s : State} {finished : Option Definition} {d : Pending}
      {fault : Error}, (if implementing then
          if isDeclarationKeyword name then .error fault else proceed (.heading d true)
        else if sameLetters "implements" name then proceed (.heading d true) else .error fault) =
        .ok (.next s finished) →
      finished = none ∧ (Lexeme.name name).continuesHeading implementing = true ∧
        s = .heading d true := by
    intro name s finished d fault h
    split at h
    · rename_i already
      split at h
      · exact absurd h (by simp)
      · rename_i plain
        cases h
        exact ⟨rfl, by simpa [Lexeme.continuesHeading, already] using plain, rfl⟩
    · rename_i first
      split at h
      · rename_i spelled
        cases h
        exact ⟨rfl, by simpa [Lexeme.continuesHeading, first] using spelled, rfl⟩
      · exact absurd h (by simp)
  cases keyword with
  | union =>
    cases l with
    | name name => cases h
    | mark m =>
      cases m with
      | equals => cases h; exact ⟨rfl, Or.inl ⟨rfl, rfl⟩⟩
      | _ => cases h
  | enum | input =>
    cases l with
    | name name => cases h
    | mark m =>
      cases m with
      | openBrace => cases h; exact ⟨rfl, Or.inl ⟨rfl, rfl⟩⟩
      | _ => cases h
  | type | interface =>
    cases l with
    | name name =>
      obtain ⟨rfl, continues, rfl⟩ := listed h
      exact ⟨rfl, Or.inr ⟨by simp, continues, rfl⟩⟩
    | mark m =>
      cases m with
      | openBrace => cases h; exact ⟨rfl, Or.inl ⟨rfl, rfl⟩⟩
      | ampersand =>
        simp only [State.step, head] at h
        split at h
        · rename_i already
          cases h
          exact ⟨rfl, Or.inr ⟨by simp, by simp [Lexeme.continuesHeading, already], rfl⟩⟩
        · exact absurd h (by simp [fail])
      | _ => cases h

/-- A list of interfaces goes on up to the mark that opens the body. -/
theorem run_listing {d : Pending} {ps : List Placed} : ∀ {ds : List Definition},
    run (.heading d true) ps = .ok ds → ∃ heading opening rest,
      ps = heading ++ opening :: rest ∧ opening.lexeme = .mark (openingMark d.keyword) ∧
      (∀ p ∈ heading, p.lexeme.continuesHeading true = true) ∧
      ∀ qs, run (.heading d true) (heading ++ opening :: qs) = run (opened d) qs := by
  induction ps with
  | nil =>
    intro ds h
    rw [run_nil] at h
    exact absurd h (by simp [State.close, fail])
  | cons p ps ih =>
    intro ds h
    obtain ⟨s, finished, ds', step, run, rfl⟩ := run_cons_eq_ok h rfl
    obtain ⟨rfl, ⟨opens, rfl⟩ | ⟨-, continues, rfl⟩⟩ := step_heading step
    · exact ⟨[], p, ps, rfl, opens, by simp, run_cons_proceed step⟩
    · obtain ⟨heading, opening, rest, rfl, opens, listed, after⟩ := ih run
      refine ⟨p :: heading, opening, rest, rfl, opens,
        List.forall_mem_cons.mpr ⟨continues, listed⟩, fun qs => ?_⟩
      rw [List.cons_append, run_cons_proceed step, after]

/-- What stands before the mark that opens a body. -/
theorem run_heading {d : Pending} {ps : List Placed} {ds : List Definition}
    (h : run (.heading d false) ps = .ok ds) : ∃ heading opening rest,
      ps = heading ++ opening :: rest ∧ opening.lexeme = .mark (openingMark d.keyword) ∧
      Clause d.keyword (heading.map Placed.lexeme) ∧
      ∀ qs, run (.heading d false) (heading ++ opening :: qs) = run (opened d) qs := by
  cases ps with
  | nil =>
    rw [run_nil] at h
    exact absurd h (by simp [State.close, fail])
  | cons p ps =>
    obtain ⟨s, finished, ds', step, run, rfl⟩ := run_cons_eq_ok h rfl
    obtain ⟨rfl, ⟨opens, rfl⟩ | ⟨lists, continues, rfl⟩⟩ := step_heading step
    · exact ⟨[], p, ps, rfl, opens, .none, run_cons_proceed step⟩
    · obtain ⟨heading, opening, rest, rfl, opens, listed, after⟩ := run_listing run
      refine ⟨p :: heading, opening, rest, rfl, opens, ?_, fun qs => ?_⟩
      · obtain ⟨word, first, spelled⟩ := continuesHeading_false.mp continues
        rw [List.map_cons, first]
        refine .implements lists spelled fun l hl => ?_
        obtain ⟨q, hq, rfl⟩ := List.mem_map.mp hl
        exact continuesHeading_true.mp (listed q hq)
      · rw [List.cons_append, run_cons_proceed step, after]

/-- Neither a brace nor a declaration keyword stands in a clause. -/
theorem plain_of_clause {keyword : Keyword} {ls : List Lexeme} (h : Clause keyword ls) :
    ∀ l ∈ ls, l.isBrace = false ∧ l.isKeyword = false := by
  cases h with
  | none => simp
  | implements _ spelled listed =>
    refine List.forall_mem_cons.mpr ⟨⟨rfl, isKeyword_of_sameLetters spelled⟩, fun l hl => ?_⟩
    exact plain_of_continuesHeading (continuesHeading_true.mpr (listed l hl))

theorem eq_nil_of_clause_union {ls : List Lexeme} (h : Clause .union ls) : ls = [] := by
  cases h with
  | none => rfl
  | implements lists => simp at lists

/-! ## Between declarations -/

theorem seek_cases (depth line : Nat) (l : Lexeme) :
    (∃ name keyword, depth = 0 ∧ l = .name name ∧ Keyword.ofName? name = some keyword ∧
      seek depth line l = .label keyword name line) ∨
    ((depth = 0 → l.isKeyword = false) ∧ seek depth line l = .seeking (l.braceDepth depth)) := by
  cases l with
  | mark m => exact Or.inr ⟨fun _ => rfl, by cases m <;> rfl⟩
  | name name =>
    cases depth with
    | succ depth => exact Or.inr ⟨fun no => absurd no (Nat.succ_ne_zero depth), rfl⟩
    | zero =>
      cases spelled : Keyword.ofName? name with
      | some keyword => exact Or.inl ⟨name, keyword, rfl, rfl, spelled, by simp [seek, spelled]⟩
      | none =>
        refine Or.inr ⟨fun _ => by simp [Lexeme.isKeyword, isDeclarationKeyword, spelled], ?_⟩
        simp [seek, spelled, Lexeme.braceDepth]

/-- A run between declarations ends there, or comes to a keyword outside all braces. -/
theorem run_seeking {ps : List Placed} : ∀ {depth : Nat} {ds : List Definition},
    run (.seeking depth) ps = .ok ds →
      (ds = [] ∧ Skippable depth ps) ∨
      ∃ skipped name line keyword rest, ps = skipped ++ ⟨.name name, line⟩ :: rest ∧
        Skippable depth skipped ∧ braceDepth depth skipped = 0 ∧
        Keyword.ofName? name = some keyword ∧ run (.label keyword name line) rest = .ok ds := by
  induction ps with
  | nil =>
    intro depth ds h
    rw [run_nil] at h
    exact Or.inl ⟨(Except.ok.inj h).symm, skippable_nil depth⟩
  | cons p ps ih =>
    intro depth ds h
    obtain ⟨s, finished, ds', step, run, rfl⟩ := run_cons_eq_ok h rfl
    obtain ⟨l, line⟩ := p
    obtain ⟨rfl, rfl⟩ : seek depth line l = s ∧ none = finished := by
      simpa [State.step, proceed] using step
    rcases seek_cases depth line l with ⟨name, keyword, rfl, rfl, spelled, found⟩ | ⟨plain, passed⟩
    · rw [found] at run
      exact Or.inr ⟨[], name, line, keyword, ps, rfl, skippable_nil 0, rfl, spelled, run⟩
    · rw [passed] at run
      rcases ih run with ⟨rfl, skips⟩ | ⟨skipped, name, line', keyword, rest, rfl, skips, outside,
        spelled, after⟩
      · exact Or.inl ⟨rfl, skippable_cons plain skips⟩
      · exact Or.inr ⟨⟨l, line⟩ :: skipped, name, line', keyword, rest, rfl,
          skippable_cons plain skips, outside, spelled, after⟩

/-- A keyword outside all braces begins a declaration. -/
theorem run_keyword {name : String} {keyword : Keyword}
    (spelled : Keyword.ofName? name = some keyword) (line : Nat) (qs : List Placed) :
    run (.seeking 0) (⟨.name name, line⟩ :: qs) = run (.label keyword name line) qs :=
  run_cons_proceed (by simp [State.step, seek, spelled]) qs

/-- Lexemes that can be skipped are, and only their braces are counted. -/
theorem run_skipped {skipped : List Placed} {depth : Nat} (plain : Skippable depth skipped)
    (qs : List Placed) : run (.seeking depth) (skipped ++ qs) =
      run (.seeking (braceDepth depth skipped)) qs := by
  induction skipped generalizing depth with
  | nil => rfl
  | cons p skipped ih =>
    have first : depth = 0 → p.lexeme.isKeyword = false := plain [] p skipped rfl
    have rest : Skippable (p.lexeme.braceDepth depth) skipped :=
      fun before q after h => plain (p :: before) q after (congrArg (p :: ·) h)
    have passed : seek depth p.line p.lexeme = .seeking (p.lexeme.braceDepth depth) := by
      rcases seek_cases depth p.line p.lexeme with ⟨name, keyword, none, named, spelled, -⟩ | ⟨-, h⟩
      · have plain := first none
        rw [named] at plain
        exact absurd plain (by simp [Lexeme.isKeyword, isDeclarationKeyword, spelled])
      · exact h
    have step : (State.seeking depth).step p = proceed (seek depth p.line p.lexeme) := rfl
    rw [List.cons_append, run_cons_proceed step, passed, ih rest]
    rfl

/-! ## A run that can be computed -/

/-- The run as a recursion over the lexemes: one that ends a union is read again at once. -/
def sweep (s : State) : List Placed → Except Error (List Definition)
  | [] => s.close
  | p :: ps =>
    match s.step p with
    | .error e => .error e
    | .ok (.next s' finished) => (sweep s' ps).map (finished.toList ++ ·)
    | .ok (.again d) => (sweep (seek 0 p.line p.lexeme) ps).map (d :: ·)

/-- **No lexeme is read more than twice.** -/
theorem run_eq_sweep (s : State) (ps : List Placed) : run s ps = sweep s ps := by
  induction ps generalizing s with
  | nil => exact run_nil s
  | cons p ps ih =>
    rw [sweep]
    cases step : s.step p with
    | error e =>
      rw [run]
      split <;> simp_all
    | ok result =>
      cases result with
      | next s' finished => rw [run_cons_next step, ih]
      | again d =>
        have sought : (State.seeking 0).step p = proceed (seek 0 p.line p.lexeme) := rfl
        rw [run_cons_again step, run_cons_proceed sought, ih]

end Reader

/-- How the lexemes of a given source are found out. -/
theorem Source.lex_of_isSpaced {source : String} {ps : List Placed}
    (spaced : Grammar.isSpaced false 1 ps source.toList = true) : Source.lex source = .ok ps :=
  lexFrom_of_spaced (Grammar.spaced_of_isSpaced spaced)

/-- How the definitions of a given source are found out. -/
theorem Source.definitions_of_sweep {source : String} {ds : List Definition} (ps : List Placed)
    (spaced : Grammar.isSpaced false 1 ps (stripMarkers source).toList = true)
    (swept : Reader.sweep (.seeking 0) ps = .ok ds) : Source.definitions source = .ok ds := by
  rw [definitions, lex_of_isSpaced spaced, ← swept, ← Reader.run_eq_sweep]
  rfl

end SchemaTypegen
