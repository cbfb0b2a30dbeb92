import SchemaTypegen.Proofs.Division

/-!
# Where a run ends

A run gives the definitions it has finished and judges the state it is left in. Here the two are
taken apart: `trace` reads the lexemes and gives the definitions together with the state after them,
and `run_eq_trace` says that a run is a trace followed by the judgement. A trace can be cut at any
lexeme (`run_append`), which a run cannot.

The states keep count of the braces around them in three different ways. `State.openBraces` is what
these have in common: it moves with every lexeme as the depth of braces does.

* **`run_eq_trace`**, `run_append`: a run over lexemes put together.
* **`openBraces_of_trace`**: a trace ends inside as many braces as its lexemes leave open.
-/

namespace SchemaTypegen

open Text

namespace Reader

/-- One lexeme, which is read again at once if it ends a union: the definitions it finishes and the
state after it. -/
def State.turn (s : State) (p : Placed) : Except Error (List Definition × State) :=
  (s.step p).map fun
    | .next s' finished => (finished.toList, s')
    | .again d => ([d], seek 0 p.line p.lexeme)

/-- The definitions that lexemes finish and the state after them. -/
def trace (s : State) : List Placed → Except Error (List Definition × State)
  | [] => .ok ([], s)
  | p :: ps => do
    let (ds, s') ← s.turn p
    let (ds', s'') ← trace s' ps
    return (ds ++ ds', s'')

/-! ## Traces and runs -/

theorem trace_cons_eq_ok {s s'' : State} {p : Placed} {ps : List Placed} {ds : List Definition} :
    trace s (p :: ps) = .ok (ds, s'') ↔ ∃ first s' others, s.turn p = .ok (first, s') ∧
      trace s' ps = .ok (others, s'') ∧ ds = first ++ others := by
  rw [trace, Success.bind_eq_ok]
  constructor
  · rintro ⟨⟨first, s'⟩, turn, rest⟩
    obtain ⟨⟨others, last⟩, rest, same⟩ := Success.bind_eq_ok.mp rest
    cases same
    exact ⟨first, s', others, turn, rest, rfl⟩
  · rintro ⟨first, s', others, turn, rest, rfl⟩
    exact ⟨(first, s'), turn, Success.bind_eq_ok.mpr ⟨(others, s''), rest, rfl⟩⟩

theorem turn_eq_ok {s s' : State} {p : Placed} {ds : List Definition} :
    s.turn p = .ok (ds, s') ↔
      (∃ finished : Option Definition, s.step p = .ok (.next s' finished) ∧
        ds = finished.toList) ∨
      ∃ d, s.step p = .ok (.again d) ∧ ds = [d] ∧ s' = seek 0 p.line p.lexeme := by
  rw [State.turn, Success.map_eq_ok]
  constructor
  · rintro ⟨result, step, same⟩
    cases result with
    | next next finished =>
      obtain ⟨rfl, rfl⟩ := Prod.mk.inj same
      exact Or.inl ⟨finished, step, rfl⟩
    | again d =>
      obtain ⟨rfl, rfl⟩ := Prod.mk.inj same
      exact Or.inr ⟨d, step, rfl, rfl⟩
  · rintro (⟨finished, step, rfl⟩ | ⟨d, step, rfl, rfl⟩)
    · exact ⟨_, step, rfl⟩
    · exact ⟨_, step, rfl⟩

/-- A run goes on after a lexeme with the state that the lexeme leaves. -/
theorem run_cons_turn (s : State) (p : Placed) (ps : List Placed) :
    run s (p :: ps) = s.turn p >>= fun (ds, s') => (run s' ps).map (ds ++ ·) := by
  rw [run_eq_sweep, sweep, State.turn]
  cases s.step p with
  | error e => rfl
  | ok result =>
    cases result with
    | next s' finished =>
      exact congrArg (Except.map (finished.toList ++ ·)) (run_eq_sweep s' ps).symm
    | again d =>
      exact congrArg (Except.map (d :: ·)) (run_eq_sweep (seek 0 p.line p.lexeme) ps).symm

/-- **A run is a trace whose last state is judged.** -/
theorem run_eq_trace (s : State) (ps : List Placed) :
    run s ps = trace s ps >>= fun (ds, s') => s'.close.map (ds ++ ·) := by
  induction ps generalizing s with
  | nil =>
    rw [run_nil]
    cases h : s.close <;> simp [trace, h, bind, Except.bind, Except.map]
  | cons p ps ih =>
    rw [run_cons_turn, trace]
    cases s.turn p with
    | error e => rfl
    | ok result =>
      obtain ⟨ds, s'⟩ := result
      have ih := ih s'
      cases rest : trace s' ps with
      | error e => simp [ih, rest, bind, Except.bind, Except.map]
      | ok result =>
        obtain ⟨ds', s''⟩ := result
        cases judged : s''.close <;>
          simp [ih, rest, judged, bind, Except.bind, Except.map, pure, Except.pure]

/-- A run over lexemes put together goes on where the trace of the first ones ends. -/
theorem run_append {s s' : State} {ps : List Placed} {ds : List Definition}
    (h : trace s ps = .ok (ds, s')) (qs : List Placed) :
    run s (ps ++ qs) = (run s' qs).map (ds ++ ·) := by
  induction ps generalizing s ds with
  | nil =>
    obtain ⟨rfl, rfl⟩ := Prod.mk.inj (Except.ok.inj h)
    cases h : run s qs <;> simp [h, Except.map]
  | cons p ps ih =>
    obtain ⟨first, next, others, turn, rest, rfl⟩ := trace_cons_eq_ok.mp h
    rw [List.cons_append, run_cons_turn, turn]
    have ih := ih rest
    cases tail : run s' qs <;> simp [ih, tail, bind, Except.bind, Except.map]

/-- A run that succeeds ends in a state that is accepted. -/
theorem exists_trace_of_run {s : State} {ps : List Placed} {ds : List Definition}
    (h : run s ps = .ok ds) : ∃ read s' last, trace s ps = .ok (read, s') ∧
      s'.close = .ok last ∧ ds = read ++ last := by
  rw [run_eq_trace, Success.bind_eq_ok] at h
  obtain ⟨⟨read, s'⟩, traced, judged⟩ := h
  obtain ⟨last, closed, rfl⟩ := Success.map_eq_ok.mp judged
  exact ⟨read, s', last, traced, closed, rfl⟩

/-- The end of a text is accepted between declarations and in a complete union. -/
theorem State.close_eq_ok {s : State} {last : List Definition} :
    s.close = .ok last ↔ (∃ depth, s = .seeking depth ∧ last = []) ∨
      ∃ d, s = .alternatives d false ∧ last = [d.finish] := by
  cases s with
  | seeking depth => simp [close, eq_comm]
  | alternatives d expecting => cases expecting <;> simp [close, fail, eq_comm]
  | label | heading | fields | members => simp [close, fail]

/-! ## Open braces -/

/-- The number of braces a state is inside of. -/
def State.openBraces : State → Nat
  | .seeking depth => depth
  | .fields _ _ | .members _ => 1
  | .label _ _ _ | .heading _ _ | .alternatives _ _ => 0

end Reader

theorem Lexeme.braceDepth_of_isBrace {l : Lexeme} (h : l.isBrace = false) (depth : Nat) :
    l.braceDepth depth = depth := by
  cases l with
  | name text => rfl
  | mark m =>
    cases m with
    | openBrace | closeBrace => exact absurd h (by decide)
    | _ => rfl

theorem braceDepth_cons (depth : Nat) (p : Placed) (ps : List Placed) :
    braceDepth depth (p :: ps) = braceDepth (p.lexeme.braceDepth depth) ps :=
  rfl

theorem braceDepth_append (depth : Nat) (ps qs : List Placed) :
    braceDepth depth (ps ++ qs) = braceDepth (braceDepth depth ps) qs :=
  List.foldl_append

theorem braceDepth_of_isBrace {ps : List Placed} (h : ∀ p ∈ ps, p.lexeme.isBrace = false)
    (depth : Nat) : braceDepth depth ps = depth := by
  induction ps with
  | nil => rfl
  | cons p ps ih =>
    rw [braceDepth_cons, Lexeme.braceDepth_of_isBrace (h p List.mem_cons_self)]
    exact ih fun q hq => h q (List.mem_cons_of_mem p hq)

namespace Reader

theorem openBraces_seek (depth line : Nat) (l : Lexeme) :
    (seek depth line l).openBraces = l.braceDepth depth := by
  rcases seek_cases depth line l with ⟨name, keyword, rfl, rfl, -, found⟩ | ⟨-, passed⟩
  · rw [found]
    rfl
  · rw [passed]
    rfl

/-- A lexeme that is read takes the state along with the depth of braces. -/
theorem openBraces_of_next {s s' : State} {p : Placed} {finished : Option Definition}
    (h : s.step p = .ok (.next s' finished)) :
    s'.openBraces = p.lexeme.braceDepth s.openBraces := by
  cases s with
  | seeking depth =>
    obtain ⟨rfl, -⟩ : seek depth p.line p.lexeme = s' ∧ none = finished := by
      simpa [State.step, proceed] using h
    exact openBraces_seek depth p.line p.lexeme
  | label keyword spelling line =>
    obtain ⟨l, labelLine⟩ := p
    cases l with
    | name name => cases h; rfl
    | mark m => exact absurd h (by simp [State.step, fail])
  | heading d implementing =>
    obtain ⟨-, ⟨opens, rfl⟩ | ⟨-, continues, rfl⟩⟩ := step_heading h
    · obtain ⟨keyword, spelling, label, entries, line⟩ := d
      rw [opens]
      cases keyword <;> rfl
    · rw [Lexeme.braceDepth_of_isBrace (plain_of_continuesHeading continues).1]
      rfl
  | fields d e =>
    rcases step_fields h with ⟨closes, rfl, -⟩ | ⟨e', move, rfl, -⟩ | ⟨e', move, rfl, -⟩
    · rw [closes]
      rfl
    · rw [Lexeme.braceDepth_of_isBrace move.isBrace_eq_false]
      rfl
    · rw [Lexeme.braceDepth_of_isBrace move.isBrace_eq_false]
      rfl
  | members d =>
    rcases step_members h with ⟨closes, rfl, -⟩ | ⟨name, named, rfl, -⟩ | ⟨comma, rfl, -⟩
    · rw [closes]
      rfl
    · rw [named]
      rfl
    · rw [comma]
      rfl
  | alternatives d expecting =>
    obtain ⟨-, ⟨name, named, rfl⟩ | ⟨bar, rfl⟩⟩ := step_alternatives h
    · rw [named]
      rfl
    · rw [bar]
      rfl

theorem openBraces_of_turn {s s' : State} {p : Placed} {ds : List Definition}
    (h : s.turn p = .ok (ds, s')) : s'.openBraces = p.lexeme.braceDepth s.openBraces := by
  rcases turn_eq_ok.mp h with ⟨finished, step, -⟩ | ⟨d, step, -, rfl⟩
  · exact openBraces_of_next step
  · -- Only a union is ended by a lexeme that is read again, and a union is outside all braces.
    cases s with
    | alternatives d expecting => exact openBraces_seek 0 p.line p.lexeme
    | _ => exact absurd (rereads_of_again step) Nat.zero_ne_one

/-- **A trace ends inside the braces that its lexemes leave open.** -/
theorem openBraces_of_trace {s s' : State} {ps : List Placed} {ds : List Definition}
    (h : trace s ps = .ok (ds, s')) : s'.openBraces = braceDepth s.openBraces ps := by
  induction ps generalizing s ds with
  | nil =>
    obtain ⟨-, rfl⟩ := Prod.mk.inj (Except.ok.inj h)
    rfl
  | cons p ps ih =>
    obtain ⟨first, next, others, turn, rest, -⟩ := trace_cons_eq_ok.mp h
    rw [ih rest, openBraces_of_turn turn, braceDepth_cons]

end Reader

/-- The state in which the lexemes of a source leave the machine. -/
def Source.endState (source : String) : Except Error Reader.State :=
  Source.lex (stripMarkers source) >>= fun ps => (Reader.trace (.seeking 0) ps).map Prod.snd

/-- An accepted source has lexemes, and its run ends in a state that is accepted. -/
theorem Source.exists_trace_of_definitions {source : String} {ds : List Definition}
    (h : Source.definitions source = .ok ds) :
    ∃ ps read s last, Source.lex (stripMarkers source) = .ok ps ∧
      Reader.trace (.seeking 0) ps = .ok (read, s) ∧ Source.endState source = .ok s ∧
      s.close = .ok last ∧ ds = read ++ last := by
  obtain ⟨ps, lexed, run⟩ := Success.bind_eq_ok.mp h
  obtain ⟨read, s, last, traced, closed, rfl⟩ := Reader.exists_trace_of_run run
  refine ⟨ps, read, s, last, lexed, traced, ?_, closed, rfl⟩
  exact Success.bind_eq_ok.mpr ⟨ps, lexed, Success.map_eq_ok.mpr ⟨_, traced, rfl⟩⟩

end SchemaTypegen
