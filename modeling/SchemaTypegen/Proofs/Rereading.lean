import SchemaTypegen.Proofs.Trace

/-!
# The loop over the lexemes ends

The machine reads lexemes in a loop that does not always go on to the next one: the lexeme that ends
a union is read again. `Loop` is such a loop in the middle of its work, `Loop.Turn` one turn of it,
and `Loop.Ends` a whole run of it with the places of the lexemes it looks at. Nothing in these says
that the loop comes to an end.

A turn that does not go on leaves the machine between declarations, where every lexeme is passed. So
each turn goes on in the lexemes or takes away the chance to read one again.

* `step_eq_again_iff`: when a lexeme is read again.
* `wellFounded_turn`: no loop turns for ever.
* `exists_ends`, `Ends.unique`: a loop ends in one way, and gives what `run` gives.
* **`loop_ends`**: all of it, and that each lexeme is looked at in order, once or twice.
-/

namespace SchemaTypegen

namespace Reader

/-- A lexeme is read again exactly if it is a keyword and the machine stands in a complete union. -/
theorem step_eq_again_iff {s : State} {p : Placed} {finished : Definition} :
    s.step p = .ok (.again finished) ↔ ∃ d name, s = .alternatives d false ∧
      p.lexeme = .name name ∧ (isDeclarationKeyword name || isSkippedKeyword name) = true ∧
      finished = d.finish := by
  constructor
  · intro h
    cases s with
    | alternatives d expecting =>
      obtain ⟨rfl, rfl⟩ := step_alternatives_again h
      obtain ⟨l, line⟩ := p
      cases l with
      | mark m => cases m <;> cases h
      | name name =>
        simp only [State.step, alternative] at h
        split at h
        · rename_i keyword
          exact ⟨d, name, rfl, rfl, keyword, rfl⟩
        · cases h
    | _ => exact absurd (rereads_of_again h) Nat.zero_ne_one
  · rintro ⟨d, name, rfl, named, keyword, rfl⟩
    simp only [State.step, alternative, named, keyword, if_true]

/-- A loop over lexemes: the place of the lexeme it looks at next, the state of the machine and the
definitions finished so far. -/
structure Loop where
  place : Nat := 0
  state : State := .seeking 0
  finished : List Definition := []

namespace Loop

/-- One turn: the lexeme is read and the loop goes on to the next one, or it stays there to read the
lexeme again. -/
inductive Turn (ps : List Placed) (m : Loop) : Loop → Prop where
  | next {p : Placed} {s : State} {d : Option Definition} (here : ps[m.place]? = some p)
      (step : m.state.step p = .ok (.next s d)) :
      Turn ps m ⟨m.place + 1, s, m.finished ++ d.toList⟩
  | again {p : Placed} {d : Definition} (here : ps[m.place]? = some p)
      (step : m.state.step p = .ok (.again d)) :
      Turn ps m ⟨m.place, .seeking 0, m.finished ++ [d]⟩

/-- A loop that comes to an end, with the places it looks at and its result: after the last lexeme
the state is judged, and a lexeme that cannot stand where it does ends the loop at once. -/
inductive Ends (ps : List Placed) :
    Loop → List Nat → Except Error (List Definition) → Prop where
  | closed {m : Loop} (past : ps.length ≤ m.place) :
      Ends ps m [] (m.state.close.map (m.finished ++ ·))
  | refused {m : Loop} {p : Placed} {e : Error} (here : ps[m.place]? = some p)
      (step : m.state.step p = .error e) : Ends ps m [m.place] (.error e)
  | turn {m m' : Loop} {places : List Nat} {result : Except Error (List Definition)}
      (turn : Turn ps m m') (rest : Ends ps m' places result) :
      Ends ps m (m.place :: places) result

section Lexemes

variable {ps : List Placed} {m m' : Loop}

/-! ## One turn -/

theorem place_lt_of_here {p : Placed} {n : Nat} (here : ps[n]? = some p) : n < ps.length :=
  (List.getElem?_eq_some_iff.mp here).1

theorem Turn.unique {m'' : Loop} (h : Turn ps m m') (h' : Turn ps m m'') : m'' = m' := by
  cases h with
  | next here step =>
    cases h' with
    | next here' step' =>
      obtain rfl := Option.some.inj (here.symm.trans here')
      cases step.symm.trans step'
      rfl
    | again here' step' =>
      obtain rfl := Option.some.inj (here.symm.trans here')
      cases step.symm.trans step'
  | again here step =>
    cases h' with
    | next here' step' =>
      obtain rfl := Option.some.inj (here.symm.trans here')
      cases step.symm.trans step'
    | again here' step' =>
      obtain rfl := Option.some.inj (here.symm.trans here')
      cases step.symm.trans step'
      rfl

/-- A loop stays at a keyword that ends a union, and nowhere else. -/
theorem Turn.stays_iff (h : Turn ps m m') : m'.place = m.place ↔
    ∃ d p name, m.state = .alternatives d false ∧ ps[m.place]? = some p ∧ p.lexeme = .name name ∧
      (isDeclarationKeyword name || isSkippedKeyword name) = true := by
  cases h with
  | next here step =>
    refine ⟨fun same => absurd same (Nat.succ_ne_self m.place), ?_⟩
    rintro ⟨d, p, name, held, here', named, keyword⟩
    obtain rfl := Option.some.inj (here.symm.trans here')
    have again := step_eq_again_iff.mpr ⟨d, name, held, named, keyword, rfl⟩
    cases step.symm.trans again
  | @again p _ here step =>
    obtain ⟨d, name, held, named, keyword, -⟩ := step_eq_again_iff.mp step
    exact ⟨fun _ => ⟨d, p, name, held, here, named, keyword⟩, fun _ => rfl⟩

/-- A loop that has stayed is between declarations, with the union finished, and passes the lexeme
in its next turn. -/
theorem Turn.passes (h : Turn ps m m') (stays : m'.place = m.place) :
    m'.state = .seeking 0 ∧ (∃ d, m.state = .alternatives d false ∧
      m'.finished = m.finished ++ [d.finish]) ∧
    ∃ m'', Turn ps m' m'' ∧ m''.place = m.place + 1 ∧ m''.finished = m'.finished := by
  cases h with
  | next => exact absurd stays (Nat.succ_ne_self m.place)
  | @again p _ here step =>
    obtain ⟨d, name, held, -, -, rfl⟩ := step_eq_again_iff.mp step
    refine ⟨rfl, ⟨d, held, rfl⟩, _, .next here rfl, rfl, List.append_nil _⟩

/-- **No loop turns for ever**: every turn goes on in the lexemes, or takes away the chance to read
one again. -/
theorem wellFounded_turn (ps : List Placed) : WellFounded fun m' m => Turn ps m m' := by
  refine Subrelation.wf (fun {m' m} h => ?_)
    (InvImage.wf (fun m : Loop => (ps.length - m.place, m.state.rereads))
      (Prod.lex Nat.lt_wfRel Nat.lt_wfRel).wf)
  cases h with
  | next here _ =>
    have inside := place_lt_of_here here
    exact Prod.Lex.left _ _ (Nat.sub_succ_lt_self _ _ inside)
  | again _ step =>
    have chance : m.state.rereads = 1 := rereads_of_again step
    exact Prod.Lex.right _ (chance ▸ Nat.zero_lt_one)

/-! ## Whole loops -/

theorem Turn.place_lt (h : Turn ps m m') : m.place < ps.length := by
  cases h with
  | next here | again here => exact place_lt_of_here here

theorem Turn.step_ne_error (h : Turn ps m m') {p : Placed} (here : ps[m.place]? = some p)
    (e : Error) : m.state.step p ≠ .error e := by
  intro failed
  cases h with
  | next here' step | again here' step =>
    obtain rfl := Option.some.inj (here.symm.trans here')
    cases failed.symm.trans step

/-- **A loop ends in one way.** -/
theorem Ends.unique {places places' : List Nat} {result result' : Except Error (List Definition)}
    (h : Ends ps m places result) (h' : Ends ps m places' result') :
    places' = places ∧ result' = result := by
  induction h generalizing places' with
  | closed past =>
    cases h' with
    | closed => exact ⟨rfl, rfl⟩
    | refused here => exact absurd (place_lt_of_here here) (Nat.not_lt.mpr past)
    | turn turn => exact absurd turn.place_lt (Nat.not_lt.mpr past)
  | refused here step =>
    cases h' with
    | closed past => exact absurd (place_lt_of_here here) (Nat.not_lt.mpr past)
    | refused here' step' =>
      obtain rfl := Option.some.inj (here.symm.trans here')
      cases step.symm.trans step'
      exact ⟨rfl, rfl⟩
    | turn turn => exact absurd step (turn.step_ne_error here _)
  | turn turn _ ih =>
    cases h' with
    | closed past => exact absurd turn.place_lt (Nat.not_lt.mpr past)
    | refused here step => exact absurd step (turn.step_ne_error here _)
    | turn turn' rest =>
      obtain rfl := turn.unique turn'
      obtain ⟨rfl, rfl⟩ := ih rest
      exact ⟨rfl, rfl⟩

end Lexemes

/-- The places from `first` on and before `last`, in order, each of them once or twice. -/
structure Covers (first last : Nat) (places : List Nat) : Prop where
  le : first ≤ last
  all : ∀ n, n ∈ places ↔ first ≤ n ∧ n < last
  sorted : places.Pairwise (· ≤ ·)
  twice : ∀ n, places.count n ≤ 2

theorem Covers.nil (first : Nat) : Covers first first [] where
  le := Nat.le_refl first
  all _ := ⟨fun mem => absurd mem List.not_mem_nil, fun h => absurd h.2 (Nat.not_lt.mpr h.1)⟩
  sorted := .nil
  twice _ := Nat.zero_le 2

theorem Covers.replicate_append {first last count : Nat} {places : List Nat}
    (h : Covers (first + 1) last places) (some : 0 < count) (few : count ≤ 2) :
    Covers first last (List.replicate count first ++ places) where
  le := Nat.le_of_succ_le h.le
  all n := by
    have := h.le
    rw [List.mem_append, List.mem_replicate, h.all]
    omega
  sorted := by
    refine List.pairwise_append.mpr ⟨?_, h.sorted, fun n hn n' hn' => ?_⟩
    · exact List.pairwise_replicate.mpr (Or.inr (Nat.le_refl first))
    · obtain rfl := List.eq_of_mem_replicate hn
      exact Nat.le_of_succ_le ((h.all n').mp hn').1
  twice n := by
    rw [List.count_append]
    by_cases same : n = first
    · subst same
      have absent : n ∉ places := fun mem => absurd ((h.all n).mp mem).1 (Nat.not_succ_le_self n)
      rwa [List.count_replicate_self, List.count_eq_zero.mpr absent]
    · have other : n ∉ List.replicate count first := fun mem => same (List.eq_of_mem_replicate mem)
      rw [List.count_eq_zero.mpr other, Nat.zero_add]
      exact h.twice n

/-- What comes of a lexeme takes the loop one turn or two. -/
theorem exists_ends_of_turn {ps : List Placed} {m : Loop} {p : Placed} {ds : List Definition}
    {s : State} (here : ps[m.place]? = some p) (h : m.state.turn p = .ok (ds, s)) :
    ∃ count, 0 < count ∧ count ≤ 2 ∧ ∀ places result,
      Ends ps ⟨m.place + 1, s, m.finished ++ ds⟩ places result →
      Ends ps m (List.replicate count m.place ++ places) result := by
  rcases turn_eq_ok.mp h with ⟨finished, step, rfl⟩ | ⟨d, step, rfl, rfl⟩
  · exact ⟨1, by decide, by decide, fun places result rest => .turn (.next here step) rest⟩
  · refine ⟨2, by decide, by decide, fun places result rest => .turn (.again here step) ?_⟩
    refine .turn (.next here rfl) ?_
    rwa [Option.toList_none, List.append_nil]

theorem step_eq_error_of_turn {s : State} {p : Placed} {e : Error} (h : s.turn p = .error e) :
    s.step p = .error e := by
  cases step : s.step p with
  | error e' => rw [State.turn, step] at h; exact congrArg _ (Except.error.inj h)
  | ok result => rw [State.turn, step] at h; cases h

/-- **Every loop ends**, with what `run` gives. It looks at the remaining lexemes in order, each
once or twice, and at all of them unless it comes to one that cannot stand where it does. -/
theorem exists_ends (ps : List Placed) : ∀ (rest : List Placed) (m : Loop),
    ps.drop m.place = rest → ∃ places last,
      Ends ps m places ((run m.state rest).map (m.finished ++ ·)) ∧
      Covers m.place last places ∧ last ≤ m.place + rest.length ∧
      ∀ read s, trace m.state rest = .ok (read, s) → last = m.place + rest.length := by
  intro rest
  induction rest with
  | nil =>
    intro m past
    refine ⟨[], m.place, ?_, .nil _, Nat.le_refl _, fun _ _ _ => rfl⟩
    rw [run_nil]
    exact .closed (List.drop_eq_nil_iff.mp past)
  | cons p rest ih =>
    intro m remaining
    have here : ps[m.place]? = some p := by
      rw [← List.head?_drop, remaining]
      rfl
    have after : ps.drop (m.place + 1) = rest := by
      rw [← List.drop_drop, remaining]
      rfl
    rw [run_cons_turn]
    cases turn : m.state.turn p with
    | error e =>
      refine ⟨[m.place], m.place + 1, .refused here (step_eq_error_of_turn turn), ?_, ?_, ?_⟩
      · exact (Covers.nil (m.place + 1)).replicate_append Nat.zero_lt_one (by decide)
      · rw [List.length_cons]
        omega
      · intro _ _ traced
        obtain ⟨_, _, _, turn', -⟩ := trace_cons_eq_ok.mp traced
        cases turn.symm.trans turn'
    | ok result =>
      obtain ⟨ds, s⟩ := result
      obtain ⟨count, some, few, goesOn⟩ := exists_ends_of_turn here turn
      obtain ⟨places, last, ends, covers, bound, whole⟩ :=
        ih ⟨m.place + 1, s, m.finished ++ ds⟩ after
      refine ⟨_, last, goesOn places _ ?_, covers.replicate_append some few, ?_, ?_⟩
      · cases left : run s rest <;> simpa [bind, Except.bind, Except.map, left] using ends
      · rw [List.length_cons]
        simp only at bound
        omega
      · intro read s' traced
        obtain ⟨_, _, others, turn', rest, -⟩ := trace_cons_eq_ok.mp traced
        cases turn.symm.trans turn'
        rw [whole others s' rest, List.length_cons]
        simp only
        omega

end Loop

open Loop in
/-- **The loop over the lexemes ends.** No loop turns for ever, from whatever state. A loop stays
where it is only at a keyword that ends a complete union; it is then between declarations, outside
all braces, and its next turn passes the keyword. So the loop over a list of lexemes comes to one
end, with the result of `run`, and looks at the lexemes in order, each of them once or twice, and
at all of them unless one cannot stand where it does. -/
theorem loop_ends (ps : List Placed) :
    (WellFounded fun m' m => Turn ps m m') ∧
    (∀ m m', Turn ps m m' → (m'.place = m.place ↔
      ∃ d p name, m.state = .alternatives d false ∧ ps[m.place]? = some p ∧ p.lexeme = .name name ∧
        (isDeclarationKeyword name || isSkippedKeyword name) = true)) ∧
    (∀ m m', Turn ps m m' → m'.place = m.place → m'.state = .seeking 0 ∧
      (∃ d, m.state = .alternatives d false ∧ m'.finished = m.finished ++ [d.finish]) ∧
      ∃ m'', Turn ps m' m'' ∧ (∀ other, Turn ps m' other → other = m'') ∧
        m''.place = m.place + 1 ∧ m''.finished = m'.finished) ∧
    ∃ places last, Ends ps {} places (run (.seeking 0) ps) ∧
      (∀ places' result, Ends ps {} places' result →
        places' = places ∧ result = run (.seeking 0) ps) ∧
      Covers 0 last places ∧ last ≤ ps.length ∧
      ∀ read s, trace (.seeking 0) ps = .ok (read, s) → last = ps.length := by
  refine ⟨wellFounded_turn ps, fun m m' turn => turn.stays_iff, fun m m' turn stays => ?_, ?_⟩
  · obtain ⟨between, union, m'', next, place, finished⟩ := turn.passes stays
    exact ⟨between, union, m'', next, fun other turn' => next.unique turn', place, finished⟩
  · obtain ⟨places, last, ends, covers, bound, whole⟩ := exists_ends ps ps {} rfl
    have result : (run (.seeking 0) ps).map ([] ++ ·) = run (.seeking 0) ps := by
      cases run (.seeking 0) ps <;> rfl
    rw [result] at ends
    rw [Nat.zero_add] at bound
    refine ⟨places, last, ends, fun _ _ other => ends.unique other, covers, bound, ?_⟩
    intro read s traced
    rw [whole read s traced, Nat.zero_add]

/-! ### A union that ends at a declaration -/

/-- A union and the type that ends it. -/
def rereadLexemes : List Placed := Grammar.onLine 1
  [.name "union", .name "U", .mark .equals, .name "A", .name "type", .name "A", .mark .openBrace,
    .mark .closeBrace]

/-- The keyword of the type is looked at twice, and all other lexemes once. -/
theorem loop_ends_rereadLexemes :
    Loop.Ends rereadLexemes {} [0, 1, 2, 3, 4, 4, 5, 6, 7] (run (.seeking 0) rereadLexemes) := by
  obtain ⟨-, -, -, places, last, ends, unique, -⟩ := loop_ends rereadLexemes
  have looked : Loop.Ends rereadLexemes {} [0, 1, 2, 3, 4, 4, 5, 6, 7]
      (.ok [⟨"union", "U", ["A"], 1⟩, ⟨"type", "A", [], 1⟩]) :=
    .turn (.next rfl rfl) <| .turn (.next rfl rfl) <| .turn (.next rfl rfl) <|
      .turn (.next rfl rfl) <| .turn (.again rfl rfl) <| .turn (.next rfl rfl) <|
      .turn (.next rfl rfl) <| .turn (.next rfl rfl) <| .turn (.next rfl rfl) <|
      .closed (Nat.le_refl 8)
  obtain ⟨rfl, -⟩ := unique _ _ looked
  exact ends

end Reader

end SchemaTypegen
