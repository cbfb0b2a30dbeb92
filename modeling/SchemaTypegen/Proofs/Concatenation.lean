import SchemaTypegen.Proofs.Trace

/-!
# Sources written one after the other

A source that ends where a construct may begin can be followed by another one: the definitions of
both together are those of the first and those of the second, on later lines. Three things have to
be brought together. The lexemes of the text are those of its two parts (`lexFrom_append`). The
machine does the same on later lines, in every state (`step_later`). A union at the end of the first
part is ended by the keyword that follows instead of by the end of the text (`run_settled`).

* **`definitions_append`**: the definitions and the document of two sources put together.
-/

namespace SchemaTypegen

open Text Grammar

/-! ## Later lines -/

/-- The same lexeme `n` lines further down. -/
def Placed.later (n : Nat) (p : Placed) : Placed := { p with line := p.line + n }

/-- The same definition `n` lines further down. -/
def Definition.later (n : Nat) (d : Definition) : Definition := { d with line := d.line + n }

/-- The same error `n` lines further down. -/
def Error.later (n : Nat) : Error → Error
  | .malformed line fault => .malformed (line + n) fault
  | e => e

namespace Reader

/-- The same declaration `n` lines further down. -/
def Pending.later (n : Nat) (d : Pending) : Pending := { d with line := d.line + n }

/-- The same state `n` lines further down. -/
def State.later (n : Nat) : State → State
  | .seeking depth => .seeking depth
  | .label keyword spelling line => .label keyword spelling (line + n)
  | .heading d implementing => .heading (d.later n) implementing
  | .fields d entry => .fields (d.later n) entry
  | .members d => .members (d.later n)
  | .alternatives d expecting => .alternatives (d.later n) expecting

/-- The same step `n` lines further down. -/
def Step.later (n : Nat) : Step → Step
  | .next state finished => .next (state.later n) (finished.map (Definition.later n))
  | .again d => .again (d.later n)

/-- What comes of a step `n` lines further down. -/
def resultLater (n : Nat) (r : Except Error Step) : Except Error Step :=
  (r.map (Step.later n)).mapError (Error.later n)

theorem head_later (n : Nat) (d : Pending) (implementing : Bool) (line : Nat) (l : Lexeme) :
    head (d.later n) implementing (line + n) l = resultLater n (head d implementing line l) := by
  obtain ⟨keyword, spelling, label, entries, start⟩ := d
  cases keyword with
  | union | enum | input =>
    cases l with
    | name name => rfl
    | mark m => cases m <;> rfl
  | type | interface =>
    cases l with
    | name name =>
      simp only [head, Pending.later]
      split
      · split <;> rfl
      · split <;> rfl
    | mark m =>
      cases m with
      | ampersand =>
        simp only [head, Pending.later]
        split <;> rfl
      | _ => rfl

theorem block_later (n : Nat) (d : Pending) (e : Entry) (line : Nat) (l : Lexeme) :
    block (d.later n) e (line + n) l = resultLater n (block d e line l) := by
  unfold block
  split
  · split
    · rfl
    · split <;> rfl
  · cases e.read? l with
    | none => rfl
    | some step => cases step <;> rfl

theorem member_later (n : Nat) (d : Pending) (line : Nat) (l : Lexeme) :
    member (d.later n) (line + n) l = resultLater n (member d line l) := by
  cases l with
  | name name => rfl
  | mark m => cases m <;> rfl

theorem alternative_later (n : Nat) (d : Pending) (expecting : Bool) (line : Nat) (l : Lexeme) :
    alternative (d.later n) expecting (line + n) l =
      resultLater n (alternative d expecting line l) := by
  cases expecting with
  | true =>
    cases l with
    | name name => rfl
    | mark m =>
      cases m with
      | bar =>
        by_cases blank : d.entries = []
        · have still : (d.later n).entries = [] := blank
          simp only [alternative, blank, still, if_true]
          rfl
        · have still : (d.later n).entries ≠ [] := blank
          simp only [alternative, blank, still, if_false]
          rfl
      | _ => rfl
  | false =>
    cases l with
    | name name =>
      simp only [alternative, Pending.later]
      split <;> rfl
    | mark m => cases m <;> rfl

theorem seek_later (n depth line : Nat) (l : Lexeme) :
    seek depth (line + n) l = (seek depth line l).later n := by
  cases l with
  | name name =>
    cases depth with
    | zero => cases h : Keyword.ofName? name <;> simp [seek, h, State.later]
    | succ depth => rfl
  | mark m => cases m <;> rfl

/-- **The machine does the same on later lines**, in every state and for every lexeme. -/
theorem step_later (n : Nat) (s : State) (p : Placed) :
    (s.later n).step (p.later n) = resultLater n (s.step p) := by
  cases s with
  | seeking depth =>
    have sought := seek_later n depth p.line p.lexeme
    exact congrArg proceed sought
  | label keyword spelling line =>
    obtain ⟨l, labelLine⟩ := p
    cases l <;> rfl
  | heading d implementing => exact head_later n d implementing p.line p.lexeme
  | fields d e => exact block_later n d e p.line p.lexeme
  | members d => exact member_later n d p.line p.lexeme
  | alternatives d expecting => exact alternative_later n d expecting p.line p.lexeme

theorem turn_later {n : Nat} {s s' : State} {p : Placed} {ds : List Definition}
    (h : s.turn p = .ok (ds, s')) :
    (s.later n).turn (p.later n) = .ok (ds.map (Definition.later n), s'.later n) := by
  rcases turn_eq_ok.mp h with ⟨finished, step, rfl⟩ | ⟨d, step, rfl, rfl⟩
  · refine turn_eq_ok.mpr (Or.inl ⟨finished.map (Definition.later n), ?_, ?_⟩)
    · rw [step_later, step]
      rfl
    · cases finished <;> rfl
  · refine turn_eq_ok.mpr (Or.inr ⟨d.later n, ?_, rfl, (seek_later n 0 p.line p.lexeme).symm⟩)
    rw [step_later, step]
    rfl

theorem trace_later {n : Nat} {s s' : State} {ps : List Placed} {ds : List Definition}
    (h : trace s ps = .ok (ds, s')) :
    trace (s.later n) (ps.map (Placed.later n)) =
      .ok (ds.map (Definition.later n), s'.later n) := by
  induction ps generalizing s ds with
  | nil =>
    obtain ⟨rfl, rfl⟩ := Prod.mk.inj (Except.ok.inj h)
    rfl
  | cons p ps ih =>
    obtain ⟨first, next, others, turn, rest, rfl⟩ := trace_cons_eq_ok.mp h
    exact trace_cons_eq_ok.mpr
      ⟨_, next.later n, _, turn_later turn, ih rest, by rw [List.map_append]⟩

/-- A run that succeeds does so on later lines. -/
theorem run_later {n : Nat} {ps : List Placed} {ds : List Definition}
    (h : run (.seeking 0) ps = .ok ds) :
    run (.seeking 0) (ps.map (Placed.later n)) = .ok (ds.map (Definition.later n)) := by
  obtain ⟨read, s, last, traced, closed, rfl⟩ := exists_trace_of_run h
  have traced : trace (.seeking 0) (ps.map (Placed.later n)) =
      .ok (read.map (Definition.later n), s.later n) := trace_later traced
  have closed : (s.later n).close = .ok (last.map (Definition.later n)) := by
    rcases State.close_eq_ok.mp closed with ⟨depth, rfl, rfl⟩ | ⟨d, rfl, rfl⟩
    · rfl
    · rfl
  have ended := run_append traced []
  rw [List.append_nil, run_nil, closed] at ended
  rw [ended, List.map_append]
  rfl

/-! ## Where a construct may begin -/

/-- A state in which a construct may begin: between declarations outside all braces, or in a
complete union. -/
def State.isSettled : State → Bool
  | .seeking 0 | .alternatives _ false => true
  | _ => false

end Reader

/-- Whether a lexeme begins a construct, one that declares a type or one that is skipped. -/
def Lexeme.beginsConstruct : Lexeme → Bool
  | .name text => isDeclarationKeyword text || isSkippedKeyword text
  | .mark _ => false

namespace Reader

/-- Where a construct may begin, a run does what it does at the beginning, once the end of a union
is accounted for. -/
theorem run_settled {s : State} (settled : s.isSettled = true) {ps : List Placed}
    (begins : ∀ p ∈ ps.head?, p.lexeme.beginsConstruct = true) {last : List Definition}
    (closed : s.close = .ok last) : run s ps = (run (.seeking 0) ps).map (last ++ ·) := by
  rcases State.close_eq_ok.mp closed with ⟨depth, rfl, rfl⟩ | ⟨d, rfl, rfl⟩
  · cases depth with
    | zero => cases run (.seeking 0) ps <;> simp [Except.map]
    | succ depth => exact absurd settled (by simp [State.isSettled])
  · cases ps with
    | nil => simp [run_nil, State.close, Except.map]
    | cons p ps =>
      obtain ⟨l, line⟩ := p
      have begins : l.beginsConstruct = true := begins _ rfl
      cases l with
      | mark m => exact absurd begins (by simp [Lexeme.beginsConstruct])
      | name text =>
        have ends : (State.alternatives d false).step ⟨.name text, line⟩ =
            .ok (.again d.finish) := by
          simp only [Lexeme.beginsConstruct] at begins
          simp [State.step, alternative, begins]
        exact run_cons_again ends ps

end Reader

/-! ## The lexemes of a text on two parts -/

namespace Text

variable {p : Char → Bool} {c : Char}

theorem takeWhile_append_cons (hc : p c = false) (text rest : List Char) :
    (text ++ c :: rest).takeWhile p = text.takeWhile p := by
  induction text with
  | nil => simp [hc]
  | cons d text ih => cases hd : p d <;> simp [hd, ih]

theorem dropWhile_append_cons (hc : p c = false) (text rest : List Char) :
    (text ++ c :: rest).dropWhile p = text.dropWhile p ++ c :: rest := by
  induction text with
  | nil => simp [hc]
  | cons d text ih => cases hd : p d <;> simp [hd, ih]

theorem count_dropWhile (hc : p c = false) (text : List Char) :
    (text.dropWhile p).count c = text.count c := by
  induction text with
  | nil => rfl
  | cons d text ih =>
    cases hd : p d with
    | false => rw [List.dropWhile_cons_of_neg (by simp [hd])]
    | true =>
      have other : d ≠ c := by
        rintro rfl
        exact absurd (hc.symm.trans hd) Bool.false_ne_true
      rw [List.dropWhile_cons_of_pos hd, ih, List.count_cons_of_ne other]

end Text

namespace Source

/-- The lexemes before a line end are not touched by what follows it. -/
theorem lexFrom_append {line : Nat} {text : List Char} {ps : List Placed}
    (h : lexFrom line text = .ok ps) (rest : List Char) :
    lexFrom line (text ++ '\n' :: rest) =
      (lexFrom (line + (text.count '\n' + 1)) rest).map (ps ++ ·) := by
  have joined : ∀ (p : Placed) (ps : List Placed) (r : Except Error (List Placed)),
      (r.map (ps ++ ·)).map (p :: ·) = r.map (p :: ps ++ ·) := by
    intro p ps r
    cases r <;> rfl
  fun_induction lexFrom line text generalizing ps with
  | case1 line =>
    obtain rfl : [] = ps := Except.ok.inj h
    rw [List.nil_append, lexFrom, if_pos rfl, List.count_nil, Nat.zero_add]
    cases lexFrom (line + 1) rest <;> simp [Except.map]
  | case2 line text ih =>
    rw [List.cons_append, lexFrom, if_pos rfl, ih h, List.count_cons_self]
    congr 2
    omega
  | case3 line c text other trivia ih =>
    rw [List.cons_append, lexFrom, if_neg other, if_pos trivia, ih h, List.count_cons_of_ne other]
  | case4 line c text other notTrivia start name =>
    rename_i ih
    obtain ⟨qs, read, rfl⟩ := Success.map_eq_ok.mp h
    have stops : isNameChar '\n' = false := by decide
    rw [List.cons_append, lexFrom, if_neg other, if_neg notTrivia, if_pos start,
      takeWhile_append_cons stops, dropWhile_append_cons stops, ih read, count_dropWhile stops,
      List.count_cons_of_ne other, joined]
  | case5 line c text other notTrivia notStart m mark ih =>
    obtain ⟨qs, read, rfl⟩ := Success.map_eq_ok.mp h
    rw [List.cons_append, lexFrom, if_neg other, if_neg notTrivia, if_neg notStart, mark]
    simp only [ih read, joined, List.count_cons_of_ne other]
  | case6 line c text _ _ _ _ => exact absurd h (by simp)

/-- The same text further down has the same lexemes further down. -/
theorem lexFrom_later {line : Nat} {text : List Char} {ps : List Placed}
    (h : lexFrom line text = .ok ps) (n : Nat) :
    lexFrom (line + n) text = .ok (ps.map (Placed.later n)) := by
  fun_induction lexFrom line text generalizing ps with
  | case1 line =>
    obtain rfl : [] = ps := Except.ok.inj h
    exact lexFrom_nil _
  | case2 line text ih => rw [lexFrom, if_pos rfl, Nat.add_right_comm, ih h]
  | case3 line c text other trivia ih => rw [lexFrom, if_neg other, if_pos trivia, ih h]
  | case4 line c text other notTrivia start name =>
    rename_i ih
    obtain ⟨qs, read, rfl⟩ := Success.map_eq_ok.mp h
    rw [lexFrom, if_neg other, if_neg notTrivia, if_pos start, ih read]
    rfl
  | case5 line c text other notTrivia notStart m mark ih =>
    obtain ⟨qs, read, rfl⟩ := Success.map_eq_ok.mp h
    rw [lexFrom, if_neg other, if_neg notTrivia, if_neg notStart, mark]
    simp only [ih read]
    rfl
  | case6 line c text _ _ _ _ => exact absurd h (by simp)

/-- The number of line ends of a source. -/
def lineEnds (source : String) : Nat := source.toList.count '\n'

theorem count_stripMarkers (source : String) :
    (stripMarkers source).toList.count '\n' = lineEnds source := by
  rw [stripMarkers, String.toList_ofList, List.count_filter (by decide), lineEnds]

/-- The lexemes of two sources put together. -/
theorem lex_append {first second : String} {ps qs : List Placed}
    (h : lex (stripMarkers first) = .ok ps) (h' : lex (stripMarkers second) = .ok qs) :
    lex (stripMarkers (first ++ "\n" ++ second)) =
      .ok (ps ++ qs.map (Placed.later (lineEnds first + 1))) := by
  have text : (stripMarkers (first ++ "\n" ++ second)).toList =
      (stripMarkers first).toList ++ '\n' :: (stripMarkers second).toList := by
    have kept : ('\n' != marker) = true := by decide
    simp [stripMarkers, kept]
  rw [lex, text, lexFrom_append h, count_stripMarkers, lexFrom_later h']
  rfl

/-- Definitions are sorted one by one, and by their labels alone. -/
theorem ofDefinitions_append_later (ds ds' : List Definition) (n : Nat) :
    Document.ofDefinitions (ds ++ ds'.map (Definition.later n)) =
      { roots := (Document.ofDefinitions ds).roots ++
          (Document.ofDefinitions ds').roots.map (Definition.later n)
        types := (Document.ofDefinitions ds).types ++
          (Document.ofDefinitions ds').types.map (Definition.later n) } := by
  have kept : ∀ d : Definition, (d.later n).rootKind? = d.rootKind? := fun _ => rfl
  simp [Document.ofDefinitions, List.filter_map, Function.comp_def, kept]

/-- **Sources can be written one after the other.** If the first ends where a construct may begin
and the second is empty or begins with one, then the definitions of both together are those of the
first followed by those of the second on later lines, and so are the root operations and the named
types of the document. -/
theorem definitions_append {first second : String} {ds ds' : List Definition} {s : Reader.State}
    (h : definitions first = .ok ds) (h' : definitions second = .ok ds')
    (ends : endState first = .ok s) (settled : s.isSettled = true)
    (begins : ∀ qs, lex (stripMarkers second) = .ok qs →
      ∀ p ∈ qs.head?, p.lexeme.beginsConstruct = true) :
    definitions (first ++ "\n" ++ second) =
        .ok (ds ++ ds'.map (Definition.later (lineEnds first + 1))) ∧
      ∃ doc doc', Document.ofSource first = .ok doc ∧ Document.ofSource second = .ok doc' ∧
        Document.ofSource (first ++ "\n" ++ second) =
          .ok { roots := doc.roots ++ doc'.roots.map (Definition.later (lineEnds first + 1))
                types := doc.types ++ doc'.types.map (Definition.later (lineEnds first + 1)) } := by
  obtain ⟨ps, read, s', last, lexed, traced, ends', closed, rfl⟩ := exists_trace_of_definitions h
  obtain rfl := Except.ok.inj (ends.symm.trans ends')
  obtain ⟨qs, lexed', run'⟩ := Success.bind_eq_ok.mp h'
  have begins : ∀ p ∈ (qs.map (Placed.later (lineEnds first + 1))).head?,
      p.lexeme.beginsConstruct = true := by
    rw [List.head?_map]
    rintro p hp
    obtain ⟨q, hq, rfl⟩ := Option.map_eq_some_iff.mp hp
    exact begins qs lexed' q hq
  have defined : definitions (first ++ "\n" ++ second) =
      .ok (read ++ last ++ ds'.map (Definition.later (lineEnds first + 1))) := by
    rw [definitions, lex_append lexed lexed', List.append_assoc]
    have whole := Reader.run_append traced (qs.map (Placed.later (lineEnds first + 1)))
    rw [Reader.run_settled settled begins closed, Reader.run_later run'] at whole
    exact whole
  refine ⟨defined, _, _, Success.map_eq_ok.mpr ⟨_, h, rfl⟩, Success.map_eq_ok.mpr ⟨_, h', rfl⟩, ?_⟩
  rw [Document.ofSource, defined]
  exact congrArg Except.ok (ofDefinitions_append_later _ _ _)

/-! ### A union, and a type after it -/

/-- A source that ends in a union. -/
def unionSource : String := "type A\x7bx:Int\x7d\nunion U=A"

/-- A source that begins with a skipped construct and declares a root operation. -/
def skipSource : String := "scalar D\nTYPE query\x7bu:U\x7d"

/-- The lexemes of `unionSource`. -/
def unionLexemes : List Placed :=
  onLine 1 [.name "type", .name "A", .mark .openBrace, .name "x", .mark .colon, .name "Int",
    .mark .closeBrace] ++
  onLine 2 [.name "union", .name "U", .mark .equals, .name "A"]

/-- The lexemes of `skipSource`. -/
def skipLexemes : List Placed :=
  onLine 1 [.name "scalar", .name "D"] ++
  onLine 2 [.name "TYPE", .name "query", .mark .openBrace, .name "u", .mark .colon, .name "U",
    .mark .closeBrace]

theorem endState_unionSource :
    endState unionSource = .ok (.alternatives ⟨.union, "union", "U", ["A"], 2⟩ false) := by
  have lexed : lex (stripMarkers unionSource) = .ok unionLexemes := lex_of_isSpaced (by decide)
  rw [endState, lexed]
  rfl

theorem definitions_append_unionSource :
    definitions unionSource = .ok [⟨"type", "A", ["x:Int"], 1⟩, ⟨"union", "U", ["A"], 2⟩] ∧
      definitions skipSource = .ok [⟨"TYPE", "query", ["u:U"], 2⟩] ∧
      definitions (unionSource ++ "\n" ++ skipSource) = .ok [⟨"type", "A", ["x:Int"], 1⟩,
        ⟨"union", "U", ["A"], 2⟩, ⟨"TYPE", "query", ["u:U"], 4⟩] := by
  have first : definitions unionSource =
      .ok [⟨"type", "A", ["x:Int"], 1⟩, ⟨"union", "U", ["A"], 2⟩] :=
    definitions_of_sweep unionLexemes (by decide) (by rfl)
  have second : definitions skipSource = .ok [⟨"TYPE", "query", ["u:U"], 2⟩] :=
    definitions_of_sweep skipLexemes (by decide) (by rfl)
  have lexed : lex (stripMarkers skipSource) = .ok skipLexemes := lex_of_isSpaced (by decide)
  have begins : ∀ qs, lex (stripMarkers skipSource) = .ok qs →
      ∀ p ∈ qs.head?, p.lexeme.beginsConstruct = true := by
    intro qs read p hp
    obtain rfl := Except.ok.inj (lexed.symm.trans read)
    obtain rfl := Option.some.inj hp
    decide
  have ends : lineEnds unionSource = 1 := by decide
  have whole := (definitions_append first second endState_unionSource rfl begins).1
  rw [ends] at whole
  exact ⟨first, second, whole⟩

end Source

end SchemaTypegen
