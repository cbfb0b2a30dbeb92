import SchemaTypegen.Proofs.Grammar.Layout

/-!
# How a field becomes an entry

The entry machine on the lexemes of one field. `Continues e ls e'` says that every lexeme of `ls`
goes on with the entry and that `e'` is what comes of it; the lemmas follow the tree. A type moves
the cursor of the side being read from `reading depth` to what a single name would make of it,
whatever its nesting. Arguments end up with one comma between them, wherever the layout has commas:
`continues_arguments` carries two invariants at once, one for the state after an argument and one
for the state after a comma or the opening parenthesis.

`continues_field` is the result: whatever the layout of a field, its entry holds `normal f`, and
`joinedText_normal` gives the text of that.
-/

namespace SchemaTypegen.Entry

open Grammar

/-! ## Entries and cursors -/

/-- The entry with more lexemes. -/
def append (e : Entry) (ls : List Lexeme) : Entry := { e with written := e.written ++ ls }

@[simp] theorem append_nil (e : Entry) : e.append [] = e := by
  unfold append
  rw [List.append_nil]

@[simp] theorem append_append (e : Entry) (ls ls' : List Lexeme) :
    (e.append ls).append ls' = e.append (ls ++ ls') := by
  unfold append
  rw [List.append_assoc]

@[simp] theorem cursor_append (e : Entry) (ls : List Lexeme) : (e.append ls).cursor = e.cursor :=
  rfl

@[simp] theorem push_eq_append (e : Entry) (l : Lexeme) : e.push l = e.append [l] := rfl

@[simp] theorem cursor_setCursor (e : Entry) (c : Cursor) : (e.setCursor c).cursor = c := by
  unfold setCursor cursor
  cases e.argument <;> rfl

@[simp] theorem setCursor_setCursor (e : Entry) (c c' : Cursor) :
    (e.setCursor c).setCursor c' = e.setCursor c' := by
  unfold setCursor
  cases e.argument <;> rfl

@[simp] theorem setCursor_append (e : Entry) (ls : List Lexeme) (c : Cursor) :
    (e.append ls).setCursor c = (e.setCursor c).append ls := by
  unfold setCursor append
  cases e.argument <;> rfl

theorem setCursor_eq_self {e : Entry} {c : Cursor} (h : e.cursor = c) : e.setCursor c = e := by
  obtain ⟨written, field, argument⟩ := e
  cases argument <;> cases h <;> rfl

theorem endsIn_append (e : Entry) (ls : List Lexeme) (l : Lexeme) (marks : List Mark) :
    (e.append (ls ++ [l])).endsIn marks = match l with
      | .mark m => marks.contains m
      | .name _ => false := by
  unfold endsIn append
  rw [← List.append_assoc, List.getLast?_append, List.getLast?_singleton]
  cases l <;> rfl

/-- Lexemes that all go on with the entry. -/
inductive Continues : Entry → List Lexeme → Entry → Prop where
  | nil {e : Entry} : Continues e [] e
  | cons {e e' e'' : Entry} {l : Lexeme} {ls : List Lexeme} (read : e.read? l = some (.same e'))
      (rest : Continues e' ls e'') : Continues e (l :: ls) e''

theorem Continues.single {e e' : Entry} {l : Lexeme} (read : e.read? l = some (.same e')) :
    Continues e [l] e' :=
  .cons read .nil

theorem Continues.trans {e e' e'' : Entry} {ls ls' : List Lexeme} (h : Continues e ls e')
    (h' : Continues e' ls' e'') : Continues e (ls ++ ls') e'' := by
  induction h with
  | nil => exact h'
  | cons read _ ih => exact .cons read (ih h')

/-! ## Types -/

theorem read?_name_of_reading {e : Entry} {depth : Nat} (h : e.cursor = .reading depth)
    (name : String) :
    e.read? (.name name) =
      some (.same ((e.setCursor (Cursor.reading depth).name).append [.name name])) := by
  obtain ⟨written, field, argument⟩ := e
  cases argument <;> cases h <;> rfl

theorem read?_colon {e : Entry} (idle : e.cursor = .idle) (named : e.atArgument = false)
    (begun : e.written ≠ []) :
    e.read? (.mark .colon) = some (.same ((e.setCursor (.reading 0)).append [.mark .colon])) := by
  have hnamed : (if e.argument.isSome then !e.atArgument else !e.written.isEmpty) = true := by
    cases e.argument <;> simp [named, begun]
  simp only [read?, readMark?, readColon?, idle, hnamed, and_self, if_true, push_eq_append]

theorem closeList?_reading_succ (depth : Nat) :
    (Cursor.reading (depth + 1)).closeList? = some (Cursor.reading depth).name := by
  cases depth <;> rfl

/-- A `!` may follow a name and a closing bracket. -/
theorem continues_bang {e : Entry} (busy : e.cursor ≠ .idle) (ls : List Lexeme) {l : Lexeme}
    (hl : (∃ name, l = .name name) ∨ l = .mark .closeBracket) (required : Bool) :
    Continues (e.append (ls ++ [l])) (bangLexemes required)
      (e.append (ls ++ l :: bangLexemes required)) := by
  have fits : (e.append (ls ++ [l])).endsIn [.bang, .openBracket, .colon] = false := by
    rw [endsIn_append]
    rcases hl with ⟨name, rfl⟩ | rfl <;> rfl
  cases required with
  | false => exact .nil
  | true =>
    refine .single ?_
    simp [read?, readMark?, busy, fits, bangLexemes]

/-- A type moves the cursor as a single name would. -/
theorem continues_type (t : TypeExpr) {e : Entry} {depth : Nat} (h : e.cursor = .reading depth) :
    Continues e t.lexemes ((e.setCursor (Cursor.reading depth).name).append t.lexemes) := by
  have busy : (Cursor.reading depth).name ≠ .idle := by cases depth <;> exact Cursor.noConfusion
  induction t generalizing e depth with
  | named name required =>
    refine .cons (read?_name_of_reading h name.text) ?_
    exact continues_bang (by simpa using busy) [] (Or.inl ⟨name.text, rfl⟩) required
  | list element required ih =>
    have opened : e.read? (.mark .openBracket) =
        some (.same ((e.setCursor (.reading (depth + 1))).append [.mark .openBracket])) := by
      simp [read?, readMark?, h, Cursor.openList?]
    have deeper : ((e.setCursor (.reading (depth + 1))).append [.mark .openBracket]).cursor =
        .reading (depth + 1) := by simp
    have inner := ih deeper Cursor.noConfusion
    refine .cons opened (inner.trans ?_)
    -- Inside brackets a name leaves the cursor where it is: the closing one finds `depth + 1`.
    have closed : ((e.setCursor (.reading (depth + 1))).append
        (.mark .openBracket :: element.lexemes)).read? (.mark .closeBracket) =
        some (.same ((e.setCursor (Cursor.reading depth).name).append
          (.mark .openBracket :: element.lexemes ++ [.mark .closeBracket]))) := by
      simp [read?, readMark?, closeList?_reading_succ]
    simp only [setCursor_append, setCursor_setCursor, append_append, Cursor.name,
      List.singleton_append]
    refine .cons closed ?_
    exact continues_bang (by simpa using busy) (.mark .openBracket :: element.lexemes) (Or.inr rfl)
      required

/-- A colon and a type complete the side being read. -/
theorem continues_colon_type (t : TypeExpr) {e : Entry} (idle : e.cursor = .idle)
    (named : e.atArgument = false) (begun : e.written ≠ []) :
    Continues e (.mark .colon :: t.lexemes)
      ((e.setCursor .complete).append (.mark .colon :: t.lexemes)) := by
  refine .cons (read?_colon idle named begun) ?_
  have reading : ((e.setCursor (.reading 0)).append [.mark .colon]).cursor = .reading 0 := by simp
  have typed := continues_type t reading
  simpa [Cursor.name] using typed

/-! ## Arguments -/

/-- The lexemes of arguments with one comma between each two. -/
def argumentLexemes : List ArgumentDecl → List Lexeme
  | [] => []
  | a :: arguments => a.lexemes ++ arguments.flatMap fun b => .mark .comma :: b.lexemes

theorem atArgument_append_name (e : Entry) (ls : List Lexeme) (name : String) :
    (e.append (ls ++ [.name name])).atArgument = false :=
  endsIn_append e ls _ _

/-- After the opening parenthesis or a comma, an argument is written as it stands. -/
theorem continues_first_argument (a : ArgumentDecl) {e : Entry} (idle : e.argument = some .idle)
    (begins : e.atArgument = true) :
    Continues e a.lexemes ((e.setCursor .complete).append a.lexemes) := by
  have hc : e.cursor = .idle := by simp [cursor, idle]
  have named : e.read? (.name a.name.text) = some (.same (e.append [.name a.name.text])) := by
    simp [read?, readName?, idle, begins]
  have typed := continues_colon_type a.type (e := e.append [.name a.name.text])
    hc (atArgument_append_name e [] _) (by simp [append])
  refine .cons named ?_
  simpa [ArgumentDecl.lexemes] using typed

/-- After an argument, the next one is written with a comma before it. -/
theorem continues_next_argument (a : ArgumentDecl) {e : Entry}
    (complete : e.argument = some .complete) :
    Continues e a.lexemes (e.append (.mark .comma :: a.lexemes)) := by
  have hc : e.cursor = .complete := by simp [cursor, complete]
  have named : e.read? (.name a.name.text) =
      some (.same ((e.setCursor .idle).append [.mark .comma, .name a.name.text])) := by
    simp [read?, readName?, setCursor, complete, append]
  have typed := continues_colon_type a.type
    (e := (e.setCursor .idle).append [.mark .comma, .name a.name.text])
    (by simp) (atArgument_append_name _ [.mark .comma] _) (by simp [append])
  refine .cons named ?_
  simpa [ArgumentDecl.lexemes, setCursor_eq_self hc] using typed

/-- Commas before any argument leave no trace. -/
theorem continues_commas {laid : ArgumentDecl → List Lexeme → Prop} {trailing : Bool} {e : Entry}
    (idle : e.argument = some .idle) {arguments : List ArgumentDecl} {ls : List Lexeme}
    (h : Sprinkled laid trailing arguments ls) (none : arguments = []) : Continues e ls e := by
  induction h with
  | nil => exact .nil
  | comma _ _ ih => exact .cons (by simp [read?, readMark?, readComma?, idle]) (ih none)
  | item _ _ _ => exact absurd none (List.cons_ne_nil _ _)

/-- Arguments after at least one other, or before any. A comma takes the machine from the first case
to the second and an argument takes it back, so the two are proved together. -/
theorem continues_arguments {arguments : List ArgumentDecl} {ls : List Lexeme}
    (h : Sprinkled (fun a ls => ls = a.lexemes) false arguments ls) :
    (∀ e : Entry, e.argument = some .complete →
      Continues e ls (e.append (arguments.flatMap fun a => .mark .comma :: a.lexemes))) ∧
    (∀ e : Entry, e.argument = some .idle → e.atArgument = true → arguments ≠ [] →
      Continues e ls ((e.setCursor .complete).append (argumentLexemes arguments))) := by
  induction h with
  | nil =>
    refine ⟨fun e _ => ?_, fun e _ _ hne => absurd rfl hne⟩
    rw [List.flatMap_nil, append_nil]
    exact .nil
  | @comma arguments ls more _ ih =>
    have more : arguments ≠ [] := more.resolve_right Bool.false_ne_true
    constructor
    · intro e complete
      have hc : e.cursor = .complete := by simp [cursor, complete]
      have passed : e.read? (.mark .comma) =
          some (.same ((e.setCursor .idle).append [.mark .comma])) := by
        simp [read?, readMark?, readComma?, setCursor, complete, append]
      have rest := ih.2 ((e.setCursor .idle).append [.mark .comma])
        (by simp [append, setCursor, complete]) (endsIn_append _ [] _ _) more
      refine .cons passed ?_
      obtain ⟨a, arguments, rfl⟩ := List.exists_cons_of_ne_nil more
      simpa [argumentLexemes, setCursor_eq_self hc] using rest
    · intro e idle begins _
      exact .cons (by simp [read?, readMark?, readComma?, idle]) (ih.2 e idle begins more)
  | @item a arguments ls ls' first _ ih =>
    subst first
    constructor
    · intro e complete
      have next := continues_next_argument a complete
      have rest := ih.1 (e.append (.mark .comma :: a.lexemes)) complete
      simpa using next.trans rest
    · intro e idle begins _
      have next := continues_first_argument a idle begins
      have rest := ih.1 ((e.setCursor .complete).append a.lexemes)
        (by simp [append, setCursor, idle])
      simpa [argumentLexemes] using next.trans rest

/-! ## Fields -/

/-- The lexemes of a field's parentheses in normal form. -/
def parenLexemes : Option (List ArgumentDecl) → List Lexeme
  | none => []
  | some arguments => .mark .openParen :: argumentLexemes arguments ++ [.mark .closeParen]

/-- The lexemes of a field in normal form. -/
def normal (f : FieldDecl) : List Lexeme :=
  .name f.name.text :: parenLexemes f.arguments ++ .mark .colon :: f.type.lexemes

theorem continues_parens {arguments : Option (List ArgumentDecl)} {ls : List Lexeme}
    (h : ArgumentsLaid arguments ls) (name : String) :
    Continues { written := [.name name] } ls
      { written := .name name :: parenLexemes arguments } := by
  cases h with
  | none => exact .nil
  | @some arguments ls list =>
    let e : Entry := { written := [.name name, .mark .openParen], argument := some .idle }
    have opened : ({ written := [.name name] } : Entry).read? (.mark .openParen) = some (.same e) :=
      rfl
    refine .cons opened ?_
    cases arguments with
    | nil => exact (continues_commas rfl list rfl).trans (.single rfl)
    | cons a arguments =>
      have inner := (continues_arguments list).2 e rfl rfl (List.cons_ne_nil a arguments)
      refine inner.trans (.single ?_)
      simp [e, read?, readMark?, append, setCursor, parenLexemes]

/-- **Whatever the layout of a field, its entry holds the normal form.** -/
theorem continues_field {f : FieldDecl} {ls : List Lexeme} (h : ArgumentsLaid f.arguments ls) :
    Continues { written := [.name f.name.text] } (ls ++ .mark .colon :: f.type.lexemes)
      { written := normal f, field := .complete } := by
  refine (continues_parens h f.name.text).trans ?_
  have named : ({ written := .name f.name.text :: parenLexemes f.arguments } : Entry).atArgument =
      false := by
    cases f.arguments with
    | none => rfl
    | some arguments =>
      exact endsIn_append {}
        (.name f.name.text :: .mark .openParen :: argumentLexemes arguments) _ _
  exact continues_colon_type f.type rfl named (List.cons_ne_nil _ _)

/-! ## The text of an entry -/

/-- The text of lexemes with nothing between them. -/
def joinedText (ls : List Lexeme) : String := String.join (ls.map Lexeme.text)

theorem joinedText_cons (l : Lexeme) (ls : List Lexeme) :
    joinedText (l :: ls) = l.text ++ joinedText ls :=
  String.join_cons

theorem joinedText_append (ls ls' : List Lexeme) :
    joinedText (ls ++ ls') = joinedText ls ++ joinedText ls' := by
  induction ls with
  | nil => exact (String.empty_append).symm
  | cons l ls ih => rw [List.cons_append, joinedText_cons, joinedText_cons, ih, String.append_assoc]

theorem joinedText_bang (required : Bool) : joinedText (bangLexemes required) = bang required := by
  cases required <;> decide

theorem joinedText_type (t : TypeExpr) : joinedText t.lexemes = t.text := by
  induction t with
  | named name required =>
    rw [TypeExpr.lexemes, joinedText_cons, joinedText_bang]
    rfl
  | list element required ih =>
    rw [TypeExpr.lexemes, List.cons_append, joinedText_cons, joinedText_append, joinedText_cons, ih,
      joinedText_bang, TypeExpr.text, String.append_assoc, String.append_assoc]
    rfl

theorem joinedText_argument (a : ArgumentDecl) : joinedText a.lexemes = a.text := by
  rw [ArgumentDecl.lexemes, joinedText_cons, joinedText_cons, joinedText_type, ArgumentDecl.text,
    String.append_assoc]
  rfl

theorem joinedText_arguments (arguments : List ArgumentDecl) :
    joinedText (argumentLexemes arguments) = ",".intercalate (arguments.map ArgumentDecl.text) := by
  cases arguments with
  | nil => rfl
  | cons a arguments =>
    rw [argumentLexemes, joinedText_append, joinedText_argument, List.map_cons]
    induction arguments generalizing a with
    | nil => exact String.append_empty
    | cons b arguments ih =>
      rw [List.flatMap_cons, List.cons_append, joinedText_cons, joinedText_append,
        joinedText_argument, List.map_cons, String.intercalate_cons_cons, ← ih b,
        String.append_assoc]
      rfl

theorem joinedText_normal (f : FieldDecl) : joinedText (normal f) = f.text := by
  have parens : joinedText (parenLexemes f.arguments) = f.argumentsText := by
    unfold FieldDecl.argumentsText
    cases f.arguments with
    | none => rfl
    | some arguments =>
      rw [parenLexemes, List.cons_append, joinedText_cons, joinedText_append, joinedText_arguments,
        ← String.append_assoc]
      rfl
  rw [normal, List.cons_append, joinedText_cons, joinedText_append, joinedText_cons, parens,
    joinedText_type, FieldDecl.text, String.append_assoc, String.append_assoc]
  rfl

end SchemaTypegen.Entry
