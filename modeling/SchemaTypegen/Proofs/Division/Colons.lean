import SchemaTypegen.Proofs.Division.Names

/-!
# Where the colons of an entry stand

A colon stands after the name of a field, after the name of an argument, or after the parenthesis
that closes the arguments, and nowhere else; and no entry ends in one. `Entry.Colons` is the
invariant behind that, kept by every move.

* **`Collects.colons`**: the colons among the lexemes of an entry.
* `exists_split_of_colon`: a colon in the text of an entry is one of them.
* **`labelled_of_colon`**: so it has a label before it in the text of every entry of a block.
-/

namespace SchemaTypegen

open Text Grammar

/-! ## Lexemes before a colon -/

/-- What may stand before a colon. -/
inductive TakesColon : List Lexeme → Prop where
  /-- The name of a field. -/
  | field (name : String) : TakesColon [.name name]
  /-- The name of an argument. -/
  | argument {m : Mark} (ls : List Lexeme) (begins : m = .openParen ∨ m = .comma) (name : String) :
      TakesColon (ls ++ [.mark m, .name name])
  /-- A list of arguments. -/
  | arguments (ls : List Lexeme) : TakesColon (ls ++ [.mark .closeParen])

/-- Every colon has a label before it. -/
def ColonsLabelled (ls : List Lexeme) : Prop :=
  ∀ before after, ls = before ++ .mark .colon :: after → TakesColon before

theorem colonsLabelled_append {ls ls' : List Lexeme} (h : ColonsLabelled ls)
    (plain : Lexeme.mark .colon ∉ ls') : ColonsLabelled (ls ++ ls') := by
  intro before after split
  rcases List.append_eq_append_iff.mp split with ⟨more, rfl, rest⟩ | ⟨more, rfl, rest⟩
  · exact absurd (rest ▸ List.mem_append_right more List.mem_cons_self) plain
  · cases more with
    | nil => exact absurd (rest ▸ List.mem_cons_self : Lexeme.mark .colon ∈ [] ++ ls') plain
    | cons l more =>
      obtain ⟨rfl, -⟩ := List.cons.inj rest
      exact h before more rfl

theorem colonsLabelled_colon {ls : List Lexeme} (h : ColonsLabelled ls) (labelled : TakesColon ls) :
    ColonsLabelled (ls ++ [.mark .colon]) := by
  intro before after split
  rcases List.eq_nil_or_concat after with rfl | ⟨init, last, rfl⟩
  · exact (List.append_inj_left' split rfl) ▸ labelled
  · have split : ls ++ [.mark .colon] = (before ++ .mark .colon :: init) ++ [last] := by
      simpa using split
    exact h before init (List.append_inj_left' split rfl)

namespace Entry

/-- Where the colons of an open entry stand, and where one may come next. -/
structure Colons (e : Entry) : Prop where
  labelled : ColonsLabelled e.written
  outside : e.argument = none → e.field = .idle → e.written = [] ∨ TakesColon e.written
  inside : e.argument = some .idle → e.atArgument = true ∨ TakesColon e.written
  ends : e.written.getLast? = some (.mark .colon) → ∃ depth, e.cursor = .reading depth

/-- While a type is being read, or when it is complete, no colon can come. -/
theorem Colons.of_busy {e : Entry} (labelled : ColonsLabelled e.written) (busy : e.cursor ≠ .idle)
    (ends : e.written.getLast? = some (.mark .colon) → ∃ depth, e.cursor = .reading depth) :
    Colons e where
  labelled := labelled
  outside := by
    intro outside idle
    exact absurd (by rw [cursor, outside, idle]; rfl) busy
  inside := by
    intro inside
    exact absurd (by rw [cursor, inside]; rfl) busy
  ends := ends

theorem argument_setCursor {e : Entry} {c : Cursor} (h : e.argument = some c) (c' : Cursor) :
    (e.setCursor c').argument = some c' := by
  rw [setCursor, h]

theorem name_ne_idle (depth : Nat) : (Cursor.reading depth).name ≠ .idle := by
  cases depth <;> simp [Cursor.name]

theorem exists_of_atArgument {e : Entry} (h : e.atArgument = true) :
    ∃ ls m, (m = .openParen ∨ m = .comma) ∧ e.written = ls ++ [.mark m] := by
  unfold atArgument endsIn at h
  split at h
  · rename_i m last
    obtain ⟨ls, written⟩ := List.getLast?_eq_some_iff.mp last
    exact ⟨ls, m, by simpa using h, written⟩
  · exact absurd h Bool.false_ne_true

theorem atArgument_append (e : Entry) (ls : List Lexeme) {m : Mark}
    (h : m = .openParen ∨ m = .comma) : (e.append (ls ++ [.mark m])).atArgument = true := by
  rw [atArgument, endsIn_append]
  rcases h with rfl | rfl <;> rfl

/-- **Every move keeps the colons in their places.** -/
theorem Colons.step {e e' : Entry} {l : Lexeme} (h : Colons e) (move : Moves e l (.same e')) :
    Colons e' := by
  have plain : ∀ {ls : List Lexeme}, Lexeme.mark .colon ∉ ls → ColonsLabelled (e.written ++ ls) :=
    fun hls => colonsLabelled_append h.labelled hls
  have silent : ∀ {ls : List Lexeme} {l : Lexeme} {P : Prop}, l ≠ .mark .colon →
      (ls ++ [l]).getLast? = some (.mark .colon) → P := by
    intro ls l P other last
    rw [List.getLast?_concat] at last
    exact absurd (Option.some.inj last) other
  cases move with
  | @fieldName name outside idle blank =>
    refine ⟨plain (by simp), fun _ _ => Or.inr ?_, fun inside => ?_, silent (by simp)⟩
    · rw [written_append, blank]
      exact .field name
    · exact absurd (outside.symm.trans inside) (by simp)
  | @argumentName name idle begins =>
    obtain ⟨ls, m, mark, written⟩ := exists_of_atArgument begins
    refine ⟨plain (by simp), fun outside _ => ?_, fun _ => Or.inr ?_, silent (by simp)⟩
    · exact absurd (outside.symm.trans idle) (by simp)
    · rw [written_append, written, List.append_assoc]
      exact .argument ls mark name
  | @nextArgument name complete =>
    have idle : ((e.setCursor .idle).append [.mark .comma, .name name]).argument = some .idle :=
      argument_setCursor complete .idle
    refine ⟨?_, fun outside _ => ?_, fun _ => Or.inr ?_, ?_⟩
    · rw [written_append, written_setCursor]
      exact plain (by simp)
    · exact absurd (outside.symm.trans idle) (by simp)
    · exact .argument _ (Or.inr rfl) name
    · rw [written_append]
      simp
  | @typeName name depth reading =>
    refine .of_busy ?_ (by simpa using name_ne_idle depth) (silent (by simp))
    rw [written_append, written_setCursor]
    exact plain (by simp)
  | colon idle begun named =>
    have labelled : TakesColon e.written := by
      cases argument : e.argument with
      | none =>
        have resting : e.field = .idle := by rwa [cursor, argument] at idle
        exact (h.outside argument resting).resolve_left (begun argument)
      | some c =>
        have resting : e.argument = some .idle := by
          rw [cursor, argument] at idle
          rw [argument, ← idle]
          rfl
        have after := named (by rw [argument]; simp)
        exact (h.inside resting).resolve_left (by rw [after]; exact Bool.false_ne_true)
    refine .of_busy ?_ (by simp) fun _ => ⟨0, by simp⟩
    rw [written_append, written_setCursor]
    exact colonsLabelled_colon h.labelled labelled
  | argumentComma complete =>
    have idle : ((e.setCursor .idle).append [.mark .comma]).argument = some .idle :=
      argument_setCursor complete .idle
    refine ⟨?_, fun outside _ => ?_, fun _ => Or.inl ?_, silent (by simp)⟩
    · rw [written_append, written_setCursor]
      exact plain (by simp)
    · exact absurd (outside.symm.trans idle) (by simp)
    · exact atArgument_append (e.setCursor .idle) [] (Or.inr rfl)
  | passedComma => exact h
  | @openBracket depth reading =>
    refine .of_busy ?_ (by simp) (silent (by simp))
    rw [written_append, written_setCursor]
    exact plain (by simp)
  | @closeBracket depth reading =>
    refine .of_busy ?_ (by simpa using name_ne_idle depth) (silent (by simp))
    rw [written_append, written_setCursor]
    exact plain (by simp)
  | bang busy fits => exact .of_busy (plain (by simp)) busy (silent (by simp))
  | openParen outside idle begun =>
    refine ⟨plain (by simp), fun outside _ => ?_, fun _ => Or.inl ?_, silent (by simp)⟩
    · exact absurd outside (by simp)
    · exact atArgument_append e [] (Or.inl rfl)
  | closeParen inside resting =>
    refine ⟨plain (by simp), fun _ _ => Or.inr (.arguments e.written), fun inside => ?_,
      silent (by simp)⟩
    exact absurd inside (by simp)

theorem colonsLabelled_nil : ColonsLabelled [] := fun before _ split =>
  absurd split.symm (List.append_ne_nil_of_right_ne_nil before (List.cons_ne_nil _ _))

theorem colons_empty : Colons {} :=
  ⟨colonsLabelled_nil, fun _ _ => Or.inl rfl, fun no => absurd no (by simp), by simp⟩

/-- The colons of the entries of a block. No entry ends in one. -/
theorem Collects.colons {ls : List Lexeme} {es : List Entry} (h : Collects {} ls es) :
    ∀ e ∈ es, ColonsLabelled e.written ∧ e.written.getLast? ≠ some (.mark .colon) := by
  have named : ∀ name, Colons { written := [.name name] } := fun name =>
    ⟨colonsLabelled_append colonsLabelled_nil (by simp), fun _ _ => Or.inr (.field name),
      fun no => absurd no (by simp), by simp⟩
  intro e he
  obtain ⟨colons, outside, complete⟩ := h.all colons_empty Colons.step named e he
  refine ⟨colons.labelled, fun last => ?_⟩
  obtain ⟨depth, reading⟩ := colons.ends last
  rw [cursor, outside] at reading
  exact absurd (complete.symm.trans reading) (by simp)

/-! ## The text before a colon -/

theorem toList_text_ne_nil {l : Lexeme} (writable : isWritable l = true) : l.text.toList ≠ [] := by
  cases l with
  | name text => exact Name.toList_ne_nil ⟨text, writable⟩
  | mark m => cases m <;> decide

theorem eq_nil_of_toList_joinedText {ls : List Lexeme}
    (writable : ∀ l ∈ ls, isWritable l = true) (h : (joinedText ls).toList = []) : ls = [] := by
  cases ls with
  | nil => rfl
  | cons l ls =>
    rw [joinedText_cons, String.toList_append] at h
    exact absurd (List.append_eq_nil_iff.mp h).1
      (toList_text_ne_nil (writable l List.mem_cons_self))

theorem colon_notMem_text {l : Lexeme} (writable : isWritable l = true) (other : l ≠ .mark .colon) :
    ':' ∉ l.text.toList := by
  cases l with
  | name text => exact Name.notMem ⟨text, writable⟩ (by decide)
  | mark m =>
    cases m with
    | colon => exact absurd rfl other
    | _ => decide

/-- A colon in a text made of lexemes is one of the lexemes. -/
theorem exists_split_of_colon {ls : List Lexeme} (writable : ∀ l ∈ ls, isWritable l = true)
    {left right : List Char} (h : (joinedText ls).toList = left ++ ':' :: right) :
    ∃ before after, ls = before ++ .mark .colon :: after ∧ (joinedText before).toList = left ∧
      (joinedText after).toList = right := by
  induction ls generalizing left with
  | nil => exact absurd h.symm (List.append_ne_nil_of_right_ne_nil left (List.cons_ne_nil _ _))
  | cons l ls ih =>
    have ih := fun {left} => @ih (fun l' hl' => writable l' (List.mem_cons_of_mem l hl')) left
    rw [joinedText_cons, String.toList_append] at h
    -- The colon comes after the first lexeme, or it lies in it and then is all of it.
    rcases List.append_eq_append_iff.mp h with ⟨more, rfl, rest⟩ | ⟨more, text, rest⟩
    · obtain ⟨before, after, rfl, rfl, rfl⟩ := ih rest
      exact ⟨l :: before, after, rfl, by rw [joinedText_cons, String.toList_append], rfl⟩
    · cases more with
      | nil =>
        obtain ⟨before, after, rfl, none, rfl⟩ := @ih [] (by simpa using rest.symm)
        refine ⟨l :: before, after, rfl, ?_, rfl⟩
        rw [joinedText_cons, String.toList_append, none, text, List.append_nil, List.append_nil]
      | cons c more =>
        obtain ⟨rfl, rfl⟩ := List.cons.inj rest
        have within : ':' ∈ l.text.toList := text ▸ List.mem_append_right left List.mem_cons_self
        have colon : l = .mark .colon := by
          by_contra other
          exact colon_notMem_text (writable l List.mem_cons_self) other within
        subst colon
        have whole : [':'] = left ++ ':' :: more := text
        cases left with
        | nil =>
          obtain rfl : more = [] := (List.cons.inj whole).2.symm
          exact ⟨[], ls, rfl, rfl, rfl⟩
        | cons d left =>
          exact absurd (List.cons.inj whole).2.symm
            (List.append_ne_nil_of_right_ne_nil left (List.cons_ne_nil _ _))

/-- **Every colon in the text of an entry has a label before it.** -/
theorem labelled_of_colon {ls : List Lexeme} {es : List Entry} (h : Collects {} ls es)
    (writable : ∀ l ∈ ls, isWritable l = true) {e : Entry} (he : e ∈ es) {left right : List Char}
    (split : e.text.toList = left ++ ':' :: right) :
    ∃ before after, e.written = before ++ .mark .colon :: after ∧ TakesColon before ∧
      (joinedText before).toList = left ∧ (joinedText after).toList = right := by
  have own : ∀ l ∈ e.written, isWritable l = true :=
    fun l hl => h.isWritable writable l (List.mem_flatMap.mpr ⟨e, he, hl⟩)
  obtain ⟨before, after, written, left, right⟩ := exists_split_of_colon own split
  exact ⟨before, after, written, (h.colons e he).1 before after written, left, right⟩

end Entry

end SchemaTypegen
