import SchemaTypegen.Proofs.Division

/-!
# What the texts of a source look like

The labels of an accepted source are names, and every entry begins with one: a member is nothing
else, and the name of a field is followed by a colon or by the parenthesis that opens its arguments.
No entry goes over a line end.

`Begun` is the invariant behind that: until the colon or the parenthesis is there, an entry has
nothing but its name.

* **`written_of_definitions`**: all of it for the definitions of a source.
-/

namespace SchemaTypegen

open Text Grammar

/-- A name, alone or with a colon or a parenthesis after it, on one line. -/
def IsEntry (entry : String) : Prop :=
  ∃ (name : Name) (rest : List Char), entry.toList = name.text.toList ++ rest ∧
    (∀ c ∈ rest.head?, c = ':' ∨ c = '(') ∧ '\n' ∉ rest

theorem isEntry_of_isName {name : String} (h : isName name = true) : IsEntry name :=
  ⟨⟨name, h⟩, [], (List.append_nil _).symm, fun c hc => absurd hc (by simp), List.not_mem_nil⟩

theorem Grammar.Name.notMem (n : Name) {c : Char} (hc : isNameChar c = false) : c ∉ n.text.toList :=
  notMem_of_isNameChar (fun _ hd => n.isNameChar_of_mem hd) hc

/-! ## Entries -/

namespace Entry

/-- How an entry begins. -/
inductive Begun (e : Entry) : Prop where
  | resting (outside : e.argument = none) (idle : e.field = .idle)
      (short : e.written = [] ∨ ∃ name, e.written = [.name name])
  | opened {name : String} {m : Mark} {rest : List Lexeme}
      (written : e.written = .name name :: .mark m :: rest) (mark : m = .colon ∨ m = .openParen)

/-- What is written stays. -/
theorem Moves.isPrefix_written {e e' : Entry} {l : Lexeme} (h : Moves e l (.same e')) :
    e.written <+: e'.written := by
  cases h <;> simp

/-- Before its colon and its arguments, an entry gets its name, then one of the two. -/
theorem Moves.of_resting {e e' : Entry} {l : Lexeme} (h : Moves e l (.same e'))
    (outside : e.argument = none) (idle : e.field = .idle) :
    e' = e ∨ (e.written = [] ∧ ∃ name, e' = e.append [.name name]) ∨
      e.written ≠ [] ∧ ∃ m, (m = .colon ∨ m = .openParen) ∧
        e'.written = e.written ++ [.mark m] := by
  have resting : e.cursor = .idle := by rw [cursor, outside, idle]; rfl
  cases h with
  | fieldName _ _ blank => exact Or.inr (Or.inl ⟨blank, _, rfl⟩)
  | colon _ begun _ =>
    exact Or.inr (Or.inr ⟨begun outside, .colon, Or.inl rfl, by simp⟩)
  | passedComma => exact Or.inl rfl
  | openParen _ _ begun => exact Or.inr (Or.inr ⟨begun, .openParen, Or.inr rfl, rfl⟩)
  | argumentName inside => exact absurd (outside.symm.trans inside) (by simp)
  | nextArgument inside => exact absurd (outside.symm.trans inside) (by simp)
  | argumentComma inside => exact absurd (outside.symm.trans inside) (by simp)
  | closeParen inside => exact absurd (outside.symm.trans inside) (by simp)
  | typeName reading => exact absurd (resting.symm.trans reading) (by simp)
  | openBracket reading => exact absurd (resting.symm.trans reading) (by simp)
  | closeBracket reading => exact absurd (resting.symm.trans reading) (by simp)
  | bang busy => exact absurd resting busy

theorem Begun.step {e e' : Entry} {l : Lexeme} (h : Begun e) (move : Moves e l (.same e')) :
    Begun e' := by
  cases h with
  | opened written mark =>
    obtain ⟨ls, more⟩ := move.isPrefix_written
    rw [written] at more
    exact .opened more.symm mark
  | resting outside idle short =>
    rcases move.of_resting outside idle with rfl | ⟨blank, name, rfl⟩ | ⟨begun, m, mark, more⟩
    · exact .resting outside idle short
    · exact .resting outside idle (Or.inr ⟨name, by rw [written_append, blank]; rfl⟩)
    · obtain ⟨name, written⟩ := short.resolve_left begun
      rw [written] at more
      exact .opened more mark

theorem Collects.begun {ls : List Lexeme} {es : List Entry} (h : Collects {} ls es) :
    ∀ e ∈ es, ∃ name m rest, e.written = .name name :: .mark m :: rest ∧
      (m = .colon ∨ m = .openParen) := by
  intro e he
  have start : Begun {} := .resting rfl rfl (Or.inl rfl)
  have named : ∀ name, Begun { written := [.name name] } :=
    fun name => .resting rfl rfl (Or.inr ⟨name, rfl⟩)
  obtain ⟨begun, -, complete⟩ := h.all start Begun.step named e he
  cases begun with
  | resting _ idle => exact absurd (idle.symm.trans complete) (by simp)
  | opened written mark => exact ⟨_, _, _, written, mark⟩

theorem isBlank_of_mem_joinedText {ls : List Lexeme} (writable : ∀ l ∈ ls, isWritable l = true) :
    ∀ c ∈ (joinedText ls).toList, isBlank c = false := by
  induction ls with
  | nil => exact fun c hc => absurd hc List.not_mem_nil
  | cons l ls ih =>
    obtain ⟨first, rest⟩ := List.forall_mem_cons.mp writable
    rw [joinedText_cons, String.toList_append]
    refine List.forall_mem_append.mpr ⟨fun c hc => ?_, ih rest⟩
    cases l with
    | name text => exact isBlank_eq_false_of_isNameChar (Name.isNameChar_of_mem ⟨text, first⟩ hc)
    | mark m =>
      rw [m.toList_text, List.mem_singleton] at hc
      subst hc
      cases m <;> decide

theorem newline_notMem_joinedText {ls : List Lexeme} (writable : ∀ l ∈ ls, isWritable l = true) :
    '\n' ∉ (joinedText ls).toList :=
  fun mem => absurd (isBlank_of_mem_joinedText writable _ mem) (by decide)

/-- What begins with a name and one of the two marks is an entry. -/
theorem isEntry_of_written {e : Entry} {name : String} {m : Mark} {rest : List Lexeme}
    (written : e.written = .name name :: .mark m :: rest) (mark : m = .colon ∨ m = .openParen)
    (writable : ∀ l ∈ e.written, isWritable l = true) : IsEntry e.text := by
  rw [written] at writable
  have text : e.text = name ++ joinedText (.mark m :: rest) :=
    (congrArg joinedText written).trans (joinedText_cons _ _)
  have oneLine : '\n' ∉ (joinedText (.mark m :: rest)).toList :=
    newline_notMem_joinedText fun l hl => writable l (List.mem_cons_of_mem _ hl)
  refine ⟨⟨name, writable _ List.mem_cons_self⟩, _, by rw [text, String.toList_append], ?_, oneLine⟩
  intro c hc
  rw [joinedText_cons, String.toList_append] at hc
  rcases mark with rfl | rfl
  · exact Or.inl (Option.some.inj hc).symm
  · exact Or.inr (Option.some.inj hc).symm

/-- An open entry is empty or an entry as far as it goes. -/
theorem Begun.isEntry {e : Entry} (h : Begun e) (writable : ∀ l ∈ e.written, isWritable l = true) :
    e.text = "" ∨ IsEntry e.text := by
  cases h with
  | opened written mark => exact Or.inr (isEntry_of_written written mark writable)
  | resting _ _ short =>
    rcases short with blank | ⟨name, only⟩
    · exact Or.inl (congrArg joinedText blank)
    · have text : e.text = name :=
        (congrArg joinedText only).trans ((joinedText_cons _ _).trans String.append_empty)
      rw [only] at writable
      exact Or.inr (text ▸ isEntry_of_isName (writable _ List.mem_cons_self))

theorem isEntry_text {ls : List Lexeme} {es : List Entry} (h : Collects {} ls es)
    (writable : ∀ l ∈ ls, isWritable l = true) {e : Entry} (he : e ∈ es) : IsEntry e.text := by
  obtain ⟨name, m, rest, written, mark⟩ := h.begun e he
  exact isEntry_of_written written mark fun l hl =>
    h.isWritable writable l (List.mem_flatMap.mpr ⟨e, he, hl⟩)

end Entry

/-! ## Definitions -/

/-- A definition as it can be written: its label is a name, its entries are entries, and if it has
members they are names. -/
structure Definition.Written (d : Definition) : Prop where
  label : isName d.label = true
  entries : ∀ entry ∈ d.entries, IsEntry entry
  members : ∀ keyword, Keyword.ofName? d.keyword = some keyword →
    keyword = .enum ∨ keyword = .union → ∀ entry ∈ d.entries, isName entry = true

namespace Reads

variable {s : Span} {d : Definition} (h : Reads s d)
  (writable : ∀ p ∈ s.lexemes, isWritable p.lexeme = true)

include h writable

theorem isName_keyword_label : isName d.keyword = true ∧ isName d.label = true := by
  obtain ⟨keyword, heads⟩ := h.exists_heads
  have first := writable s.keyword (by simp [Span.lexemes])
  have label := writable s.label (by simp [Span.lexemes])
  rw [heads.first] at first
  rw [heads.label] at label
  exact ⟨first, label⟩

/-- What holds of names and of the texts of collected entries holds of all entries. -/
theorem forall_entries {P : String → Prop} (named : ∀ name, isName name = true → P name)
    (collected : ∀ {ls : List Lexeme} {es : List Entry}, Entry.Collects {} ls es →
      (∀ l ∈ ls, isWritable l = true) → ∀ e ∈ es, P e.text) : ∀ entry ∈ d.entries, P entry := by
  have body : ∀ p ∈ s.body, isWritable p.lexeme = true :=
    fun p hp => writable p (by simp [Span.lexemes, hp])
  intro entry mem
  cases h with
  | fields _ _ _ collects same =>
    rw [same] at mem
    obtain ⟨e, he, rfl⟩ := List.mem_map.mp mem
    refine collected collects (fun l hl => ?_) e he
    obtain ⟨p, hp, rfl⟩ := List.mem_map.mp hl
    exact body p hp
  | members _ _ _ same => exact named entry (isName_of_mem_names body (same ▸ mem))
  | alternatives _ _ same => exact named entry (isName_of_mem_names body (same ▸ mem))

theorem written : d.Written where
  label := (h.isName_keyword_label writable).2
  entries := h.forall_entries writable (fun _ => isEntry_of_isName)
    fun collects valid _ he => Entry.isEntry_text collects valid he
  members := by
    intro keyword spelled kept entry mem
    have body : ∀ p ∈ s.body, isWritable p.lexeme = true :=
      fun p hp => writable p (by simp [Span.lexemes, hp])
    cases h with
    | fields heads keeps =>
      rw [heads.spelled] at spelled
      obtain rfl := Option.some.inj spelled
      exact absurd kept (not_or.mpr keeps)
    | members _ _ _ same => exact isName_of_mem_names body (same ▸ mem)
    | alternatives _ _ same => exact isName_of_mem_names body (same ▸ mem)

end Reads

/-- **Labels are names and entries begin with one.** -/
theorem Source.written_of_definitions {source : String} {ds : List Definition}
    (h : Source.definitions source = .ok ds) : ∀ d ∈ ds, d.Written := by
  intro d hd
  obtain ⟨ps, -, writable, divided⟩ := Source.divided_of_definitions h
  obtain ⟨s, reads, within⟩ := divided.exists_of_mem hd
  exact reads.written fun p hp => writable p (within p hp)

theorem Document.written_of_ofSource {source : String} {doc : Document}
    (h : Document.ofSource source = .ok doc) :
    (∀ d ∈ doc.roots, d.Written) ∧ ∀ d ∈ doc.types, d.Written := by
  obtain ⟨ds, defined, rfl⟩ := Success.map_eq_ok.mp h
  have written := Source.written_of_definitions defined
  exact ⟨fun d hd => written d (List.mem_filter.mp hd).1,
    fun d hd => written d (List.mem_filter.mp hd).1⟩

end SchemaTypegen
