import Mathlib.Data.List.DropRight
import SchemaTypegen.Proofs.Division.Boundaries
import SchemaTypegen.Proofs.Division.Colons

/-!
# How the marks of an entry are nested

An entry is held as lexemes and cursors. What it looks like as a text follows from the moves: which
parentheses and brackets the text has left open, what stands after its last colon, and that no two
bangs or colons are next to each other. The cursors then say nothing that the text does not say.

* `Entry.Nested`, `Nested.step`: the open marks of a text are those its cursors know of, and the
  text after the last colon is as much of a type as the cursor says.
* `Entry.Formed`, `Formed.step`: all that holds of the text of an open entry.
* **`Formed.isWhole`**: a complete entry has no mark left open, and ends in a type.
-/

namespace SchemaTypegen

open Text Grammar

theorem Mark.char_injective : Function.Injective Mark.char := by
  intro m m' same
  exact Option.some.inj (by rw [← ofChar?_char m, same, ofChar?_char m'])

namespace Text

/-! ## Open marks -/

/-- The marks that are open after one more character, the innermost first. A mark can be closed only
if it is the innermost. -/
def nest (stack : List Char) (c : Char) : Option (List Char) :=
  if c = '(' ∨ c = '[' then some (c :: stack)
  else if c = ')' then if stack.head? = some '(' then some stack.tail else none
  else if c = ']' then if stack.head? = some '[' then some stack.tail else none
  else some stack

/-- The marks that a text leaves open. Every other one is closed, in the order of nesting. -/
def Leaves (text stack : List Char) : Prop := text.foldlM nest [] = some stack

/-- Characters that neither nest nor begin a type. -/
def Neutral (text : List Char) : Prop := ∀ c ∈ text, c ∉ ['(', ')', '[', ']', ':']

theorem neutral_of_isNameChar {text : List Char} (h : ∀ c ∈ text, isNameChar c = true) :
    Neutral text := by
  intro c hc mark
  have other : isNameChar c = false := by
    simp only [List.mem_cons, List.not_mem_nil, or_false] at mark
    rcases mark with rfl | rfl | rfl | rfl | rfl <;> decide
  exact Bool.false_ne_true (other.symm.trans (h c hc))

theorem Neutral.notMem {text : List Char} (h : Neutral text) {c : Char}
    (hc : c ∈ ['(', ')', '[', ']', ':']) : c ∉ text :=
  fun mem => h c mem hc

theorem leaves_nil : Leaves [] [] := rfl

theorem Leaves.append {text more stack stack' : List Char} (h : Leaves text stack)
    (next : more.foldlM nest stack = some stack') : Leaves (text ++ more) stack' := by
  rw [Leaves, List.foldlM_append, h]
  exact next

theorem Leaves.concat {text stack stack' : List Char} (h : Leaves text stack) {c : Char}
    (next : nest stack c = some stack') : Leaves (text ++ [c]) stack' :=
  h.append (by rw [List.foldlM_cons, next]; rfl)

theorem foldlM_nest_of_neutral {more : List Char} (neutral : Neutral more) (stack : List Char) :
    more.foldlM nest stack = some stack := by
  induction more with
  | nil => rfl
  | cons c more ih =>
    obtain ⟨first, rest⟩ := List.forall_mem_cons.mp neutral
    have same : nest stack c = some stack := by
      simp only [List.mem_cons, not_or] at first
      simp [nest, first]
    rw [List.foldlM_cons, same]
    exact ih rest

/-- What a character can do to the open marks. -/
theorem nest_cases {stack stack' : List Char} {c : Char} (h : nest stack c = some stack') :
    (c = '(' ∨ c = '[') ∧ stack' = c :: stack ∨ c = ')' ∧ stack = '(' :: stack' ∨
      c = ']' ∧ stack = '[' :: stack' ∨ c ∉ ['(', ')', '[', ']'] ∧ stack' = stack := by
  have pop : ∀ {mark : Char}, (if stack.head? = some mark then some stack.tail else none) =
      some stack' → stack = mark :: stack' := by
    intro mark h
    obtain ⟨first, rest⟩ := Option.ite_none_right_eq_some.mp h
    rw [← Option.some.inj rest]
    exact List.eq_cons_of_mem_head? first
  unfold nest at h
  split at h
  · rename_i opens
    exact Or.inl ⟨opens, (Option.some.inj h).symm⟩
  · rename_i opens
    split at h
    · rename_i closes
      exact Or.inr (Or.inl ⟨closes, pop h⟩)
    · rename_i paren
      split at h
      · rename_i closes
        exact Or.inr (Or.inr (Or.inl ⟨closes, pop h⟩))
      · rename_i bracket
        refine Or.inr (Or.inr (Or.inr ⟨?_, (Option.some.inj h).symm⟩))
        simpa [not_or, paren, bracket] using opens

/-- A text has more opening marks than closing ones by those it leaves open. -/
theorem Leaves.count_eq {text stack : List Char} (h : Leaves text stack) {opening closing : Char}
    (pair : opening = '(' ∧ closing = ')' ∨ opening = '[' ∧ closing = ']') :
    text.count opening = text.count closing + stack.count opening := by
  suffices ∀ before, text.foldlM nest before = some stack →
      text.count opening + before.count opening =
        text.count closing + stack.count opening from this [] h
  clear h
  induction text with
  | nil =>
    rintro before ⟨⟩
    rfl
  | cons c text ih =>
    intro before h
    obtain ⟨between, first, rest⟩ := Option.bind_eq_some_iff.mp h
    have ih := ih between rest
    have step : [c].count opening + before.count opening =
        [c].count closing + between.count opening := by
      rcases nest_cases first with ⟨rfl | rfl, rfl⟩ | ⟨rfl, rfl⟩ | ⟨rfl, rfl⟩ | ⟨other, rfl⟩
      · rcases pair with ⟨rfl, rfl⟩ | ⟨rfl, rfl⟩ <;> simp [Nat.add_comm]
      · rcases pair with ⟨rfl, rfl⟩ | ⟨rfl, rfl⟩ <;> simp [Nat.add_comm]
      · rcases pair with ⟨rfl, rfl⟩ | ⟨rfl, rfl⟩ <;> simp [Nat.add_comm]
      · rcases pair with ⟨rfl, rfl⟩ | ⟨rfl, rfl⟩ <;> simp [Nat.add_comm]
      · simp only [List.mem_cons, not_or] at other
        rcases pair with ⟨rfl, rfl⟩ | ⟨rfl, rfl⟩ <;> simp [other]
    rw [List.count_cons, List.count_cons]
    rw [List.count_singleton, List.count_singleton] at step
    omega

/-! ## After the last colon -/

/-- What stands after the last colon of a text, or all of it. -/
def sinceColon (text : List Char) : List Char := text.rtakeWhile (· != ':')

theorem sinceColon_append (text : List Char) {more : List Char} (h : ':' ∉ more) :
    sinceColon (text ++ more) = sinceColon text ++ more := by
  have other : ∀ c ∈ more.reverse, (c != ':') = true := by
    intro c hc
    rw [bne_iff_ne]
    rintro rfl
    exact h (List.mem_reverse.mp hc)
  rw [sinceColon, List.rtakeWhile, List.reverse_append, List.takeWhile_append_of_pos other,
    List.reverse_append, List.reverse_reverse]
  rfl

theorem sinceColon_colon (text : List Char) : sinceColon (text ++ [':']) = [] :=
  List.rtakeWhile_concat_neg _ _ _ (by decide)

/-- So many brackets are open since the last colon. -/
def Level (text : List Char) (depth : Nat) : Prop :=
  (sinceColon text).count '[' = (sinceColon text).count ']' + depth

theorem Level.append {text more : List Char} {depth depth' : Nat} (h : Level text depth)
    (plain : ':' ∉ more) (moves : more.count '[' + depth = more.count ']' + depth') :
    Level (text ++ more) depth' := by
  rw [Level, sinceColon_append text plain, List.count_append, List.count_append]
  rw [Level] at h
  omega

theorem Level.append_neutral {text more : List Char} {depth : Nat} (h : Level text depth)
    (neutral : Neutral more) : Level (text ++ more) depth := by
  refine h.append (neutral.notMem (by decide)) ?_
  rw [List.count_eq_zero.mpr (neutral.notMem (by decide)),
    List.count_eq_zero.mpr (neutral.notMem (by decide))]

theorem level_colon (text : List Char) : Level (text ++ [':']) 0 := by
  rw [Level, sinceColon_colon]
  rfl

/-! ## Doubled marks -/

/-- The character never stands next to itself. -/
def Undoubled (c : Char) (text : List Char) : Prop := ¬ [c, c] <:+: text

theorem undoubled_nil (c : Char) : Undoubled c [] := fun h => absurd (List.infix_nil.mp h) (by simp)

theorem Undoubled.concat {c d : Char} {text : List Char} (h : Undoubled c text)
    (apart : d = c → text.getLast? ≠ some c) : Undoubled c (text ++ [d]) := by
  intro within
  rcases List.infix_concat_iff.mp within with ending | earlier
  · obtain ⟨init, shape⟩ := ending
    have shape : (init ++ [c]) ++ [c] = text ++ [d] := by simpa using shape
    obtain ⟨rfl, same⟩ := List.append_inj' shape rfl
    obtain rfl : c = d := by simpa using same
    exact apart rfl List.getLast?_concat
  · exact h earlier

theorem Undoubled.append {c : Char} {text more : List Char} (h : Undoubled c text)
    (other : c ∉ more) : Undoubled c (text ++ more) := by
  induction more using List.reverseRecOn with
  | nil => rwa [List.append_nil]
  | append_singleton more d ih =>
    rw [List.mem_append, List.mem_singleton, not_or] at other
    rw [← List.append_assoc]
    exact (ih other.1).concat fun same => absurd same.symm other.2

/-! ## Types -/

/-- The characters inside the brackets of a type. -/
def isTypeChar (c : Char) : Bool := isNameChar c || c == '!' || c == '[' || c == ']'

/-- A complete type: a name, or brackets that hold names, bangs and lists in any number, and a bang
or none. -/
def IsType (type : List Char) : Prop :=
  ∃ core, (type = core ∨ type = core ++ ['!']) ∧
    (isName (String.ofList core) = true ∨ ∃ inner, core = '[' :: inner ++ [']'] ∧
      Leaves inner [] ∧ ∀ c ∈ inner, isTypeChar c = true)

/-- An entry that is complete: no mark is left open, and after its last colon stands a type. -/
structure IsWhole (entry : String) : Prop where
  closed : Leaves entry.toList []
  typed : ∃ head type, entry.toList = head ++ ':' :: type ∧ IsType type

end Text

/-- As much of a type as a cursor has come through. -/
inductive Cursor.Read : Cursor → List Char → Prop where
  | start : Read (.reading 0) []
  | within {depth : Nat} {inner : List Char} (leaves : Leaves inner (List.replicate depth '['))
      (own : ∀ c ∈ inner, isTypeChar c = true) : Read (.reading (depth + 1)) ('[' :: inner)
  | whole {type : List Char} (complete : IsType type) : Read .complete type

namespace Cursor.Read

variable {depth : Nat} {type : List Char}

theorem name (h : Read (.reading depth) type) {name : String} (named : isName name = true) :
    Read (Cursor.reading depth).name (type ++ name.toList) := by
  have own : ∀ c ∈ name.toList, isNameChar c = true :=
    fun c hc => Name.isNameChar_of_mem ⟨name, named⟩ hc
  cases h with
  | start => exact .whole ⟨name.toList, Or.inl rfl, Or.inl (by rwa [String.ofList_toList])⟩
  | within leaves own' =>
    refine .within (leaves.append (foldlM_nest_of_neutral (neutral_of_isNameChar own) _)) ?_
    refine List.forall_mem_append.mpr ⟨own', fun c hc => ?_⟩
    simp [isTypeChar, own c hc]

theorem openBracket (h : Read (.reading depth) type) :
    Read (.reading (depth + 1)) (type ++ ['[']) := by
  cases h with
  | start => exact .within leaves_nil fun c hc => absurd hc List.not_mem_nil
  | within leaves own =>
    refine .within (leaves.concat rfl) (List.forall_mem_append.mpr ⟨own, ?_⟩)
    exact List.forall_mem_singleton.mpr rfl

theorem closeBracket (h : Read (.reading (depth + 1)) type) :
    Read (Cursor.reading depth).name (type ++ [']']) := by
  cases h with
  | @within _ inner leaves own =>
    cases depth with
    | zero => exact .whole ⟨_, Or.inl rfl, Or.inr ⟨inner, rfl, leaves, own⟩⟩
    | succ depth =>
      refine .within (leaves.concat rfl) (List.forall_mem_append.mpr ⟨own, ?_⟩)
      exact List.forall_mem_singleton.mpr rfl

/-- A bang may come where none stands, and not first. -/
theorem bang {c : Cursor} (h : Read c type) (begun : type ≠ [])
    (single : type.getLast? ≠ some '!') : Read c (type ++ ['!']) := by
  cases h with
  | start => exact absurd rfl begun
  | within leaves own =>
    refine .within (leaves.concat rfl) (List.forall_mem_append.mpr ⟨own, ?_⟩)
    exact List.forall_mem_singleton.mpr rfl
  | whole complete =>
    obtain ⟨core, rfl | rfl, shape⟩ := complete
    · exact .whole ⟨_, Or.inr rfl, shape⟩
    · exact absurd List.getLast?_concat single

end Cursor.Read

/-! ## The text of an entry -/

/-- Whether a text ends in one of the marks. -/
def endsInMark (text : String) (marks : List Mark) : Bool :=
  match text.toList.getLast? with
  | some c => (marks.map Mark.char).contains c
  | none => false

namespace Entry

theorem text_append (e : Entry) (ls : List Lexeme) : (e.append ls).text = e.text ++ joinedText ls :=
  joinedText_append e.written ls

@[simp] theorem text_setCursor (e : Entry) (c : Cursor) : (e.setCursor c).text = e.text :=
  congrArg joinedText (written_setCursor e c)

theorem joinedText_singleton (l : Lexeme) : joinedText [l] = l.text := by
  rw [joinedText_cons]
  exact String.append_empty

theorem toList_text_of_written {e e' : Entry} {l : Lexeme} (h : e'.written = e.written ++ [l]) :
    e'.text.toList = e.text.toList ++ l.text.toList := by
  have text : e'.text = e.text ++ l.text := by
    have joined : e'.text = joinedText e'.written := rfl
    rw [joined, h, joinedText_append, joinedText_singleton]
    rfl
  rw [text, String.toList_append]

theorem joinedText_ne_empty {l : Lexeme} {ls : List Lexeme} (writable : isWritable l = true) :
    joinedText (l :: ls) ≠ "" := by
  intro empty
  have none : (l.text ++ joinedText ls).toList = [] := by
    rw [← joinedText_cons, empty]
    rfl
  rw [String.toList_append, List.append_eq_nil_iff] at none
  exact toList_text_ne_nil writable none.1

theorem getLast?_joinedText {ls : List Lexeme} (writable : ∀ l ∈ ls, isWritable l = true) :
    (joinedText ls).toList.getLast? = ls.getLast?.bind fun l => l.text.toList.getLast? := by
  rcases List.eq_nil_or_concat ls with rfl | ⟨init, l, rfl⟩
  · rfl
  · have filled := toList_text_ne_nil (writable l (by simp))
    rw [List.concat_eq_append, joinedText_append, joinedText_singleton, String.toList_append,
      List.getLast?_append_of_ne_nil _ filled, List.getLast?_concat]
    rfl

variable {e e' : Entry} {l : Lexeme}

/-- The last character of the text tells which mark came last, if one did. -/
theorem endsIn_eq (writable : ∀ l ∈ e.written, isWritable l = true) (marks : List Mark) :
    e.endsIn marks = endsInMark e.text marks := by
  have last : e.text.toList.getLast? = e.written.getLast?.bind fun l => l.text.toList.getLast? :=
    getLast?_joinedText writable
  rw [endsInMark, endsIn, last]
  cases ends : e.written.getLast? with
  | none => rfl
  | some l =>
    cases l with
    | mark m =>
      rw [Option.bind_some, m.toList_text, Bool.eq_iff_iff]
      simp only [List.getLast?_singleton, List.contains_iff_mem]
      exact (List.mem_map_of_injective Mark.char_injective).symm
    | name name =>
      have named : isName name = true := writable _ (List.mem_of_getLast? ends)
      have other : ∀ c ∈ name.toList, c ∉ marks.map Mark.char := by
        intro c hc mark
        obtain ⟨m, -, rfl⟩ := List.mem_map.mp mark
        exact absurd (Name.isNameChar_of_mem ⟨name, named⟩ hc) (by simp [m.isNameChar_char])
      rw [Option.bind_some]
      cases final : name.toList.getLast? with
      | none => simp [Lexeme.text, final]
      | some c => simpa [Lexeme.text, final] using other c (List.mem_of_getLast? final)

theorem getLast?_text_ne (writable : ∀ l ∈ e.written, isWritable l = true) {marks : List Mark}
    (h : e.endsIn marks = false) {m : Mark} (hm : m ∈ marks) :
    e.text.toList.getLast? ≠ some m.char := by
  intro last
  rw [endsIn_eq writable, endsInMark, last] at h
  have mem : (marks.map Mark.char).contains m.char = true :=
    List.contains_iff_mem.mpr (List.mem_map_of_mem hm)
  exact Bool.false_ne_true (h.symm.trans mem)

/-! ## What an entry leaves open -/

/-- The marks that the cursors of an entry know to be open. -/
def openMarks (e : Entry) : List Char :=
  List.replicate e.cursor.depth '[' ++ if e.argument.isSome then ['('] else []

/-- The text of an entry has left open what the cursors know of, and what it has after its last
colon is as much of a type as the cursor says. -/
structure Nested (e : Entry) : Prop where
  leaves : Leaves e.text.toList e.openMarks
  level : Level e.text.toList e.cursor.depth
  typed : e.cursor ≠ .idle → ∃ head type, e.text.toList = head ++ ':' :: type ∧ e.cursor.Read type

theorem isSome_argument_setCursor (e : Entry) (c : Cursor) :
    (e.setCursor c).argument.isSome = e.argument.isSome := by
  unfold setCursor
  cases e.argument <;> rfl

theorem openMarks_move (e : Entry) (c : Cursor) (ls : List Lexeme) :
    ((e.setCursor c).append ls).openMarks =
      List.replicate c.depth '[' ++ if e.argument.isSome then ['('] else [] := by
  rw [openMarks, cursor_append, cursor_setCursor]
  exact congrArg (fun b => _ ++ if b = true then ['('] else []) (isSome_argument_setCursor e c)

/-- What a lexeme adds to a type goes on with it. -/
theorem Nested.typed_move (h : Nested e) {c : Cursor} (busy : e.cursor ≠ .idle)
    (goesOn : ∀ type, e.cursor.Read type → (∃ head, e.text.toList = head ++ ':' :: type) →
      c.Read (type ++ l.text.toList)) :
    ∃ head type, ((e.setCursor c).append [l]).text.toList = head ++ ':' :: type ∧
      ((e.setCursor c).append [l]).cursor.Read type := by
  obtain ⟨head, type, text, read⟩ := h.typed busy
  refine ⟨head, type ++ l.text.toList, ?_, by simpa using goesOn type read ⟨head, text⟩⟩
  rw [toList_text_of_written (e := e) (l := l) (by simp), text, List.append_assoc, List.cons_append]

/-- A lexeme that opens and closes nothing, after which the cursor stands at `c`. -/
theorem Nested.neutral (h : Nested e) {c : Cursor} (neutral : Neutral l.text.toList)
    (depth : c.depth = e.cursor.depth)
    (typed : c ≠ .idle → ∃ head type, ((e.setCursor c).append [l]).text.toList =
      head ++ ':' :: type ∧ ((e.setCursor c).append [l]).cursor.Read type) :
    Nested ((e.setCursor c).append [l]) where
  leaves := by
    rw [toList_text_of_written (e := e) (l := l) (by simp), openMarks_move, depth]
    exact h.leaves.append (foldlM_nest_of_neutral neutral _)
  level := by
    rw [toList_text_of_written (e := e) (l := l) (by simp), cursor_append, cursor_setCursor, depth]
    exact h.level.append_neutral neutral
  typed := by simpa using typed

/-- A mark after which the cursor stands at `c`. -/
theorem Nested.marked (h : Nested e) {c : Cursor} {m : Mark}
    (opens : nest e.openMarks m.char =
      some (List.replicate c.depth '[' ++ if e.argument.isSome then ['('] else []))
    (level : Level (e.text.toList ++ [m.char]) c.depth)
    (typed : ∃ head type, ((e.setCursor c).append [.mark m]).text.toList = head ++ ':' :: type ∧
      ((e.setCursor c).append [.mark m]).cursor.Read type) :
    Nested ((e.setCursor c).append [.mark m]) where
  leaves := by
    rw [toList_text_of_written (e := e) (l := .mark m) (by simp), openMarks_move, m.toList_text]
    exact h.leaves.concat opens
  level := by
    rw [toList_text_of_written (e := e) (l := .mark m) (by simp), m.toList_text]
    simpa using level
  typed _ := typed

theorem neutral_name {name : String} (named : isName name = true) :
    Neutral (Lexeme.name name).text.toList :=
  neutral_of_isNameChar fun _ hc => Name.isNameChar_of_mem ⟨name, named⟩ hc

theorem neutral_mark {m : Mark} (h : m = .comma ∨ m = .bang) :
    Neutral (Lexeme.mark m).text.toList := by
  rw [m.toList_text]
  rcases h with rfl | rfl <;> exact List.forall_mem_singleton.mpr (by decide)

theorem Nested.step (h : Nested e) (sound : Sound e)
    (writable : ∀ l ∈ e.written, isWritable l = true) (hl : isWritable l = true)
    (move : Moves e l (.same e')) : Nested e' := by
  have at_ : ∀ {c : Cursor}, e.argument = some c → e.cursor = c := fun inside => by
    rw [cursor, inside]
    rfl
  have stays : ∀ ls, e.append ls = (e.setCursor e.cursor).append ls := fun ls => by
    rw [setCursor_eq_self rfl]
  cases move with
  | fieldName outside idle blank =>
    have resting : e.cursor = .idle := by rw [cursor, outside, idle]; rfl
    rw [stays]
    exact h.neutral (neutral_name hl) rfl fun busy => absurd resting busy
  | argumentName idle begins =>
    rw [stays]
    exact h.neutral (neutral_name hl) rfl fun busy => absurd (at_ idle) busy
  | @nextArgument name complete =>
    have comma : Nested ((e.setCursor .idle).append [.mark .comma]) :=
      h.neutral (neutral_mark (Or.inl rfl)) (by rw [at_ complete]; rfl) fun busy => absurd rfl busy
    have named := comma.neutral (c := .idle) (neutral_name hl) (by simp) fun busy => absurd rfl busy
    simpa using named
  | @typeName name depth reading =>
    refine h.neutral (neutral_name hl) (by rw [reading, Cursor.depth_name]; rfl) fun _ => ?_
    refine h.typed_move (by rw [reading]; exact Cursor.noConfusion) fun type read _ => ?_
    exact (reading ▸ read : Cursor.Read (.reading depth) type).name hl
  | colon idle begun named =>
    refine h.marked ?_ (level_colon _) ⟨e.text.toList, [], ?_, by simpa using .start⟩
    · rw [openMarks, idle]
      rfl
    · rw [toList_text_of_written (e := e) (l := .mark .colon) (by simp), Mark.toList_text]
      rfl
  | argumentComma complete =>
    exact h.neutral (neutral_mark (Or.inl rfl)) (by rw [at_ complete]; rfl) fun busy =>
      absurd rfl busy
  | passedComma => exact h
  | @openBracket depth reading =>
    have busy : e.cursor ≠ .idle := by rw [reading]; exact Cursor.noConfusion
    refine h.marked ?_ ?_ (h.typed_move busy fun type read _ => ?_)
    · rw [openMarks, reading]
      rfl
    · have more : 1 + depth = 0 + (depth + 1) := by omega
      exact h.level.append (by decide) (by rw [reading]; exact more)
    · exact (reading ▸ read : Cursor.Read (.reading depth) type).openBracket
  | @closeBracket depth reading =>
    have busy : e.cursor ≠ .idle := by rw [reading]; exact Cursor.noConfusion
    refine h.marked ?_ ?_ (h.typed_move busy fun type read _ => ?_)
    · rw [openMarks, reading, Cursor.depth_name]
      rfl
    · have less : 0 + (depth + 1) = 1 + depth := by omega
      rw [Cursor.depth_name]
      exact h.level.append (by decide) (by rw [reading]; exact less)
    · exact (reading ▸ read : Cursor.Read (.reading (depth + 1)) type).closeBracket
  | bang busy fits =>
    rw [stays]
    refine h.neutral (neutral_mark (Or.inr rfl)) rfl fun _ => h.typed_move busy ?_
    rintro type read ⟨head, text⟩
    have last := fun m hm => getLast?_text_ne writable fits (m := m) hm
    rw [text] at last
    refine read.bang ?_ ?_
    · rintro rfl
      exact last .colon (by decide) List.getLast?_concat
    · intro bang
      refine last .bang (by decide) ?_
      rw [List.getLast?_append, List.getLast?_cons, bang]
      rfl
  | openParen outside idle begun =>
    have resting : e.cursor = .idle := by rw [cursor, outside, idle]; rfl
    have text : (Entry.text { e.append [.mark .openParen] with argument := some .idle }).toList =
        e.text.toList ++ ['('] := toList_text_of_written (l := .mark .openParen) rfl
    have leaves := h.leaves
    have level := h.level
    rw [openMarks, resting, outside] at leaves
    rw [resting] at level
    refine ⟨text ▸ leaves.concat rfl, text ▸ level.append (by decide) rfl, fun busy => ?_⟩
    exact absurd rfl busy
  | @closeParen c inside resting =>
    have closed : e.cursor.depth = 0 := by
      rw [at_ inside]
      rcases resting with rfl | rfl <;> rfl
    have field : e.field = .idle := sound.outer (by simp [inside])
    have text : (Entry.text { e.append [.mark .closeParen] with argument := none }).toList =
        e.text.toList ++ [')'] := toList_text_of_written (l := .mark .closeParen) rfl
    have after : Entry.cursor { e.append [.mark .closeParen] with argument := none } = .idle :=
      field
    have leaves := h.leaves
    have level := h.level
    rw [openMarks, closed, inside] at leaves
    rw [closed] at level
    refine ⟨?_, ?_, fun busy => absurd after busy⟩
    · rw [text, openMarks, after]
      exact leaves.concat rfl
    · rw [text, after]
      exact level.append (by decide) rfl

/-! ## Marks next to each other -/

/-- After a colon the cursor reads, and it does not where another one may come. -/
theorem Colons.endsIn_colon (h : Colons e) (idle : e.cursor = .idle) :
    e.endsIn [.colon] = false := by
  rw [endsIn]
  split
  · rename_i m last
    rw [List.contains_eq_mem, decide_eq_false_iff_not, List.mem_singleton]
    rintro rfl
    obtain ⟨depth, reading⟩ := h.ends last
    exact Cursor.noConfusion (idle.symm.trans reading)
  · rfl

/-- What a move adds to the text: nothing, the lexeme, or a name with a comma before it. -/
theorem Moves.toList_text (move : Moves e l (.same e')) :
    e'.text.toList = e.text.toList ∨ e'.text.toList = e.text.toList ++ l.text.toList ∨
      ∃ name, l = .name name ∧ e'.text.toList = e.text.toList ++ [','] ++ name.toList := by
  cases move with
  | passedComma => exact Or.inl rfl
  | @nextArgument name complete =>
    refine Or.inr (Or.inr ⟨name, rfl, ?_⟩)
    rw [text_append, text_setCursor, joinedText_cons, joinedText_singleton, String.toList_append,
      String.toList_append, ← List.append_assoc]
    rfl
  | openParen | closeParen => exact Or.inr (Or.inl (toList_text_of_written rfl))
  | _ => exact Or.inr (Or.inl (toList_text_of_written (by simp)))

/-- A mark that never comes where it stands already is never doubled. -/
theorem Moves.undoubled {m : Mark} (move : Moves e l (.same e')) (hl : isWritable l = true)
    (other : m ≠ .comma) (h : Undoubled m.char e.text.toList)
    (apart : l = .mark m → e.text.toList.getLast? ≠ some m.char) :
    Undoubled m.char e'.text.toList := by
  have inName : ∀ {name : String}, isName name = true → m.char ∉ name.toList :=
    fun named => Name.notMem ⟨_, named⟩ m.isNameChar_char
  rcases move.toList_text with text | text | ⟨name, rfl, text⟩
  · rwa [text]
  · rw [text]
    cases l with
    | name name => exact h.append (inName hl)
    | mark m' =>
      rw [m'.toList_text]
      exact h.concat fun same => apart (congrArg _ (Mark.char_injective same))
  · rw [text]
    refine (h.append ?_).append (inName hl)
    rw [List.mem_singleton]
    intro same
    exact other (Mark.char_injective (same.trans (rfl : ',' = Mark.comma.char)))

/-! ## Open entries -/

/-- All that holds of the text of an open entry. -/
structure Formed (e : Entry) : Prop where
  writable : ∀ l ∈ e.written, isWritable l = true
  begun : Begun e
  colons : Colons e
  sound : Sound e
  nested : Nested e
  bangs : Undoubled '!' e.text.toList
  doubled : Undoubled ':' e.text.toList

theorem formed_empty : Formed {} where
  writable _ hl := absurd hl List.not_mem_nil
  begun := .resting rfl rfl (Or.inl rfl)
  colons := colons_empty
  sound := sound_empty
  nested := ⟨rfl, rfl, fun busy => absurd rfl busy⟩
  bangs := undoubled_nil '!'
  doubled := undoubled_nil ':'

/-- What a move writes can be written. -/
theorem isWritable_of_content {ls ls' : List Lexeme} (same : content ls = content ls')
    (writable : ∀ l ∈ ls', isWritable l = true) : ∀ l ∈ ls, isWritable l = true := by
  intro l hl
  by_cases comma : l = .mark .comma
  · subst comma
    rfl
  · have held : l ∈ content ls' := same ▸ List.mem_filter.mpr ⟨hl, by simpa using comma⟩
    exact writable l (List.mem_filter.mp held).1

theorem Moves.isWritable_same (move : Moves e l (.same e'))
    (writable : ∀ l ∈ e.written, isWritable l = true) (hl : isWritable l = true) :
    ∀ l ∈ e'.written, isWritable l = true := by
  refine isWritable_of_content (move.content_same.trans (content_append e.written [l]).symm) ?_
  exact List.forall_mem_append.mpr ⟨writable, List.forall_mem_singleton.mpr hl⟩

theorem Moves.isWritable_next (move : Moves e l (.next e')) (hl : isWritable l = true) :
    ∀ l ∈ e'.written, isWritable l = true :=
  isWritable_of_content move.content_next (List.forall_mem_singleton.mpr hl)

/-- **Every move keeps an entry formed.** -/
theorem Formed.step (h : Formed e) (hl : isWritable l = true) (move : Moves e l (.same e')) :
    Formed e' where
  writable := move.isWritable_same h.writable hl
  begun := h.begun.step move
  colons := h.colons.step move
  sound := h.sound.step move
  nested := h.nested.step h.sound h.writable hl move
  bangs := by
    refine move.undoubled (m := .bang) hl (by decide) h.bangs ?_
    rintro rfl
    cases move with
    | bang _ fits => exact getLast?_text_ne h.writable fits (by decide)
  doubled := by
    refine move.undoubled (m := .colon) hl (by decide) h.doubled ?_
    rintro rfl
    cases move with
    | colon idle _ _ =>
      exact getLast?_text_ne h.writable (h.colons.endsIn_colon idle) List.mem_cons_self

/-- A complete entry is whole. -/
theorem Formed.isWhole (h : Formed e) (outside : e.argument = none)
    (complete : e.field = .complete) : IsWhole e.text := by
  have here : e.cursor = .complete := by rw [cursor, outside, complete]; rfl
  have leaves := h.nested.leaves
  rw [openMarks, here, outside] at leaves
  obtain ⟨head, type, text, read⟩ := h.nested.typed (by rw [here]; exact Cursor.noConfusion)
  rw [here] at read
  cases read with
  | whole complete => exact ⟨leaves, head, type, text, complete⟩

theorem Formed.next (h : Formed e) (hl : isWritable l = true) (move : Moves e l (.next e')) :
    IsWhole e.text ∧ Formed e' := by
  cases move with
  | nextField outside complete =>
    exact ⟨h.isWhole outside complete, formed_empty.step hl (.fieldName rfl rfl rfl)⟩
  | entryComma outside complete => exact ⟨h.isWhole outside complete, formed_empty⟩

end Entry

end SchemaTypegen
