import Mathlib.Data.List.Chain
import SchemaTypegen.Proofs.Division

/-!
# Where the boundaries of lexemes are kept

The text of an entry is its lexemes with nothing between them, so two names that are written one
after the other are read back as one. Outside brackets the moves of an entry never write a name
after a name. Inside brackets they do: neither a second name nor, in the type of a field, a comma
before it is refused there.

* `lexFrom_joinedText`: lexemes written without anything between them are read back as `merge` of
  them, where names that meet are one.
* `content_merge`: in a list where names meet only inside brackets and commas stand only outside
  (`Tidy`), `merge` does what `fuse` does to the same lexemes without their commas.
* `Sound`: the invariant of an entry from which `Tidy` follows.
* **`entries_read_back`**: the entries of a block, read again, give the lexemes of its body with the
  names that meet inside brackets run together, and the lexemes themselves exactly if none meet.
-/

namespace SchemaTypegen

open Text Grammar

/-! ## Names that run together -/

/-- How many brackets are open after a lexeme. -/
def Lexeme.bracketDepth (depth : Nat) : Lexeme → Nat
  | .mark .openBracket => depth + 1
  | .mark .closeBracket => depth - 1
  | _ => depth

/-- How many brackets are open after lexemes. -/
def bracketDepth (depth : Nat) (ls : List Lexeme) : Nat := ls.foldl Lexeme.bracketDepth depth

/-- A lexeme in front of others. If `glued`, a name in front of a name becomes one with it. -/
def Lexeme.before (glued : Bool) : Lexeme → List Lexeme → List Lexeme
  | .name first, .name second :: ls =>
    if glued then .name (first ++ second) :: ls else .name first :: .name second :: ls
  | l, ls => l :: ls

/-- Names that meet run together. -/
def merge : List Lexeme → List Lexeme
  | [] => []
  | l :: ls => l.before true (merge ls)

/-- Names that meet inside brackets run together, where `depth` brackets are open to begin with. -/
def fuse (depth : Nat) : List Lexeme → List Lexeme
  | [] => []
  | l :: ls => l.before (0 < depth) (fuse (l.bracketDepth depth) ls)

/-- Whether two names meet inside brackets. -/
def namesMeet (depth : Nat) : List Lexeme → Bool
  | [] => false
  | l :: ls =>
    (0 < depth && isNameLexeme l && ls.head?.any isNameLexeme) ||
      namesMeet (l.bracketDepth depth) ls

@[simp] theorem before_mark (glued : Bool) (m : Mark) (ls : List Lexeme) :
    (Lexeme.mark m).before glued ls = .mark m :: ls :=
  rfl

@[simp] theorem before_false (l : Lexeme) (ls : List Lexeme) : l.before false ls = l :: ls := by
  unfold Lexeme.before
  split <;> simp

theorem before_of_mark {l : Lexeme} {ls : List Lexeme}
    (h : ∀ l' ∈ ls.head?, isNameLexeme l' = false) (glued : Bool) :
    l.before glued ls = l :: ls := by
  unfold Lexeme.before
  split
  · exact absurd (h _ rfl) (by simp [isNameLexeme])
  · rfl

theorem before_ne_nil (glued : Bool) (l : Lexeme) (ls : List Lexeme) : l.before glued ls ≠ [] := by
  unfold Lexeme.before
  split
  · split <;> exact List.cons_ne_nil _ _
  · exact List.cons_ne_nil _ _

/-- Whatever runs together, the first lexeme stays a name or stays the mark it was. -/
theorem head?_before (glued : Bool) (l : Lexeme) (ls : List Lexeme) :
    ∃ l' ∈ (l.before glued ls).head?, isNameLexeme l' = isNameLexeme l ∧
      ∀ m, l' = .mark m ↔ l = .mark m := by
  unfold Lexeme.before
  split
  · split <;> exact ⟨_, rfl, rfl, by simp⟩
  · exact ⟨_, rfl, rfl, fun _ => Iff.rfl⟩

theorem length_before_le (glued : Bool) (l : Lexeme) (ls : List Lexeme) :
    (l.before glued ls).length ≤ ls.length + 1 := by
  unfold Lexeme.before
  split
  · split <;> simp
  · simp

/-! ## When nothing runs together -/

theorem head?_fuse (depth : Nat) (ls : List Lexeme) :
    (fuse depth ls).head?.any isNameLexeme = ls.head?.any isNameLexeme := by
  cases ls with
  | nil => rfl
  | cons l ls =>
    obtain ⟨l', head, same, -⟩ := head?_before (0 < depth) l (fuse (l.bracketDepth depth) ls)
    rw [fuse, Option.mem_def.mp head, List.head?_cons]
    exact same

theorem length_fuse_le (depth : Nat) (ls : List Lexeme) : (fuse depth ls).length ≤ ls.length := by
  induction ls generalizing depth with
  | nil => exact Nat.le_refl 0
  | cons l ls ih =>
    have first := length_before_le (0 < depth) l (fuse (l.bracketDepth depth) ls)
    have rest := ih (l.bracketDepth depth)
    rw [fuse, List.length_cons]
    omega

theorem length_fuse_lt {depth : Nat} {ls : List Lexeme} (h : namesMeet depth ls = true) :
    (fuse depth ls).length < ls.length := by
  induction ls generalizing depth with
  | nil => exact absurd h Bool.false_ne_true
  | cons l ls ih =>
    have shorter := length_fuse_le (l.bracketDepth depth) ls
    rw [fuse, List.length_cons]
    simp only [namesMeet, Bool.or_eq_true, Bool.and_eq_true, decide_eq_true_eq] at h
    rcases h with ⟨⟨inside, first⟩, second⟩ | rest
    · rw [← head?_fuse (l.bracketDepth depth)] at second
      have glued : decide (0 < depth) = true := by simpa using inside
      cases l with
      | mark m => exact absurd first Bool.false_ne_true
      | name text =>
        cases run : fuse ((Lexeme.name text).bracketDepth depth) ls with
        | nil => rw [run] at second; exact absurd second (by simp)
        | cons l' ls' =>
          rw [run] at second shorter
          cases l' with
          | mark m => exact absurd second (by simp [isNameLexeme])
          | name text' =>
            simp only [Lexeme.before, glued, if_true, List.length_cons] at shorter ⊢
            omega
    · have first := length_before_le (0 < depth) l (fuse (l.bracketDepth depth) ls)
      have rest := ih rest
      omega

theorem fuse_eq_self {depth : Nat} {ls : List Lexeme} (h : namesMeet depth ls = false) :
    fuse depth ls = ls := by
  induction ls generalizing depth with
  | nil => rfl
  | cons l ls ih =>
    simp only [namesMeet, Bool.or_eq_false_iff] at h
    rw [fuse, ih h.2]
    by_cases inside : 0 < depth
    · cases l with
      | mark m => rfl
      | name text =>
        have apart : ls.head?.any isNameLexeme = false := by simpa [inside, isNameLexeme] using h.1
        refine before_of_mark (fun l' hl' => ?_) _
        rw [Option.mem_def.mp hl'] at apart
        exact apart
    · rw [decide_eq_false inside, before_false]

/-- **Nothing runs together exactly if no names meet inside brackets.** -/
theorem fuse_eq_self_iff (depth : Nat) (ls : List Lexeme) :
    fuse depth ls = ls ↔ namesMeet depth ls = false := by
  refine ⟨fun same => ?_, fuse_eq_self⟩
  cases h : namesMeet depth ls with
  | false => rfl
  | true =>
    have shorter := length_fuse_lt h
    rw [same] at shorter
    exact absurd shorter (Nat.lt_irrefl _)

/-! ## Reading back what is written without spaces -/

theorem isWritable_of_mem_merge {ls : List Lexeme} (writable : ∀ l ∈ ls, isWritable l = true) :
    ∀ l ∈ merge ls, isWritable l = true := by
  induction ls with
  | nil => exact fun l hl => absurd hl List.not_mem_nil
  | cons first ls ih =>
    have ih := ih fun l hl => writable l (List.mem_cons_of_mem first hl)
    have valid := writable first List.mem_cons_self
    intro l hl
    rw [merge] at hl
    unfold Lexeme.before at hl
    split at hl
    · rename_i text text' rest run
      rw [run] at ih
      rw [if_pos rfl] at hl
      rcases List.mem_cons.mp hl with rfl | hl
      · exact isName_append valid (ih _ List.mem_cons_self)
      · exact ih l (List.mem_cons_of_mem _ hl)
    · rcases List.mem_cons.mp hl with rfl | hl
      · exact valid
      · exact ih l hl

theorem joinedText_merge (ls : List Lexeme) :
    Entry.joinedText (merge ls) = Entry.joinedText ls := by
  induction ls with
  | nil => rfl
  | cons first ls ih =>
    rw [Entry.joinedText_cons, ← ih, merge]
    unfold Lexeme.before
    split
    · rename_i text text' rest run
      rw [if_pos rfl, run, Entry.joinedText_cons, Entry.joinedText_cons, ← String.append_assoc]
      rfl
    · rw [Entry.joinedText_cons]

/-- Of two lexemes in a row, one is a mark. -/
def Apart (l l' : Lexeme) : Prop := isNameLexeme l = true → isNameLexeme l' = false

theorem isChain_merge (ls : List Lexeme) : (merge ls).IsChain Apart := by
  induction ls with
  | nil => exact .nil
  | cons first ls ih =>
    rw [merge]
    cases first with
    | mark m => exact List.isChain_cons.mpr ⟨fun _ _ => fun no => absurd no Bool.false_ne_true, ih⟩
    | name text =>
      cases run : merge ls with
      | nil => exact .singleton _
      | cons l rest =>
        rw [run] at ih
        cases l with
        | mark m => exact .cons_cons (fun _ => rfl) ih
        | name text' =>
          obtain ⟨apart, tail⟩ := List.isChain_cons.mp ih
          exact List.isChain_cons.mpr ⟨fun l hl _ => apart l hl rfl, tail⟩

theorem spaced_of_isChain {ls : List Lexeme} (chain : ls.IsChain Apart)
    (writable : ∀ l ∈ ls, isWritable l = true) (line : Nat) : ∀ {afterName : Bool},
    (afterName = true → ∀ l ∈ ls.head?, isNameLexeme l = false) →
      Spaced afterName line (onLine line ls) (Entry.joinedText ls).toList := by
  induction ls with
  | nil => exact fun _ => .done fun c hc => absurd hc List.not_mem_nil
  | cons l ls ih =>
    intro afterName fits
    have noGap : ∀ c ∈ ([] : List Char), isGap c = true := fun c hc => absurd hc List.not_mem_nil
    have separate : afterName = true → isNameLexeme l = true → ([] : List Char) ≠ [] := by
      intro after named
      rw [fits after l rfl] at named
      exact absurd named Bool.false_ne_true
    have rest : Spaced (isNameLexeme l) line (onLine line ls) (Entry.joinedText ls).toList := by
      refine ih chain.of_cons (fun l' hl' => writable l' (List.mem_cons_of_mem l hl')) ?_
      exact fun named l' hl' => (List.isChain_cons.mp chain).1 l' hl' named
    have spaced := Spaced.lexeme noGap separate (writable l List.mem_cons_self) rest
    rw [Entry.joinedText_cons, String.toList_append]
    exact spaced

/-- **Lexemes written without anything between them** are read back with the names that meet as
one. -/
theorem lexFrom_joinedText {ls : List Lexeme} (writable : ∀ l ∈ ls, isWritable l = true)
    (line : Nat) :
    Source.lexFrom line (Entry.joinedText ls).toList = .ok (onLine line (merge ls)) := by
  rw [← joinedText_merge]
  exact Source.lexFrom_of_spaced
    (spaced_of_isChain (isChain_merge ls) (isWritable_of_mem_merge writable) line
      fun no => absurd no Bool.false_ne_true)

/-! ## Lexemes in good order -/

/-- Outside brackets no name follows a name, and inside there are no commas. -/
def Tidy (depth : Nat) : List Lexeme → Prop
  | [] => True
  | l :: ls =>
    (depth = 0 → isNameLexeme l = true → ∀ l' ∈ ls.head?, isNameLexeme l' = false) ∧
      (l = .mark .comma → depth = 0) ∧ Tidy (l.bracketDepth depth) ls

theorem head?_merge {ls : List Lexeme} {l' : Lexeme} {rest : List Lexeme}
    (h : merge ls = l' :: rest) :
    ∃ l ∈ ls.head?, isNameLexeme l' = isNameLexeme l ∧ ∀ m, l' = .mark m ↔ l = .mark m := by
  cases ls with
  | nil => exact absurd h (by simp [merge])
  | cons l ls =>
    obtain ⟨first, head, same⟩ := head?_before true l (merge ls)
    rw [← merge, h] at head
    obtain rfl : l' = first := by simpa using head
    exact ⟨l, rfl, same⟩

/-- In tidy lexemes the names that meet are those that meet inside brackets, commas or not. -/
theorem content_merge {depth : Nat} {ls : List Lexeme} (tidy : Tidy depth ls) :
    content (merge ls) = fuse depth (content ls) := by
  induction ls generalizing depth with
  | nil => rfl
  | cons l ls ih =>
    obtain ⟨apart, outside, rest⟩ := tidy
    have ih := ih rest
    cases l with
    | mark m =>
      by_cases comma : m = .comma
      · subst comma
        rw [merge, before_mark, content_comma, content_comma, ih]
        rfl
      · have kept : Lexeme.mark m ≠ .mark .comma := fun e => comma (Lexeme.mark.inj e)
        rw [merge, before_mark, content_cons kept, content_cons kept, fuse, before_mark, ih]
    | name text =>
      rw [content_cons (by simp), fuse, ← ih, merge]
      -- What the name meets in `merge ls` is what it meets in `ls`.
      cases run : merge ls with
      | nil => rfl
      | cons l' more =>
        obtain ⟨second, head, same, mark⟩ := head?_merge run
        cases l' with
        | name text' =>
          have inside : 0 < depth := by
            refine Nat.pos_of_ne_zero fun out => ?_
            have := apart out rfl second head
            rw [← same] at this
            exact absurd this (by simp [isNameLexeme])
          rw [decide_eq_true inside, content_cons (by simp)]
          simp only [Lexeme.before, if_true]
          exact content_cons (by simp) more
        | mark m =>
          have plain : ∀ l'' ∈ (Lexeme.mark m :: more).head?, isNameLexeme l'' = false := by
            simp [isNameLexeme]
          rw [before_of_mark plain, content_cons (by simp)]
          by_cases comma : m = .comma
          · subst comma
            -- A comma comes next, so this is outside brackets.
            have out : depth = 0 := by
              cases ls with
              | nil => exact absurd head (by simp)
              | cons l ls =>
                obtain rfl : l = second := by simpa using head
                exact rest.2.1 ((mark .comma).mp rfl)
            rw [out, decide_eq_false (Nat.lt_irrefl 0), before_false]
          · have kept : Lexeme.mark m ≠ .mark .comma := fun e => comma (Lexeme.mark.inj e)
            rw [content_cons kept, before_of_mark (by simp [isNameLexeme])]

theorem bracketDepth_append (depth : Nat) (ls ls' : List Lexeme) :
    bracketDepth depth (ls ++ ls') = bracketDepth (bracketDepth depth ls) ls' :=
  List.foldl_append

theorem bracketDepth_content (depth : Nat) (ls : List Lexeme) :
    bracketDepth depth (content ls) = bracketDepth depth ls := by
  induction ls generalizing depth with
  | nil => rfl
  | cons l ls ih =>
    by_cases comma : l = .mark .comma
    · subst comma
      rw [content_comma, ih]
      rfl
    · rw [content_cons comma]
      exact ih _

theorem tidy_append {depth : Nat} {ls : List Lexeme} {l : Lexeme} (tidy : Tidy depth ls)
    (apart : bracketDepth depth ls = 0 → isNameLexeme l = true →
      ∀ l' ∈ ls.getLast?, isNameLexeme l' = false)
    (outside : l = .mark .comma → bracketDepth depth ls = 0) : Tidy depth (ls ++ [l]) := by
  induction ls generalizing depth with
  | nil => exact ⟨fun _ _ l' hl' => absurd hl' (by simp), outside, trivial⟩
  | cons first ls ih =>
    obtain ⟨apart', outside', rest⟩ := tidy
    cases ls with
    | nil =>
      refine ⟨fun out named l' hl' => ?_, outside', ih rest (fun _ _ l' hl' => ?_) outside⟩
      · obtain rfl : l = l' := by simpa using hl'
        have still : bracketDepth depth [first] = 0 := by
          cases first with
          | name text => exact out
          | mark m => exact absurd named Bool.false_ne_true
        cases hl : isNameLexeme l with
        | false => rfl
        | true =>
          rw [apart still hl first rfl] at named
          exact absurd named Bool.false_ne_true
      · exact absurd hl' (by simp)
    | cons second ls =>
      refine ⟨fun out named => ?_, outside', ih rest (fun out named => ?_) outside⟩
      · exact apart' out named
      · have := apart out named
        rwa [List.getLast?_cons_cons] at this

/-! ## Running together entry by entry -/

theorem fuse_ne_nil {depth : Nat} {ls : List Lexeme} (h : ls ≠ []) : fuse depth ls ≠ [] := by
  cases ls with
  | nil => exact absurd rfl h
  | cons l ls => exact before_ne_nil _ _ _

theorem before_append {glued : Bool} {l : Lexeme} {ls : List Lexeme} (h : ls ≠ [])
    (ls' : List Lexeme) : l.before glued (ls ++ ls') = l.before glued ls ++ ls' := by
  obtain ⟨first, ls, rfl⟩ := List.exists_cons_of_ne_nil h
  cases l with
  | mark m => rfl
  | name text =>
    cases first with
    | mark m => rfl
    | name text' => cases glued <;> rfl

/-- Where all brackets are closed, nothing runs together. -/
theorem fuse_append {depth : Nat} {ls : List Lexeme} (closed : bracketDepth depth ls = 0)
    (ls' : List Lexeme) : fuse depth (ls ++ ls') = fuse depth ls ++ fuse 0 ls' := by
  induction ls generalizing depth with
  | nil =>
    obtain rfl : depth = 0 := closed
    rfl
  | cons l ls ih =>
    have ih := ih closed
    rw [List.cons_append, fuse, fuse, ih]
    by_cases last : ls = []
    · subst last
      cases l with
      | mark m => rfl
      | name text =>
        obtain rfl : depth = 0 := closed
        rw [decide_eq_false (Nat.lt_irrefl 0), before_false, before_false]
        rfl
    · exact before_append (fuse_ne_nil last) _

theorem fuse_flatMap {α : Type} (f : α → List Lexeme) (xs : List α)
    (closed : ∀ x ∈ xs, bracketDepth 0 (f x) = 0) :
    fuse 0 (xs.flatMap f) = xs.flatMap fun x => fuse 0 (f x) := by
  induction xs with
  | nil => rfl
  | cons x xs ih =>
    rw [List.flatMap_cons, List.flatMap_cons, fuse_append (closed x List.mem_cons_self),
      ih fun y hy => closed y (List.mem_cons_of_mem x hy)]

/-! ## Entries -/

namespace Cursor

/-- How many brackets the type being read is inside. -/
def depth : Cursor → Nat
  | .reading depth => depth
  | .idle | .complete => 0

@[simp] theorem depth_name (depth : Nat) : (Cursor.reading depth).name.depth = depth := by
  cases depth <;> rfl

theorem name_ne_reading_zero (depth : Nat) : (Cursor.reading depth).name ≠ .reading 0 := by
  cases depth with
  | zero => exact Cursor.noConfusion
  | succ depth => exact fun same => Nat.succ_ne_zero depth (Cursor.reading.inj same)

end Cursor

namespace Entry

/-- The lexemes of an entry are tidy, the cursor knows how many brackets are open, a type begins
right after a colon, and arguments come before the type of the field. -/
structure Sound (e : Entry) : Prop where
  tidy : Tidy 0 e.written
  depth : bracketDepth 0 e.written = e.cursor.depth
  colon : e.cursor = .reading 0 → e.written.getLast? = some (.mark .colon)
  outer : e.argument ≠ none → e.field = .idle

theorem Sound.push {e e' : Entry} {l : Lexeme} (h : Sound e)
    (written : e'.written = e.written ++ [l])
    (apart : e.cursor.depth = 0 → isNameLexeme l = true →
      ∀ l' ∈ e.written.getLast?, isNameLexeme l' = false)
    (outside : l = .mark .comma → e.cursor.depth = 0)
    (depth : e'.cursor.depth = l.bracketDepth e.cursor.depth)
    (colon : e'.cursor = .reading 0 → l = .mark .colon)
    (outer : e'.argument ≠ none → e'.field = .idle) : Sound e' where
  tidy := by
    rw [written]
    rw [← h.depth] at apart outside
    exact tidy_append h.tidy apart outside
  depth := by
    rw [written, bracketDepth_append, h.depth, depth]
    rfl
  colon := by
    intro begun
    rw [written, List.getLast?_concat, colon begun]
  outer := outer

/-- A lexeme after which the cursor stands at `c`. -/
theorem Sound.moved {e : Entry} {l : Lexeme} {c : Cursor} (h : Sound e)
    (apart : e.cursor.depth = 0 → isNameLexeme l = true →
      ∀ l' ∈ e.written.getLast?, isNameLexeme l' = false)
    (outside : l = .mark .comma → e.cursor.depth = 0)
    (depth : c.depth = l.bracketDepth e.cursor.depth) (colon : c = .reading 0 → l = .mark .colon) :
    Sound ((e.setCursor c).append [l]) := by
  refine h.push (by simp) apart outside (by simpa using depth) (by simpa using colon) ?_
  have outer := h.outer
  obtain ⟨written, field, argument⟩ := e
  cases argument with
  | none => exact fun no => absurd rfl no
  | some c' => exact fun _ => outer (by simp)

/-- A mark other than a comma and a colon, after which the cursor stands at `c`. -/
theorem Sound.marked {e : Entry} {m : Mark} {c : Cursor} (h : Sound e) (comma : m ≠ .comma)
    (depth : c.depth = (Lexeme.mark m).bracketDepth e.cursor.depth) (begun : c ≠ .reading 0) :
    Sound ((e.setCursor c).append [.mark m]) :=
  h.moved (fun _ no => absurd no Bool.false_ne_true)
    (fun same => absurd (Lexeme.mark.inj same) comma) depth fun same => absurd same begun

/-- Where an argument may begin, the last lexeme is a mark. -/
theorem isNameLexeme_of_atArgument {e : Entry} (h : e.atArgument = true) :
    ∀ l ∈ e.written.getLast?, isNameLexeme l = false := by
  intro l hl
  cases l with
  | mark m => rfl
  | name text => exact absurd h (by simp [atArgument, endsIn, Option.mem_def.mp hl])

/-- **Every move keeps an entry sound.** -/
theorem Sound.step {e e' : Entry} {l : Lexeme} (h : Sound e) (move : Moves e l (.same e')) :
    Sound e' := by
  -- Commas stand where a type is complete, and no bracket is open there.
  have ended : ∀ {c : Cursor}, e.argument = some c → e.cursor = c := fun inside => by
    rw [cursor, inside]
    rfl
  have stays : ∀ ls, e.append ls = (e.setCursor e.cursor).append ls := fun ls => by
    rw [setCursor_eq_self rfl]
  cases move with
  | fieldName outside idle blank =>
    have at_ : e.cursor = .idle := by rw [cursor, outside, idle]; rfl
    rw [stays, at_]
    refine h.moved (fun _ _ l' hl' => ?_) (by simp) (by rw [at_]; rfl) (by simp)
    rw [blank] at hl'
    exact absurd hl' (by simp)
  | argumentName idle begins =>
    rw [stays, ended idle]
    exact h.moved (fun _ _ => isNameLexeme_of_atArgument begins) (by simp)
      (by rw [ended idle]; rfl) (by simp)
  | @nextArgument name complete =>
    have after : Sound ((e.setCursor .idle).append [.mark .comma]) :=
      h.moved (by simp [isNameLexeme]) (fun _ => by rw [ended complete]; rfl)
        (by rw [ended complete]; rfl) (by simp)
    have named := after.moved (l := .name name) (c := .idle) (fun _ _ l' hl' => ?_) (by simp) ?_
      (by simp)
    · simpa using named
    · obtain rfl : Lexeme.mark .comma = l' := by simpa using hl'
      rfl
    · simp [Cursor.depth, Lexeme.bracketDepth]
  | @typeName name depth reading =>
    refine h.moved (fun out _ l' hl' => ?_) (by simp) ?_ fun no =>
      absurd no (Cursor.name_ne_reading_zero depth)
    · rw [reading] at out
      obtain rfl : depth = 0 := out
      rw [h.colon reading] at hl'
      obtain rfl := Option.some.inj hl'
      rfl
    · rw [reading, Cursor.depth_name]
      rfl
  | colon idle begun named =>
    exact h.moved (by simp [isNameLexeme]) (by simp) (by rw [idle]; rfl) fun _ => rfl
  | argumentComma complete =>
    exact h.moved (by simp [isNameLexeme]) (fun _ => by rw [ended complete]; rfl)
      (by rw [ended complete]; rfl) (by simp)
  | passedComma => exact h
  | openBracket reading =>
    exact h.marked (by decide) (by rw [reading]; rfl) (by simp)
  | @closeBracket depth reading =>
    refine h.marked (by decide) ?_ (Cursor.name_ne_reading_zero depth)
    rw [reading, Cursor.depth_name]
    rfl
  | bang busy fits =>
    rw [stays]
    refine h.marked (by decide) rfl fun begun => ?_
    rw [endsIn, h.colon begun] at fits
    exact absurd fits (by decide)
  | openParen outside idle begun =>
    have at_ : e.cursor = .idle := by rw [cursor, outside, idle]; rfl
    exact h.push rfl (by simp [isNameLexeme]) (by simp) (by rw [at_]; rfl) (by simp [cursor])
      fun _ => idle
  | @closeParen c inside resting =>
    have field : e.field = .idle := h.outer (by simp [inside])
    have closed : e.cursor.depth = 0 := by
      rw [ended inside]
      rcases resting with rfl | rfl <;> rfl
    have idle : ({ e.append [.mark .closeParen] with argument := none } : Entry).cursor = .idle :=
      field
    refine h.push rfl (by simp [isNameLexeme]) (by simp) ?_ ?_ fun no => absurd rfl no
    · rw [closed, idle]
      rfl
    · rw [idle]
      exact fun no => Cursor.noConfusion no

theorem sound_empty : Sound {} :=
  ⟨trivial, rfl, fun no => Cursor.noConfusion no, fun no => absurd rfl no⟩

theorem sound_name (name : String) : Sound { written := [.name name] } :=
  sound_empty.push rfl (by simp) (by simp) rfl (fun no => Cursor.noConfusion no)
    fun no => absurd rfl no

/-- The entries of a block are sound and all their brackets are closed. -/
theorem Collects.sound {ls : List Lexeme} {es : List Entry} (h : Collects {} ls es) :
    ∀ e ∈ es, Sound e ∧ bracketDepth 0 e.written = 0 := by
  intro e he
  obtain ⟨sound, outside, complete⟩ := h.all sound_empty Sound.step sound_name e he
  refine ⟨sound, ?_⟩
  rw [sound.depth, cursor, outside, complete]
  rfl

end Entry

/-! ## The entries of a source -/

/-- A body given back: names that meet inside brackets have run together, and nothing else. -/
structure GivenBack (body back : List Lexeme) : Prop where
  fused : back = fuse 0 body
  same_iff : back = body ↔ namesMeet 0 body = false

/-- The entries of a block with fields, read one after another, give the body back, commas apart. -/
def ReadBack (s : Span) (d : Definition) : Prop :=
  ∃ keyword, s.Heads keyword d ∧ (keyword ≠ .enum → keyword ≠ .union →
    s.Braced ∧ ∃ lexed, d.entries.mapM Source.lex = .ok lexed ∧
      GivenBack (content (s.body.map Placed.lexeme)) (content (lexed.flatten.map Placed.lexeme)))

theorem Entry.mapM_lex_text {es : List Entry}
    (writable : ∀ l ∈ es.flatMap Entry.written, isWritable l = true) :
    (es.map Entry.text).mapM Source.lex = .ok (es.map fun e => onLine 1 (merge e.written)) := by
  rw [Success.mapM_eq_ok, List.forall₂_map_left_iff, List.forall₂_map_right_iff, List.forall₂_same]
  exact fun e he => lexFrom_joinedText
    (fun l hl => writable l (List.mem_flatMap.mpr ⟨e, he, hl⟩)) 1

theorem Entry.Collects.content_merge {ls : List Lexeme} {es : List Entry} (h : Collects {} ls es) :
    content (es.flatMap fun e => merge e.written) = fuse 0 (content ls) := by
  have held : content (es.flatMap Entry.written) = content ls := h.content_eq
  have closed : ∀ e ∈ es, bracketDepth 0 (content e.written) = 0 := fun e he =>
    (bracketDepth_content 0 e.written).trans (h.sound e he).2
  calc content (es.flatMap fun e => merge e.written)
      = es.flatMap fun e => content (merge e.written) := List.filter_flatMap
    _ = es.flatMap fun e => fuse 0 (content e.written) :=
        List.flatMap_congr fun e he => SchemaTypegen.content_merge (h.sound e he).1.tidy
    _ = fuse 0 (es.flatMap fun e => content e.written) := (fuse_flatMap _ es closed).symm
    _ = fuse 0 (content ls) := by rw [← held]; exact congrArg _ List.filter_flatMap.symm

theorem Reads.readBack {s : Span} {d : Definition} (h : Reads s d)
    (writable : ∀ p ∈ s.lexemes, isWritable p.lexeme = true) : ReadBack s d := by
  cases h with
  | @fields keyword es heads keeps braced collects same =>
    refine ⟨keyword, heads, fun _ _ =>
      ⟨braced, es.map fun e => onLine 1 (merge e.written), ?_, ?_⟩⟩
    · rw [same]
      refine Entry.mapM_lex_text (collects.isWritable fun l hl => ?_)
      obtain ⟨p, hp, rfl⟩ := List.mem_map.mp hl
      exact writable p (by simp [Span.lexemes, hp])
    · have back : ((es.map fun e => onLine 1 (merge e.written)).flatten).map Placed.lexeme =
          es.flatMap fun e => merge e.written := by
        simp [List.map_flatten, List.flatMap_def, onLine, Function.comp_def]
      rw [back, collects.content_merge]
      exact ⟨rfl, fuse_eq_self_iff 0 _⟩
  | members heads => exact ⟨.enum, heads, fun no => absurd rfl no⟩
  | alternatives heads => exact ⟨.union, heads, fun _ no => absurd rfl no⟩

/-- **Entries are read back up to names that meet inside brackets.** The entries of an accepted
source, read one after another, give the lexemes between the braces, commas apart, with the names
that meet inside brackets run together; and those lexemes themselves exactly if no names meet. -/
theorem Source.entries_read_back {source : String} {ds : List Definition}
    (h : Source.definitions source = .ok ds) :
    ∃ ps, Source.lex (stripMarkers source) = .ok ps ∧ Divided ReadBack ps ds := by
  obtain ⟨ps, lexed, writable, divided⟩ := Source.divided_of_definitions h
  refine ⟨ps, lexed, divided.mono fun s within d reads => ?_⟩
  exact reads.readBack fun p hp => writable p (within p hp)

/-! ### Two names in a list -/

/-- Two names meet inside the brackets. -/
def meetingSource : String := "type T \x7b x: [A B] \x7d"

/-- The definitions of `meetingSource`. -/
def meetingDefinitions : List Definition := [⟨"type", "T", ["x:[AB]"], 1⟩]

/-- The lexemes of `meetingSource`. -/
def meetingLexemes : List Placed := onLine 1
  [.name "type", .name "T", .mark .openBrace, .name "x", .mark .colon, .mark .openBracket,
    .name "A", .name "B", .mark .closeBracket, .mark .closeBrace]

theorem Source.definitions_meetingSource :
    Source.definitions meetingSource = .ok meetingDefinitions :=
  Source.definitions_of_sweep meetingLexemes (by decide) (by rfl)

theorem Source.entries_read_back_meetingSource :
    Source.definitions meetingSource = .ok meetingDefinitions ∧
      ∃ ps, Source.lex (stripMarkers meetingSource) = .ok ps ∧
        Divided ReadBack ps meetingDefinitions :=
  ⟨Source.definitions_meetingSource, Source.entries_read_back Source.definitions_meetingSource⟩

/-- **Names can run together**: `A B` between brackets is accepted, and its entry has one name `AB`
where the source has two. -/
theorem Source.names_run_together :
    Source.definitions meetingSource = .ok meetingDefinitions ∧
      Source.lex (stripMarkers meetingSource) = .ok meetingLexemes ∧
      Source.lex "x:[AB]" = .ok (onLine 1
        [.name "x", .mark .colon, .mark .openBracket, .name "AB", .mark .closeBracket]) := by
  refine ⟨Source.definitions_meetingSource, ?_, ?_⟩
  · exact Source.lex_of_isSpaced (by decide)
  · exact Source.lex_of_isSpaced (by decide)

end SchemaTypegen
