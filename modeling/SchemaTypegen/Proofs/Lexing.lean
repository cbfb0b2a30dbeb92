import SchemaTypegen.Proofs.Grammar.Layout
import SchemaTypegen.Proofs.Success
import SchemaTypegen.Proofs.Text

/-!
# Lexing a layout

What `lexFrom` makes of each piece of a text: a gap, a name, a mark. A gap gives nothing and moves
the line on by its line ends; a name that no name character follows gives one lexeme, and so does a
mark. Put together in `lexFrom_of_spaced`: the characters of spaced lexemes are read as exactly
these lexemes, on exactly their lines. `filter_of_marked` takes insertion markers out again.

Of any text at all, `isWritable_of_mem_lexFrom` says that what is read as a name is one.
-/

namespace SchemaTypegen

open Text Grammar

/-! ## The classes of characters exclude each other -/

theorem isTrivia_eq_false_of_isNameChar {c : Char} (h : isNameChar c = true) :
    Source.isTrivia c = false := by
  have hn := toNat_of_isNameChar h
  have hmark : c ≠ Char.ofNat 0xFEFF := by
    rintro rfl
    exact absurd hn (by decide)
  simp only [Source.isTrivia, isBlank, isControl, Bool.or_eq_false_iff, Bool.and_eq_false_iff,
    decide_eq_false_iff_not, beq_eq_false_iff_ne, ne_eq]
  refine ⟨⟨?_, ?_⟩, hmark⟩ <;> omega

theorem Mark.isTrivia_char (m : Mark) : Source.isTrivia m.char = false := by
  cases m <;> decide

theorem Mark.isNameChar_char (m : Mark) : isNameChar m.char = false := by
  cases m <;> decide

theorem Mark.toList_text (m : Mark) : (Lexeme.mark m).text.toList = [m.char] := by
  cases m <;> decide

theorem isNameChar_eq_false_of_isGap {c : Char} (h : isGap c = true) : isNameChar c = false := by
  rw [isGap, Bool.and_eq_true] at h
  cases hc : isNameChar c with
  | false => rfl
  | true =>
    rw [isTrivia_eq_false_of_isNameChar hc] at h
    exact absurd h.1 Bool.false_ne_true

namespace Source

/-! ## One piece at a time -/

theorem lexFrom_nil (line : Nat) : lexFrom line [] = .ok [] := by
  rw [lexFrom]

/-- Trivia gives no lexeme and moves the line on by its line ends. -/
theorem lexFrom_trivia {gap : List Char} (trivia : ∀ c ∈ gap, isTrivia c = true) (line : Nat)
    (text : List Char) : lexFrom line (gap ++ text) = lexFrom (line + gap.count '\n') text := by
  induction gap generalizing line with
  | nil => rfl
  | cons c gap ih =>
    have hc : isTrivia c = true := trivia c List.mem_cons_self
    have ih := ih fun d hd => trivia d (List.mem_cons_of_mem c hd)
    rw [List.cons_append, lexFrom]
    by_cases hnl : c = '\n'
    · rw [if_pos hnl, ih, hnl, List.count_cons_self]
      congr 1
      omega
    · rw [if_neg hnl, if_pos hc, ih, List.count_cons_of_ne hnl]

theorem lexFrom_gap {gap : List Char} (trivia : ∀ c ∈ gap, isGap c = true) (line : Nat)
    (text : List Char) : lexFrom line (gap ++ text) = lexFrom (line + gap.count '\n') text :=
  lexFrom_trivia (fun c hc => (Bool.and_eq_true_iff.mp (trivia c hc)).1) line text

/-- A name gives one lexeme when no name character follows it. -/
theorem lexFrom_name {name : String} (valid : isName name = true) (line : Nat) {text : List Char}
    (stops : ∀ c ∈ text.head?, isNameChar c = false) :
    lexFrom line (name.toList ++ text) = (lexFrom line text).map (⟨.name name, line⟩ :: ·) := by
  obtain ⟨c, rest, hname, hc, hrest⟩ := isName_iff.mp valid
  have htrivia : isTrivia c = false :=
    isTrivia_eq_false_of_isNameChar (isNameChar_of_isNameStart hc)
  have hnl : c ≠ '\n' := by
    rintro rfl
    exact absurd htrivia (by decide)
  have hstop : text.takeWhile isNameChar = [] ∧ text.dropWhile isNameChar = text := by
    cases text with
    | nil => exact ⟨rfl, rfl⟩
    | cons d text =>
      have hd : isNameChar d = false := stops d rfl
      exact ⟨by rw [List.takeWhile_cons, hd]; rfl, by rw [List.dropWhile_cons, hd]; rfl⟩
  rw [hname, List.cons_append, lexFrom, if_neg hnl, htrivia, if_neg Bool.false_ne_true, if_pos hc,
    List.takeWhile_append_of_pos hrest, List.dropWhile_append_of_pos hrest, hstop.1, hstop.2,
    List.append_nil, ← hname, String.ofList_toList]

/-- A mark gives one lexeme. -/
theorem lexFrom_mark (m : Mark) (line : Nat) (text : List Char) :
    lexFrom line (m.char :: text) = (lexFrom line text).map (⟨.mark m, line⟩ :: ·) := by
  have hstart : isNameStart m.char = false := by cases m <;> decide
  have hnl : m.char ≠ '\n' := by cases m <;> decide
  rw [lexFrom, if_neg hnl, m.isTrivia_char, if_neg Bool.false_ne_true, hstart,
    if_neg Bool.false_ne_true, Mark.ofChar?_char]

/-- A lexeme is read as itself. -/
theorem lexFrom_text {l : Lexeme} (writable : isWritable l = true) (line : Nat) {text : List Char}
    (stops : isNameLexeme l = true → ∀ c ∈ text.head?, isNameChar c = false) :
    lexFrom line (l.text.toList ++ text) = (lexFrom line text).map (⟨l, line⟩ :: ·) := by
  cases l with
  | name name => exact lexFrom_name writable line (stops rfl)
  | mark m => rw [Mark.toList_text, List.singleton_append, lexFrom_mark]

/-! ## A whole text -/

/-- After a name, spaced lexemes do not begin with a name character. -/
theorem head_of_spaced {line : Nat} {ps : List Placed} {text : List Char}
    (h : Spaced true line ps text) : ∀ c ∈ text.head?, isNameChar c = false := by
  intro c hc
  cases h with
  | done trivia => exact isNameChar_eq_false_of_isGap (trivia c (List.mem_of_mem_head? hc))
  | @lexeme _ _ gap text l ps trivia apart writable rest =>
    cases gap with
    | cons d gap =>
      obtain rfl : d = c := by simpa using hc
      exact isNameChar_eq_false_of_isGap (trivia d List.mem_cons_self)
    | nil =>
      cases l with
      | name name => exact absurd rfl (apart rfl rfl)
      | mark m =>
        rw [List.nil_append, Mark.toList_text] at hc
        obtain rfl : m.char = c := by simpa using hc
        exact m.isNameChar_char

/-- **Spaced lexemes are read as themselves**, each on its line. -/
theorem lexFrom_of_spaced {afterName : Bool} {line : Nat} {ps : List Placed} {text : List Char}
    (h : Spaced afterName line ps text) : lexFrom line text = .ok ps := by
  induction h with
  | done trivia =>
    have := lexFrom_gap trivia ‹Nat› []
    rw [List.append_nil, lexFrom_nil] at this
    exact this
  | @lexeme _ line gap text l ps trivia apart writable rest ih =>
    rw [List.append_assoc, lexFrom_gap trivia, lexFrom_text writable, ih]
    · rfl
    · exact fun named => head_of_spaced (named ▸ rest)

/-- Spaced lexemes hold no insertion marker. -/
theorem marker_notMem_of_spaced {afterName : Bool} {line : Nat} {ps : List Placed}
    {text : List Char} (h : Spaced afterName line ps text) : marker ∉ text := by
  have apartFrom : ∀ gap : List Char, (∀ c ∈ gap, isGap c = true) → marker ∉ gap :=
    fun gap trivia hm => absurd (trivia marker hm) (by decide)
  induction h with
  | done trivia => exact apartFrom _ trivia
  | @lexeme _ _ gap text l ps trivia _ writable _ ih =>
    rw [List.append_assoc, List.mem_append, List.mem_append, not_or, not_or]
    refine ⟨apartFrom gap trivia, ?_, ih⟩
    cases l with
    | name name =>
      exact fun hm => absurd (Name.isNameChar_of_mem ⟨name, writable⟩ hm) (by decide)
    | mark m =>
      rw [Mark.toList_text, List.mem_singleton]
      cases m <;> decide

/-- Taking out insertion markers gives back the text they were put into. -/
theorem filter_of_marked {text source : List Char} (h : Marked text source)
    (unmarked : marker ∉ text) : source.filter (· != marker) = text := by
  induction h with
  | nil => rfl
  | @char c text source _ ih =>
    rw [List.mem_cons, not_or] at unmarked
    have kept : (c != marker) = true := bne_iff_ne.mpr (Ne.symm unmarked.1)
    rw [List.filter_cons, kept, if_pos rfl, ih unmarked.2]
  | marker _ ih => rw [List.filter_cons_of_neg (by simp), ih unmarked]

/-- **The lexemes of a rendered schema** are the lexemes it was written with. -/
theorem lex_stripMarkers_of_spaced {ps : List Placed} {text : List Char} {source : String}
    (spaced : Spaced false 1 ps text) (marked : Marked text source.toList) :
    lex (stripMarkers source) = .ok ps := by
  rw [lex, stripMarkers, String.toList_ofList,
    filter_of_marked marked (marker_notMem_of_spaced spaced)]
  exact lexFrom_of_spaced spaced

/-! ## Any text -/

/-- What is read as a name is one. -/
theorem isWritable_of_mem_lexFrom {line : Nat} {text : List Char} {ps : List Placed}
    (h : lexFrom line text = .ok ps) : ∀ p ∈ ps, isWritable p.lexeme = true := by
  fun_induction lexFrom line text generalizing ps with
  | case1 line =>
    obtain rfl : [] = ps := Except.ok.inj h
    exact fun p hp => absurd hp List.not_mem_nil
  | case2 line rest ih => exact ih h
  | case3 line c rest _ _ ih => exact ih h
  | case4 line c rest _ _ start name =>
    rename_i ih
    obtain ⟨qs, read, rfl⟩ := Success.map_eq_ok.mp h
    intro p hp
    rcases List.mem_cons.mp hp with rfl | hp
    · refine isName_iff.mpr ⟨c, rest.takeWhile isNameChar, String.toList_ofList, start, ?_⟩
      exact List.all_eq_true.mp List.all_takeWhile
    · exact ih read p hp
  | case5 line c rest _ _ _ m _ ih =>
    obtain ⟨qs, read, rfl⟩ := Success.map_eq_ok.mp h
    intro p hp
    rcases List.mem_cons.mp hp with rfl | hp
    · rfl
    · exact ih read p hp
  | case6 line c rest _ _ _ _ => exact absurd h (by simp)

end Source

end SchemaTypegen
