import SchemaTypegen.Proofs.Lexing

/-!
# Every text is read as its words

A text can be put in words in at most one way: trivia, then words, each with the trivia that follows
it, where a name goes on as long as it can. `Wording` is such a way, and `Wording.Of text rest` says
that it is one for a text in front of `rest`. The words are found one by one from the front, so two
wordings of the same text agree as far as the shorter of them goes (`exists_append`), and a text has
a longest beginning that can be put in words (`exists_of`, `Of.longest`).

* **`lex_exact`**: the lexemes of a text are the words of its only wording, each on the line that
  the line ends before it give; a text without one is refused at the character that follows its
  longest beginning with one.
-/

namespace SchemaTypegen

open Text Grammar

namespace Source

/-! ## Words -/

/-- A text in words: trivia, then words, each with the trivia that follows it. -/
structure Wording where
  lead : List Char
  words : List (Lexeme × List Char)

namespace Wording

/-- The characters of words and of the trivia after each of them. -/
def wordsText (words : List (Lexeme × List Char)) : List Char :=
  words.flatMap fun w => w.1.text.toList ++ w.2

/-- The characters of a text in words. -/
def text (w : Wording) : List Char := w.lead ++ wordsText w.words

/-- Words each with its line, which is one more than the number of line ends before it. The text
`before` stands before the first word. -/
def placedAfter (before : List Char) : List (Lexeme × List Char) → List Placed
  | [] => []
  | (l, gap) :: words =>
    ⟨l, 1 + before.count '\n'⟩ :: placedAfter (before ++ l.text.toList ++ gap) words

/-- The words of a text, each with its line. -/
def placed (w : Wording) : List Placed := placedAfter w.lead w.words

/-- Every word is a name or a mark with only trivia after it, and no name is directly followed by a
character that it could go on with. The text `rest` stands after the last word. -/
inductive Fits (rest : List Char) : List (Lexeme × List Char) → Prop where
  | nil : Fits rest []
  | cons {l : Lexeme} {gap : List Char} {words : List (Lexeme × List Char)}
      (writable : isWritable l = true) (trivia : ∀ c ∈ gap, isTrivia c = true)
      (ends : isNameLexeme l = true →
        ∀ c ∈ (gap ++ (wordsText words ++ rest)).head?, isNameChar c = false)
      (others : Fits rest words) : Fits rest ((l, gap) :: words)

/-- The wording is one of `text` where `rest` follows. -/
structure Of (w : Wording) (text rest : List Char) : Prop where
  lead : ∀ c ∈ w.lead, isTrivia c = true
  words : Fits rest w.words
  text : w.text = text

theorem wordsText_cons (l : Lexeme) (gap : List Char) (words : List (Lexeme × List Char)) :
    wordsText ((l, gap) :: words) = l.text.toList ++ (gap ++ wordsText words) := by
  rw [wordsText, List.flatMap_cons, List.append_assoc]
  rfl

end Wording

/-- A character that is no trivia and begins no lexeme. -/
def isStray (c : Char) : Bool := !isTrivia c && !isNameStart c && (Mark.ofChar? c).isNone

/-! ## The first word -/

/-- The first character of a lexeme is no trivia and not stray. -/
theorem head?_text {l : Lexeme} (writable : isWritable l = true) (text : List Char) :
    ∃ c ∈ (l.text.toList ++ text).head?, isTrivia c = false ∧ isStray c = false ∧
      isNameChar c = isNameLexeme l := by
  cases l with
  | name name =>
    obtain ⟨c, rest, spelled, start, -⟩ := isName_iff.mp writable
    have named : isNameChar c = true := isNameChar_of_isNameStart start
    refine ⟨c, ?_, isTrivia_eq_false_of_isNameChar named, ?_, named⟩
    · rw [Lexeme.text, spelled]
      rfl
    · simp [isStray, start]
  | mark m =>
    refine ⟨m.char, ?_, m.isTrivia_char, ?_, m.isNameChar_char⟩
    · rw [Mark.toList_text]
      rfl
    · simp [isStray, Mark.ofChar?_char]

/-- **The first word of a text is determined**, and so is what follows it. -/
theorem text_append_inj {l l' : Lexeme} {text text' : List Char} (writable : isWritable l = true)
    (writable' : isWritable l' = true)
    (ends : isNameLexeme l = true → ∀ c ∈ text.head?, isNameChar c = false)
    (ends' : isNameLexeme l' = true → ∀ c ∈ text'.head?, isNameChar c = false)
    (h : l.text.toList ++ text = l'.text.toList ++ text') : l = l' ∧ text = text' := by
  have sort : isNameLexeme l = isNameLexeme l' := by
    obtain ⟨c, first, -, -, hc⟩ := head?_text writable text
    obtain ⟨c', first', -, -, hc'⟩ := head?_text writable' text'
    rw [h] at first
    obtain rfl := Option.some.inj (first.symm.trans first')
    exact hc.symm.trans hc'
  cases l with
  | name name =>
    cases l' with
    | mark m => exact absurd sort.symm Bool.false_ne_true
    | name name' =>
      obtain ⟨same, rest⟩ := append_inj_of_class (p := isNameChar)
        (fun _ hc => Name.isNameChar_of_mem ⟨name, writable⟩ hc)
        (fun _ hc => Name.isNameChar_of_mem ⟨name', writable'⟩ hc) (ends rfl) (ends' rfl) h
      exact ⟨congrArg Lexeme.name (String.toList_inj.mp same), rest⟩
  | mark m =>
    cases l' with
    | name name' => exact absurd sort Bool.false_ne_true
    | mark m' =>
      rw [Mark.toList_text, Mark.toList_text] at h
      obtain ⟨same, rest⟩ := List.cons.inj h
      have marks : some m = some m' := by
        rw [← Mark.ofChar?_char m, ← Mark.ofChar?_char m', same]
      exact ⟨congrArg Lexeme.mark (Option.some.inj marks), rest⟩

/-! ## Wordings agree -/

namespace Wording

theorem isTrivia_head?_text {l : Lexeme} (writable : isWritable l = true) (text : List Char) :
    ∀ c ∈ (l.text.toList ++ text).head?, isTrivia c = false := by
  intro c hc
  obtain ⟨d, first, plain, -⟩ := head?_text writable text
  obtain rfl := Option.some.inj (hc.symm.trans first)
  exact plain

/-- What follows trivia is a word, or it cannot be put in words. -/
theorem isTrivia_head? {words : List (Lexeme × List Char)} {rest : List Char}
    (fits : Fits rest words) (stuck : ∀ c ∈ rest.head?, isStray c = true) :
    ∀ c ∈ (wordsText words ++ rest).head?, isTrivia c = false := by
  cases fits with
  | nil =>
    intro c hc
    have stray := stuck c hc
    simp only [isStray, Bool.and_eq_true, Bool.not_eq_true'] at stray
    exact stray.1.1
  | cons writable =>
    rw [wordsText_cons, List.append_assoc]
    exact isTrivia_head?_text writable _

theorem eq_nil_of_wordsText {words : List (Lexeme × List Char)} {rest : List Char}
    (fits : Fits rest words) (h : wordsText words = []) : words = [] := by
  cases fits with
  | nil => rfl
  | @cons l gap words writable trivia ends others =>
    obtain ⟨c, first, -⟩ := head?_text writable (gap ++ wordsText words)
    rw [← wordsText_cons, h] at first
    exact absurd first (by simp)

/-- A run of trivia at the beginning of a text is part of the longest one. -/
theorem exists_trivia_append {lead lead' text text' : List Char}
    (trivia' : ∀ c ∈ lead', isTrivia c = true) (stops : ∀ c ∈ text.head?, isTrivia c = false)
    (h : lead ++ text = lead' ++ text') : ∃ more, lead = lead' ++ more ∧ text' = more ++ text := by
  rcases List.append_eq_append_iff.mp h with ⟨more, rfl, rest⟩ | ⟨more, rfl, rest⟩
  · -- What `lead'` has more would be trivia at the beginning of `text`.
    cases more with
    | nil => exact ⟨[], by simp, by simpa using rest.symm⟩
    | cons c more =>
      have plain := stops c (by rw [rest]; rfl)
      rw [trivia' c (by simp)] at plain
      exact absurd plain Bool.noConfusion
  · exact ⟨more, rfl, rest⟩

/-- **Two wordings agree as far as the shorter goes**, if the other goes as far as it can. -/
theorem exists_append {rest rest' : List Char} (stuck : ∀ c ∈ rest.head?, isStray c = true)
    {words' : List (Lexeme × List Char)} (fits' : Fits rest' words') :
    ∀ {lead lead' : List Char} {words : List (Lexeme × List Char)},
      (∀ c ∈ lead, isTrivia c = true) → (∀ c ∈ lead', isTrivia c = true) → Fits rest words →
      lead ++ (wordsText words ++ rest) = lead' ++ (wordsText words' ++ rest') →
      ∃ more, rest' = more ++ rest ∧ (more = [] → lead = lead' ∧ words = words') := by
  induction fits' with
  | nil =>
    intro lead lead' words _ trivia' fits h
    obtain ⟨more, rfl, after⟩ := exists_trivia_append trivia' (isTrivia_head? fits stuck) h
    refine ⟨more ++ wordsText words, by rw [List.append_assoc]; exact after, fun none => ?_⟩
    obtain ⟨rfl, noWords⟩ := List.append_eq_nil_iff.mp none
    exact ⟨List.append_nil _, eq_nil_of_wordsText fits noWords⟩
  | @cons l' gap' words' writable' gapTrivia' ends' _ ih =>
    intro lead lead' words trivia trivia' fits h
    -- The trivia is the same, so the same word comes next, if one does.
    rw [wordsText_cons, List.append_assoc] at h
    obtain ⟨rfl, word⟩ := append_inj_of_class trivia trivia' (isTrivia_head? fits stuck)
      (isTrivia_head?_text writable' _) h
    cases fits with
    | nil =>
      obtain ⟨c, first, -, begins, -⟩ := head?_text writable' (gap' ++ wordsText words' ++ rest')
      rw [← word] at first
      exact absurd (begins.symm.trans (stuck c first)) Bool.false_ne_true
    | @cons l gap words writable gapTrivia ends others =>
      rw [wordsText_cons, List.append_assoc, List.append_assoc, List.append_assoc] at word
      obtain ⟨rfl, next⟩ := text_append_inj writable writable' ends ends' word
      obtain ⟨more, after, same⟩ := ih gapTrivia gapTrivia' others next
      refine ⟨more, after, fun none => ?_⟩
      obtain ⟨rfl, rfl⟩ := same none
      exact ⟨rfl, rfl⟩

/-! ## Wordings are read -/

theorem count_text {l : Lexeme} (writable : isWritable l = true) :
    l.text.toList.count '\n' = 0 := by
  refine List.count_eq_zero_of_not_mem fun mem => ?_
  cases l with
  | name name => exact absurd (Name.isNameChar_of_mem ⟨name, writable⟩ mem) (by decide)
  | mark m =>
    rw [Mark.toList_text, List.mem_singleton] at mem
    exact absurd (mem ▸ m.isTrivia_char) (by decide)

/-- Words are read as themselves, each on its line. -/
theorem lexFrom_wordsText {words : List (Lexeme × List Char)} {rest : List Char}
    (fits : Fits rest words) : ∀ before : List Char,
    lexFrom (1 + before.count '\n') (wordsText words ++ rest) =
      (lexFrom (1 + (before ++ wordsText words).count '\n') rest).map
        (placedAfter before words ++ ·) := by
  induction fits with
  | nil =>
    intro before
    cases h : lexFrom (1 + before.count '\n') rest <;> simp [wordsText, placedAfter, h, Except.map]
  | @cons l gap words writable trivia ends _ ih =>
    intro before
    have line : 1 + before.count '\n' + gap.count '\n' =
        1 + (before ++ l.text.toList ++ gap).count '\n' := by
      rw [List.count_append, List.count_append, count_text writable]
      omega
    have all : before ++ wordsText ((l, gap) :: words) =
        before ++ l.text.toList ++ gap ++ wordsText words := by
      rw [wordsText_cons]
      simp only [List.append_assoc]
    rw [all, wordsText_cons, List.append_assoc, List.append_assoc, lexFrom_text writable _ ends,
      lexFrom_trivia trivia, line, ih]
    cases lexFrom (1 + (before ++ l.text.toList ++ gap ++ wordsText words).count '\n') rest <;> rfl

/-! ## How far a text can be put in words -/

theorem Of.trivia {w : Wording} {c : Char} {text rest : List Char} (h : w.Of text rest)
    (trivia : isTrivia c = true) : Of ⟨c :: w.lead, w.words⟩ (c :: text) rest where
  lead := List.forall_mem_cons.mpr ⟨trivia, h.lead⟩
  words := h.words
  text := congrArg (c :: ·) h.text

theorem Of.word {w : Wording} {l : Lexeme} {text rest : List Char} (h : w.Of text rest)
    (writable : isWritable l = true)
    (ends : isNameLexeme l = true → ∀ c ∈ (text ++ rest).head?, isNameChar c = false) :
    Of ⟨[], (l, w.lead) :: w.words⟩ (l.text.toList ++ text) rest where
  lead := by simp
  words := by
    refine .cons writable h.lead ?_ h.words
    rwa [← List.append_assoc, ← Wording.text, h.text]
  text := by
    rw [Wording.text, List.nil_append, wordsText_cons, ← h.text]
    rfl

/-- **Every text begins with a wording** that goes as far as it can. -/
theorem exists_of (text : List Char) : ∃ (w : Wording) (front rest : List Char),
    text = front ++ rest ∧ w.Of front rest ∧ ∀ c ∈ rest.head?, isStray c = true := by
  fun_induction lexFrom 1 text with
  | case1 => exact ⟨⟨[], []⟩, [], [], rfl, ⟨by simp, .nil, rfl⟩, by simp⟩
  | case2 line rest ih =>
    obtain ⟨w, front, after, rfl, worded, stuck⟩ := ih
    exact ⟨_, _, after, rfl, worded.trivia (by decide), stuck⟩
  | case3 line c rest _ trivia ih =>
    obtain ⟨w, front, after, rfl, worded, stuck⟩ := ih
    exact ⟨_, _, after, rfl, worded.trivia trivia, stuck⟩
  | case4 line c rest _ _ start name ih =>
    obtain ⟨w, front, after, tail, worded, stuck⟩ := ih
    have spelled : name.toList = c :: rest.takeWhile isNameChar := String.toList_ofList
    have valid : isName name = true :=
      isName_iff.mpr ⟨c, _, spelled, start, List.all_eq_true.mp List.all_takeWhile⟩
    refine ⟨_, _, after, ?_, worded.word (l := .name name) valid fun _ d hd => ?_, stuck⟩
    · rw [List.append_assoc, ← tail, Lexeme.text, spelled, List.cons_append,
        List.takeWhile_append_dropWhile]
    · rw [← tail] at hd
      have stops := List.head?_dropWhile_not isNameChar rest
      rw [Option.mem_def.mp hd] at stops
      simpa using stops
  | case5 line c rest _ _ _ m found ih =>
    obtain ⟨w, front, after, rfl, worded, stuck⟩ := ih
    obtain rfl : m.char = c := by simpa using List.find?_some found
    refine ⟨_, _, after, ?_, worded.word (l := .mark m) rfl (by simp [isNameLexeme]), stuck⟩
    rw [Mark.toList_text]
    rfl
  | case6 line c rest _ plain start none =>
    refine ⟨⟨[], []⟩, [], c :: rest, rfl, ⟨by simp, .nil, rfl⟩, ?_⟩
    simpa [isStray, none] using And.intro plain start

/-- A text that is put in words is read up to its end, and what follows it then. -/
theorem Of.lexFrom_append {w : Wording} {text rest : List Char} (h : w.Of text rest) :
    lexFrom 1 (text ++ rest) =
      (lexFrom (1 + text.count '\n') rest).map (w.placed ++ ·) := by
  have read := lexFrom_wordsText h.words w.lead
  rw [← h.text, Wording.text, List.append_assoc, lexFrom_trivia h.lead]
  exact read

/-- A wording that goes as far as it can is as long as any, and the only one of its length. -/
theorem Of.longest {w w' : Wording} {text text' rest rest' : List Char} (h : w.Of text rest)
    (stuck : ∀ c ∈ rest.head?, isStray c = true) (h' : w'.Of text' rest')
    (same : text ++ rest = text' ++ rest') :
    text'.length ≤ text.length ∧ (rest' = rest → w' = w) := by
  have whole := same
  rw [← h.text, ← h'.text, Wording.text, Wording.text, List.append_assoc, List.append_assoc] at same
  obtain ⟨more, after, agree⟩ := exists_append stuck h'.words h.lead h'.lead h.words same
  constructor
  · have lengths := congrArg List.length whole
    rw [after] at lengths
    simp only [List.length_append] at lengths
    omega
  · intro equal
    obtain ⟨lead, words⟩ := agree (List.self_eq_append_left.mp (equal.symm.trans after))
    obtain ⟨lead₁, words₁⟩ := w
    obtain ⟨lead₂, words₂⟩ := w'
    subst lead words
    rfl

end Wording

/-- A text can be put in words up to the character `c` and no further: `front` is its longest
beginning with a wording, in which the last name goes on as long as it can. -/
structure BreaksAt (text front : List Char) (c : Char) : Prop where
  worded : ∃ rest, text = front ++ c :: rest ∧ ∃ w : Wording, w.Of front (c :: rest)
  longest : ∀ front' rest', text = front' ++ rest' → (∃ w : Wording, w.Of front' rest') →
    front'.length ≤ front.length
  trivia : isTrivia c = false
  start : isNameStart c = false
  mark : ∀ m : Mark, m.char ≠ c

theorem breaksAt_of {w : Wording} {front rest : List Char} {c : Char}
    (worded : w.Of front (c :: rest)) (stray : isStray c = true) :
    BreaksAt (front ++ c :: rest) front c := by
  have stuck : ∀ d ∈ (c :: rest).head?, isStray d = true := by simpa using stray
  simp only [isStray, Bool.and_eq_true, Bool.not_eq_true', Option.isNone_iff_eq_none] at stray
  obtain ⟨⟨trivia, start⟩, mark⟩ := stray
  refine ⟨⟨rest, rfl, w, worded⟩, ?_, trivia, start, ?_⟩
  · rintro front' rest' same ⟨w', worded'⟩
    exact (worded.longest stuck worded' same).1
  · rintro m rfl
    rw [Mark.ofChar?_char] at mark
    exact absurd mark (Option.some_ne_none m)

/-- A stray character is refused on its line. -/
theorem lexFrom_stray {c : Char} (stray : isStray c = true) (line : Nat) (rest : List Char) :
    lexFrom line (c :: rest) = .error (.malformed line (.strayCharacter c)) := by
  simp only [isStray, Bool.and_eq_true, Bool.not_eq_true', Option.isNone_iff_eq_none] at stray
  obtain ⟨⟨trivia, start⟩, mark⟩ := stray
  have newline : c ≠ '\n' := by
    rintro rfl
    exact absurd trivia (by decide)
  rw [lexFrom, if_neg newline, trivia, if_neg Bool.false_ne_true, start, if_neg Bool.false_ne_true,
    mark]

/-- **Reading is exact.** A text that can be put in words can be in one way only, and it is read as
these words, each with its line. Any other text is refused where it cannot be put in words any
further, with an error that names the line and the character there. -/
theorem lex_exact (source : String) :
    (∃ w : Wording, w.Of source.toList [] ∧ (∀ w' : Wording, w'.Of source.toList [] → w' = w) ∧
      lex source = .ok w.placed) ∨
    (¬ ∃ w : Wording, w.Of source.toList []) ∧ ∃ front c e, BreaksAt source.toList front c ∧
      lex source = .error e ∧ e = .malformed (1 + front.count '\n') (.strayCharacter c) ∧
      e.message = "Malformed definition at line " ++ toString (1 + front.count '\n') ++ ": " ++
        ("unexpected character `" ++ c.toString ++ "`") := by
  obtain ⟨w, front, rest, whole, worded, stuck⟩ := Wording.exists_of source.toList
  have read : lex source = (lexFrom (1 + front.count '\n') rest).map (w.placed ++ ·) := by
    rw [lex, whole, worded.lexFrom_append]
  cases rest with
  | nil =>
    rw [List.append_nil] at whole
    subst whole
    refine Or.inl ⟨w, worded, fun w' worded' => (worded.longest stuck worded' rfl).2 rfl, ?_⟩
    rw [read, lexFrom_nil, Except.map, List.append_nil]
  | cons c rest =>
    have stray : isStray c = true := stuck c rfl
    refine Or.inr ⟨?_, front, c, _, whole ▸ breaksAt_of worded stray, ?_, rfl, rfl⟩
    · -- A wording of the whole would be longer than the longest.
      rintro ⟨w', worded'⟩
      have longer := (worded.longest stuck worded' (by rw [List.append_nil]; exact whole.symm)).1
      rw [whole, List.length_append, List.length_cons] at longer
      omega
    · rw [read, lexFrom_stray stray]
      rfl

end Source

end SchemaTypegen
