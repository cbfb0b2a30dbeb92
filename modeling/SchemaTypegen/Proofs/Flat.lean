import SchemaTypegen.Proofs.Division.Colons

/-!
# The flat text of a definition

The flat text of a definition has two colons between its parts, and entries have colons of their
own. Splitting at two colons gives the parts back all the same: no part has two colons next to each
other or one at an end, because of where the colons of an entry stand.

* `split_intercalate`: joining and splitting, for parts in which no separator begins.
* `Reads.isPart`: the parts of a definition of a source are such parts.
* **`flat_splits`**: the parts are found again in the flat text.
-/

namespace SchemaTypegen

open Text Grammar

/-! ## Joining and splitting -/

namespace Text

open String.Slice.Pattern.Model

/-- No separator begins in a part, even if a separator follows it. -/
def ClearOf (sep part : String) : Prop :=
  ∀ before rest, part = before ++ rest → rest ≠ "" →
    ∀ tail after, rest ++ (sep ++ tail) ≠ sep ++ after

/-- Between the ends of a part that the end of the text or a separator follows, no separator is
found. -/
theorem ClearOf.not_matchesAt {sep part tail read : String} (clear : ClearOf sep part)
    {s : String.Slice} {start stop : s.Pos} (begins : start.Splits read (part ++ tail))
    (ends : stop.Splits (read ++ part) tail) (follows : tail = "" ∨ ∃ more, tail = sep ++ more) :
    ∀ p : s.Pos, start ≤ p → p < stop → ¬ MatchesAt sep p := by
  intro p after before found
  obtain ⟨left, right, here⟩ := ForwardStringSearcher.matchesAt_iff_splits.mp found
  obtain ⟨passed, rfl, -⟩ := (begins.le_iff_exists_eq_append here).mp after
  obtain ⟨rest, filled, whole, agrees⟩ := (here.lt_iff_exists_eq_append ends).mp before
  rw [String.append_assoc, String.append_right_inj] at whole
  rcases follows with rfl | ⟨more, rfl⟩
  · rw [String.append_empty] at agrees
    refine clear passed rest whole filled "" (right ++ sep) ?_
    rw [String.append_empty, ← agrees, String.append_assoc]
  · exact clear passed rest whole filled more right agrees.symm

theorem copy_subslice {part tail read : String} {s : String.Slice} {start stop : s.Pos}
    (begins : start.Splits read (part ++ tail)) (ends : stop.Splits (read ++ part) tail)
    (le : start ≤ stop) : (s.subslice start stop le).copy = part := by
  obtain ⟨_, same⟩ := String.Slice.copy_slice_eq_iff_splits.mpr ⟨read, tail, begins, ends⟩
  exact same

/-- From where the joined parts begin, splitting gives the parts. -/
theorem map_copy_split {sep : String} [StrictPatternModel sep] {parts : List String}
    (filled : parts ≠ []) (clear : ∀ part ∈ parts, ClearOf sep part) {s : String.Slice}
    {start : s.Pos} {read : String} (begins : start.Splits read (sep.intercalate parts)) :
    (String.Slice.Pattern.Model.split sep start start (String.Slice.Pos.le_refl start)).map
      String.Slice.Subslice.copy = parts := by
  induction parts generalizing start read with
  | nil => exact absurd rfl filled
  | cons part parts ih =>
    have first := clear part List.mem_cons_self
    cases parts with
    | nil =>
      rw [String.intercalate_singleton, ← @String.append_empty part] at begins
      have ends : s.endPos.Splits (read ++ part) "" := by
        rw [String.Slice.splits_endPos_iff, begins.eq_append, String.append_empty]
        exact ⟨rfl, rfl⟩
      have le : start ≤ s.endPos := start.le_endPos
      rw [split_eq_of_not_matchesAt s.endPos le (first.not_matchesAt begins ends (Or.inl rfl)),
        split_endPos, List.map_singleton, copy_subslice begins ends]
    | cons next parts =>
      rw [String.intercalate_cons_cons, String.append_assoc] at begins
      have whole : s.copy = read ++ part ++ (sep ++ sep.intercalate (next :: parts)) := by
        rw [begins.eq_append, String.append_assoc]
      have ends := String.Slice.Pos.splits_ofEqAppend whole
      have whole' : s.copy = read ++ part ++ sep ++ sep.intercalate (next :: parts) := by
        rw [whole, @String.append_assoc (read ++ part)]
      have goesOn := String.Slice.Pos.splits_ofEqAppend whole'
      have le := (begins.le_iff_exists_eq_append ends).mpr ⟨part, rfl, rfl⟩
      have found := ForwardStringSearcher.isLongestMatchAt_iff_splits.mpr ⟨_, _, ends, goesOn⟩
      rw [split_eq_of_not_matchesAt _ le (first.not_matchesAt begins ends (Or.inr ⟨_, rfl⟩)),
        split_eq_of_isLongestMatchAt found, List.map_cons, copy_subslice begins ends,
        ih (List.cons_ne_nil next parts) (fun p hp => clear p (List.mem_cons_of_mem part hp))
          goesOn]

/-- **Splitting gives the parts back** that were joined, if no separator begins in any of them. -/
theorem split_intercalate {sep : String} (hsep : sep ≠ "") {parts : List String}
    (filled : parts ≠ []) (clear : ∀ part ∈ parts, ClearOf sep part) :
    ((sep.intercalate parts).split sep).toList.map String.Slice.copy = parts := by
  have := ForwardStringSearcher.strictPatternModel hsep
  have := ForwardStringSearcher.lawfulToForwardSearcherModel hsep
  have begins := String.Slice.splits_startPos (sep.intercalate parts).toSlice
  rw [String.copy_toSlice] at begins
  rw [String.split_eq_split_toSlice, String.Slice.toList_split_eq_splitToSubslice,
    String.Slice.Pattern.toList_splitToSubslice_eq_modelSplit, List.map_map,
    ← String.Slice.Subslice.copy_eq]
  exact map_copy_split filled clear begins

end Text

/-! ## Parts -/

/-- A part that can be told from its neighbours: it is not empty, has no two colons next to each
other, and neither begins nor ends with one. -/
structure IsPart (part : String) : Prop where
  filled : part ≠ ""
  apart : ¬ Definition.delimiter.toList <:+: part.toList
  begins : part.toList.head? ≠ some ':'
  ends : part.toList.getLast? ≠ some ':'

theorem IsPart.clearOf {part : String} (h : IsPart part) : ClearOf Definition.delimiter part := by
  intro before rest split filled tail after same
  have same : rest.toList ++ ':' :: ':' :: tail.toList = ':' :: ':' :: after.toList := by
    have := congrArg String.toList same
    simpa [Definition.delimiter] using this
  have split : part.toList = before.toList ++ rest.toList := by rw [split, String.toList_append]
  cases chars : rest.toList with
  | nil => exact filled (String.toList_eq_nil_iff.mp chars)
  | cons c others =>
    rw [chars] at same split
    obtain ⟨rfl, next⟩ := List.cons.inj same
    cases others with
    | nil =>
      refine h.ends ?_
      rw [split, List.getLast?_concat]
    | cons d others =>
      obtain ⟨rfl, -⟩ := List.cons.inj next
      exact h.apart ⟨before.toList, others, by rw [split]; simp [Definition.delimiter]⟩

theorem isPart_of_isName {name : String} (h : isName name = true) : IsPart name := by
  have colon : ':' ∉ name.toList := Name.notMem ⟨name, h⟩ (by decide)
  refine ⟨?_, fun within => ?_, fun first => ?_, fun last => ?_⟩
  · rintro rfl
    exact absurd h (by decide)
  · exact colon (within.subset List.mem_cons_self)
  · exact colon (List.mem_of_mem_head? first)
  · exact colon (List.mem_of_getLast? last)

/-- The text of an entry is a part. -/
theorem Entry.isPart_text {ls : List Lexeme} {es : List Entry} (h : Collects {} ls es)
    (writable : ∀ l ∈ ls, isWritable l = true) {e : Entry} (he : e ∈ es) : IsPart e.text := by
  have own : ∀ l ∈ e.written, isWritable l = true :=
    fun l hl => h.isWritable writable l (List.mem_flatMap.mpr ⟨e, he, hl⟩)
  have after : ∀ {before after : List Lexeme}, e.written = before ++ .mark .colon :: after →
      ∀ l ∈ after, isWritable l = true :=
    fun written l hl => own l (by rw [written]; simp [hl])
  obtain ⟨name, m, rest, written, -⟩ := h.begun e he
  have named : isName name = true := own (.name name) (by rw [written]; exact List.mem_cons_self)
  obtain ⟨c, cs, hname, start, -⟩ := isName_iff.mp named
  have text : e.text.toList = c :: (cs ++ (joinedText (.mark m :: rest)).toList) := by
    have joined : e.text = joinedText e.written := rfl
    rw [joined, written, joinedText_cons, String.toList_append]
    exact congrArg (· ++ _) hname
  refine ⟨?_, ?_, ?_, ?_⟩
  · intro empty
    rw [empty] at text
    exact absurd text (by simp)
  · rintro ⟨left, right, within⟩
    -- Two colons next to each other are two lexemes, and a colon is no label for another.
    have split : e.text.toList = left ++ ':' :: ':' :: right := by
      rw [← within]
      simp [Definition.delimiter]
    obtain ⟨before, rest, written, -, -, right⟩ := labelled_of_colon h writable he split
    obtain ⟨between, rest', rfl, none, -⟩ :=
      @exists_split_of_colon _ (after written) [] _ right
    obtain rfl := eq_nil_of_toList_joinedText
      (fun l hl => after written l (List.mem_append_left _ hl)) none
    have labelled := (h.colons e he).1 (before ++ [.mark .colon]) rest' (by rw [written]; simp)
    generalize shape : before ++ [Lexeme.mark .colon] = labels at labelled
    have last := congrArg List.getLast? shape
    cases labelled <;> simp at last
  · rw [text, List.head?_cons]
    rintro same
    obtain rfl := Option.some.inj same
    exact absurd start (by decide)
  · intro last
    obtain ⟨left, split⟩ := List.getLast?_eq_some_iff.mp last
    obtain ⟨before, rest, written, -, -, none⟩ := labelled_of_colon h writable he split
    obtain rfl := eq_nil_of_toList_joinedText (after written) none
    refine (h.colons e he).2 ?_
    rw [written, List.getLast?_concat]

theorem Reads.isPart {s : Span} {d : Definition} (h : Reads s d)
    (writable : ∀ p ∈ s.lexemes, isWritable p.lexeme = true) : ∀ part ∈ d.parts, IsPart part := by
  obtain ⟨keyword, label⟩ := h.isName_keyword_label writable
  intro part mem
  rcases List.mem_cons.mp mem with rfl | mem
  · exact isPart_of_isName keyword
  rcases List.mem_cons.mp mem with rfl | mem
  · exact isPart_of_isName label
  · exact h.forall_entries writable (fun _ => isPart_of_isName)
      (fun collects valid _ he => Entry.isPart_text collects valid he) part mem

/-- **The flat text can be taken apart.** In every definition of an accepted source, splitting the
flat text at two colons gives the keyword, the label and the entries; no part is empty, has two
colons next to each other, or begins or ends with a colon. -/
theorem Source.flat_splits {source : String} {ds : List Definition}
    (h : Source.definitions source = .ok ds) : ∀ d ∈ ds,
      (d.flat.split Definition.delimiter).toList.map String.Slice.copy = d.parts ∧
        ∀ part ∈ d.parts, IsPart part := by
  intro d hd
  obtain ⟨ps, -, writable, divided⟩ := Source.divided_of_definitions h
  obtain ⟨s, reads, within⟩ := divided.exists_of_mem hd
  have parts := reads.isPart fun p hp => writable p (within p hp)
  have clear : ∀ part ∈ d.parts, ClearOf Definition.delimiter part :=
    fun part mem => (parts part mem).clearOf
  exact ⟨split_intercalate (by decide) (List.cons_ne_nil _ _) clear, parts⟩

/-! ### An entry with colons -/

/-- A field with arguments that no comma separates, and a field without a name in its brackets. -/
def colonSource : String := "input T\x7bf(a:Int b:[ID!],):T!g:[]\x7d"

/-- The definition of `colonSource`. -/
def colonDefinition : Definition := ⟨"input", "T", ["f(a:Int,b:[ID!],):T!", "g:[]"], 1⟩

theorem Source.definitions_colonSource : Source.definitions colonSource = .ok [colonDefinition] :=
  Source.definitions_of_sweep (onLine 1
    [.name "input", .name "T", .mark .openBrace, .name "f", .mark .openParen, .name "a",
      .mark .colon, .name "Int", .name "b", .mark .colon, .mark .openBracket, .name "ID",
      .mark .bang, .mark .closeBracket, .mark .comma, .mark .closeParen, .mark .colon, .name "T",
      .mark .bang, .name "g", .mark .colon, .mark .openBracket, .mark .closeBracket,
      .mark .closeBrace]) (by decide) (by rfl)

theorem Source.flat_splits_colonSource :
    colonDefinition.flat = "input::T::f(a:Int,b:[ID!],):T!::g:[]" ∧
      (colonDefinition.flat.split Definition.delimiter).toList.map String.Slice.copy =
        ["input", "T", "f(a:Int,b:[ID!],):T!", "g:[]"] :=
  ⟨by decide,
    (Source.flat_splits Source.definitions_colonSource colonDefinition List.mem_cons_self).1⟩

end SchemaTypegen
