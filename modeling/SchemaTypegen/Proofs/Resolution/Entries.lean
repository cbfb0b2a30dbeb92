import SchemaTypegen.Proofs.Grammar.Meaning
import SchemaTypegen.Proofs.Signature

/-!
# An entry is taken apart into what it was made of

Entries are texts, taken apart again by looking for marks. Here each cut is shown to undo the normal
form: `ofText?_text` for types, `cutAt_text` for arguments, `splitRequest?_text` and
`requestParts_head` for fields. All of them rest on which characters occur where: a name has no mark
at all, a type only brackets and `!`, an argument one colon besides.
-/

namespace SchemaTypegen

open Text Grammar

/-! ## Signatures -/

namespace Grammar.TypeExpr

/-- The characters after the name in the text of a type. -/
def suffix : TypeExpr → List Char
  | named _ _ => []
  | list element _ => element.suffix ++ List.replicate element.required.toNat '!' ++ [']']

theorem toList_bang (required : Bool) :
    (bang required).toList = List.replicate required.toNat '!' := by
  cases required <;> decide

theorem toList_text (t : TypeExpr) : t.text.toList =
    List.replicate t.depth '[' ++ t.base.text.toList ++ t.suffix ++
      List.replicate t.required.toNat '!' := by
  induction t with
  | named name required =>
    rw [text, String.toList_append, toList_bang]
    simp [depth, base, suffix, TypeExpr.required]
  | list element required ih =>
    rw [text, String.toList_append, String.toList_append, String.toList_append, ih, toList_bang]
    simp [depth, base, suffix, TypeExpr.required, List.replicate_succ]

theorem count_suffix (t : TypeExpr) : t.suffix.count ']' = t.depth := by
  induction t with
  | named name required => rfl
  | list element required ih => simp [suffix, depth, ih, List.count_replicate]

theorem isSuffixChar_of_mem_suffix (t : TypeExpr) :
    ∀ c ∈ t.suffix, Signature.isSuffixChar c = true := by
  induction t with
  | named name required => exact fun c hc => absurd hc List.not_mem_nil
  | list element required ih =>
    intro c hc
    simp only [suffix, List.mem_append, List.mem_singleton] at hc
    rcases hc with (hc | hc) | rfl
    · exact ih c hc
    · rw [List.eq_of_mem_replicate hc]
      rfl
    · rfl

theorem getLast?_suffix (t : TypeExpr) : ∀ c ∈ t.suffix.getLast?, c = ']' := by
  cases t with
  | named name required => exact fun c hc => absurd hc (by simp [suffix])
  | list element required =>
    intro c hc
    rw [suffix, List.getLast?_append, List.getLast?_singleton] at hc
    exact (Option.some.inj hc).symm

/-- No mark but brackets and `!` occurs in a type. -/
theorem mem_text (t : TypeExpr) {c : Char} (hc : c ∈ t.text.toList) :
    c = '[' ∨ isNameChar c = true ∨ Signature.isSuffixChar c = true := by
  rw [toList_text, List.mem_append, List.mem_append, List.mem_append] at hc
  rcases hc with ((hc | hc) | hc) | hc
  · exact Or.inl (List.eq_of_mem_replicate hc)
  · exact Or.inr (Or.inl (t.base.isNameChar_of_mem hc))
  · exact Or.inr (Or.inr (t.isSuffixChar_of_mem_suffix c hc))
  · rw [List.eq_of_mem_replicate hc]
    exact Or.inr (Or.inr rfl)

theorem endsWith_bang_suffix_dropLast (t : TypeExpr) :
    (t.suffix.count ']' != 0 && !endsWith '!' t.suffix.dropLast) = t.elementOptional := by
  cases t with
  | named name required => rfl
  | list element required =>
    rw [count_suffix, suffix, List.dropLast_concat, elementOptional, depth]
    cases h : element.required with
    | true => simp [endsWith]
    | false =>
      have closed : endsWith '!' element.suffix = false := by
        rw [endsWith_eq_false_iff]
        intro c hc
        rw [element.getLast?_suffix c hc]
        rfl
      simp [closed]

theorem isBlank_eq_false_of_mem_text (t : TypeExpr) {c : Char} (hc : c ∈ t.text.toList) :
    isBlank c = false := by
  rcases t.mem_text hc with rfl | hname | hsuffix
  · decide
  · exact isBlank_eq_false_of_isNameChar hname
  · simp only [Signature.isSuffixChar, Bool.or_eq_true, beq_iff_eq] at hsuffix
    rcases hsuffix with rfl | rfl <;> decide

/-- **A type is read back from its text.** -/
theorem ofText?_text (t : TypeExpr) : Signature.ofText? t.text =
    some ⟨t.base.text, !t.required, t.depth, t.elementOptional⟩ := by
  have trimmed : trim t.text.toList = t.text.toList :=
    trim_of_ends (fun c hc => t.isBlank_eq_false_of_mem_text (List.mem_of_mem_head? hc))
      fun c hc => t.isBlank_eq_false_of_mem_text (List.mem_of_getLast? hc)
  have form := trimmed.trans t.toList_text
  rw [← t.count_suffix] at form
  have read := Signature.ofText?_of_form (fun c hc => t.base.isNameChar_of_mem hc)
    t.base.toList_ne_nil t.isSuffixChar_of_mem_suffix t.getLast?_suffix _ form
  rw [read, endsWith_bang_suffix_dropLast, count_suffix, String.ofList_toList]
  cases t.required <;> rfl

end Grammar.TypeExpr

namespace Grammar

/-! ## Arguments -/

/-- The marks at which the head of a request is taken apart. -/
def isRequestMark (c : Char) : Bool := c == '(' || c == ',' || c == ')'

theorem isRequestMark_eq_false_of_mem_type {t : TypeExpr} {c : Char} (hc : c ∈ t.text.toList) :
    isRequestMark c = false := by
  rcases t.mem_text hc with rfl | hname | hsuffix
  · decide
  · cases hm : isRequestMark c with
    | false => rfl
    | true =>
      simp only [isRequestMark, Bool.or_eq_true, beq_iff_eq] at hm
      rcases hm with (rfl | rfl) | rfl <;> exact absurd hname (by decide)
  · simp only [Signature.isSuffixChar, Bool.or_eq_true, beq_iff_eq] at hsuffix
    rcases hsuffix with rfl | rfl <;> decide

theorem Name.isRequestMark_eq_false_of_mem (n : Name) {c : Char} (hc : c ∈ n.text.toList) :
    isRequestMark c = false := by
  have typed : c ∈ (TypeExpr.named n false).text.toList := by
    rw [TypeExpr.toList_text]
    simpa [TypeExpr.depth, TypeExpr.base, TypeExpr.suffix, TypeExpr.required] using hc
  exact isRequestMark_eq_false_of_mem_type typed

theorem Name.colon_notMem (n : Name) : ':' ∉ n.text.toList :=
  notMem_of_isNameChar (fun _ hc => n.isNameChar_of_mem hc) (by decide)

namespace ArgumentDecl

theorem toList_text (a : ArgumentDecl) :
    a.text.toList = a.name.text.toList ++ ':' :: a.type.text.toList := by
  rw [text, String.toList_append, String.toList_append, List.append_assoc]
  rfl

theorem isRequestMark_eq_false_of_mem (a : ArgumentDecl) {c : Char} (hc : c ∈ a.text.toList) :
    isRequestMark c = false := by
  rw [toList_text, List.mem_append, List.mem_cons] at hc
  rcases hc with hc | rfl | hc
  · exact a.name.isRequestMark_eq_false_of_mem hc
  · decide
  · exact isRequestMark_eq_false_of_mem_type hc

theorem cutAt_text (a : ArgumentDecl) :
    cutAt ':' a.text.toList = some (a.name.text.toList, a.type.text.toList) := by
  rw [toList_text, cutAt_append a.name.colon_notMem]

/-- The characters of arguments with commas between them. -/
def joinedText (arguments : List ArgumentDecl) : List Char :=
  [','].intercalate (arguments.map fun a => a.text.toList)

theorem joinedText_cons_cons (a b : ArgumentDecl) (arguments : List ArgumentDecl) :
    joinedText (a :: b :: arguments) = a.text.toList ++ ',' :: joinedText (b :: arguments) := by
  simp [joinedText, List.intercalate]

/-- Taking arguments apart at the marks gives them back, and nothing else that is not empty. -/
theorem pieces_joinedText (arguments : List ArgumentDecl) :
    (pieces isRequestMark (joinedText arguments ++ [')'])).filter (!·.isEmpty) =
      arguments.map fun a => a.text.toList := by
  have whole : ∀ a : ArgumentDecl, ∀ c ∈ a.text.toList, isRequestMark c = false :=
    fun a _ hc => a.isRequestMark_eq_false_of_mem hc
  have kept : ∀ a : ArgumentDecl, (!a.text.toList.isEmpty) = true := by
    intro a
    rw [toList_text]
    simp
  induction arguments with
  | nil => rfl
  | cons a arguments ih =>
    cases arguments with
    | nil =>
      have single : joinedText [a] = a.text.toList := by simp [joinedText, List.intercalate]
      rw [single, pieces_append (whole a) (by decide), List.filter_cons, if_pos (kept a)]
      rfl
    | cons b arguments =>
      rw [joinedText_cons_cons, List.append_assoc, List.cons_append,
        pieces_append (whole a) (by decide), List.filter_cons, if_pos (kept a), ih]
      rfl

theorem closeParen_notMem_joinedText (arguments : List ArgumentDecl) :
    ')' ∉ joinedText arguments := by
  have whole : ∀ a : ArgumentDecl, ')' ∉ a.text.toList :=
    fun a hc => absurd (a.isRequestMark_eq_false_of_mem hc) (by decide)
  induction arguments with
  | nil => exact List.not_mem_nil
  | cons a arguments ih =>
    cases arguments with
    | nil => simpa [joinedText, List.intercalate] using whole a
    | cons b arguments =>
      rw [joinedText_cons_cons, List.mem_append, List.mem_cons, not_or, not_or]
      exact ⟨whole a, by decide, ih⟩

end ArgumentDecl

/-! ## Fields -/

namespace FieldDecl

/-- The characters of a field before the colon of its own type. -/
def head (f : FieldDecl) : List Char := f.name.text.toList ++ f.argumentsText.toList

theorem toList_text (f : FieldDecl) : f.text.toList = f.head ++ ':' :: f.type.text.toList := by
  rw [text, String.toList_append, String.toList_append, String.toList_append, head]
  simp

theorem toList_argumentsText {f : FieldDecl} {arguments : List ArgumentDecl}
    (h : f.arguments = some arguments) :
    f.argumentsText.toList = '(' :: ArgumentDecl.joinedText arguments ++ [')'] := by
  rw [argumentsText, h]
  simp [ArgumentDecl.joinedText, String.toList_intercalate, Function.comp_def]

theorem head_of_none {f : FieldDecl} (h : f.arguments = none) : f.head = f.name.text.toList := by
  rw [head, argumentsText, h]
  exact List.append_nil _

theorem head_of_some {f : FieldDecl} {arguments : List ArgumentDecl}
    (h : f.arguments = some arguments) :
    f.head = f.name.text.toList ++ '(' :: (ArgumentDecl.joinedText arguments ++ [')']) := by
  rw [head, toList_argumentsText h]
  rfl

theorem openParen_notMem_name (f : FieldDecl) : '(' ∉ f.name.text.toList :=
  fun hc => absurd (f.name.isRequestMark_eq_false_of_mem hc) (by decide)

/-- A field has a parenthesis in its text only if it has parentheses. -/
theorem contains_openParen (f : FieldDecl) : f.text.toList.contains '(' = f.arguments.isSome := by
  rw [toList_text]
  cases h : f.arguments with
  | none =>
    have absent : '(' ∉ f.type.text.toList :=
      fun hc => absurd (isRequestMark_eq_false_of_mem_type hc) (by decide)
    simp [head_of_none h, f.openParen_notMem_name, absent]
  | some arguments => simp [head_of_some h]

/-- **A field is split before the colon of its own type**, whatever colons its arguments have. -/
theorem splitRequest?_text (f : FieldDecl) :
    Resolve.splitRequest? f.text.toList = some (f.head, f.type.text.toList) := by
  cases h : f.arguments with
  | none =>
    have absent : '(' ∉ f.text.toList := by
      have contained := f.contains_openParen
      rw [h] at contained
      simpa using contained
    rw [Resolve.splitRequest?, cutAt_eq_none absent, toList_text, head_of_none h,
      cutAt_append f.name.colon_notMem]
  | some arguments =>
    have noColon : f.name.text.toList.contains ':' = false := by
      simpa using f.name.colon_notMem
    rw [toList_text, head_of_some h, List.append_assoc, List.cons_append, List.append_assoc,
      Resolve.splitRequest?, cutAt_append f.openParen_notMem_name]
    simp only [noColon, Bool.false_eq_true, if_false, List.singleton_append,
      cutAt_append (ArgumentDecl.closeParen_notMem_joinedText arguments)]
    simp

/-- **The head of a field is taken apart into its name and its arguments.** -/
theorem requestParts_head (f : FieldDecl) :
    Resolve.requestParts f.head =
      f.name.text :: (f.arguments.getD []).map ArgumentDecl.text := by
  have whole : ∀ c ∈ f.name.text.toList, isRequestMark c = false :=
    fun _ hc => f.name.isRequestMark_eq_false_of_mem hc
  have kept : (!f.name.text.toList.isEmpty) = true := by
    simpa using f.name.toList_ne_nil
  have taken : Resolve.requestParts f.head =
      ((pieces isRequestMark f.head).filter (!·.isEmpty)).map String.ofList := rfl
  rw [taken]
  cases h : f.arguments with
  | none =>
    rw [head_of_none h, pieces_of_all whole, List.filter_cons, if_pos kept]
    simp
  | some arguments =>
    rw [head_of_some h, pieces_append whole (by decide), List.filter_cons, if_pos kept,
      ArgumentDecl.pieces_joinedText]
    simp [Function.comp_def]

end FieldDecl

end Grammar

end SchemaTypegen
