import SchemaTypegen.Proofs.Text
import SchemaTypegen.Signature

/-!
# What a signature is read as

`Signature.ofText?` trims, counts and filters; it never parses. `ofText?_of_form` says what comes of
it on a name inside brackets: opening brackets, the name, a suffix of `!` and as many closing
brackets, of which the last ends the suffix, and any number of `!` after that.

* **`ofText?_eq_some_iff`**: these are all the texts that are read, white space around them aside,
  and what each of them is read as.
-/

namespace SchemaTypegen.Signature

open Text

/-- The characters after the name in a signature. -/
def isSuffixChar (c : Char) : Bool := c == ']' || c == '!'

theorem isNameChar_eq_false_of_isSuffixChar {c : Char} (h : isSuffixChar c = true) :
    isNameChar c = false := by
  simp only [isSuffixChar, Bool.or_eq_true, beq_iff_eq] at h
  rcases h with rfl | rfl <;> decide

section Form

variable {label suffix : List Char} (named : ∀ c ∈ label, isNameChar c = true)
  (nonempty : label ≠ []) (closing : ∀ c ∈ suffix, isSuffixChar c = true)

include named

/-- The last character of the name is no part of a suffix. -/
theorem isSuffixChar_last : ∀ c ∈ label.getLast?, isSuffixChar c = false := by
  intro c hc
  cases hs : isSuffixChar c with
  | false => rfl
  | true =>
    have hname := named c (List.mem_of_getLast? hc)
    rw [isNameChar_eq_false_of_isSuffixChar hs] at hname
    exact absurd hname Bool.false_ne_true

include nonempty

theorem takeWhile_body (depth : Nat) :
    (List.replicate depth '[' ++ label ++ suffix).takeWhile (· == '[') =
        List.replicate depth '[' ∧
      (List.replicate depth '[' ++ label ++ suffix).dropWhile (· == '[') = label ++ suffix := by
  obtain ⟨c, rest, rfl⟩ := List.exists_cons_of_ne_nil nonempty
  have opening : ∀ d ∈ List.replicate depth '[', (d == '[') = true := by
    intro d hd
    rw [List.eq_of_mem_replicate hd]
    rfl
  have first : (c == '[') = false := by
    rw [beq_eq_false_iff_ne]
    rintro rfl
    exact absurd (named '[' List.mem_cons_self) (by decide)
  rw [List.append_assoc, List.cons_append]
  constructor
  · rw [List.takeWhile_append_of_pos opening, List.takeWhile_cons, first, if_neg Bool.false_ne_true,
      List.append_nil]
  · rw [List.dropWhile_append_of_pos opening, List.dropWhile_cons, first, if_neg Bool.false_ne_true]

/-- The character before the last is a `!` only if the suffix has it. -/
theorem endsWith_bang_append (tail : List Char) (front : List Char) :
    endsWith '!' (front ++ label ++ tail) = endsWith '!' tail := by
  unfold endsWith
  rw [List.getLast?_append, List.getLast?_append]
  cases tail.getLast? with
  | some c => rfl
  | none =>
    rw [List.getLast?_eq_some_getLast nonempty]
    have hlast := isSuffixChar_last named _ (List.getLast?_eq_some_getLast nonempty)
    have hne : label.getLast nonempty ≠ '!' := by
      intro e
      rw [e] at hlast
      exact absurd hlast (by decide)
    simpa using hne

include closing

/-- **What a bracketed name is read as.** -/
theorem ofText?_of_form (last : ∀ c ∈ suffix.getLast?, c = ']') (bangs : Nat) {raw : String}
    (form : trim raw.toList = List.replicate (suffix.count ']') '[' ++ label ++ suffix ++
      List.replicate bangs '!') :
    ofText? raw = some {
      label := String.ofList label
      optional := bangs == 0
      depth := suffix.count ']'
      elementOptional := suffix.count ']' != 0 && !endsWith '!' suffix.dropLast } := by
  have required : endsWith '!' suffix = false := by
    rw [endsWith_eq_false_iff]
    intro c hc
    rw [last c hc]
    rfl
  have body : dropEndWhile (· == '!') (trim raw.toList) =
      List.replicate (suffix.count ']') '[' ++ label ++ suffix := by
    rw [form, dropEndWhile_append_of_all]
    · refine dropEndWhile_of_last (endsWith_eq_false_iff.mp ?_)
      rw [endsWith_bang_append named nonempty, required]
    · intro c hc
      rw [List.eq_of_mem_replicate hc]
      rfl
  have optional : (!endsWith '!' (trim raw.toList)) = (bangs == 0) := by
    rw [form]
    cases bangs with
    | zero =>
      rw [List.replicate_zero, List.append_nil, endsWith_bang_append named nonempty, required]
      rfl
    | succ bangs =>
      rw [List.replicate_succ', ← List.append_assoc, endsWith_append_singleton]
      rfl
  have trimmed : dropEndWhile (fun c => c == ']' || c == '!') (label ++ suffix) = label :=
    (dropEndWhile_append_of_all label closing).trans
      (dropEndWhile_of_last (isSuffixChar_last named))
  have brackets : (List.replicate (suffix.count ']') '[' ++ label ++ suffix).count ']' =
      suffix.count ']' := by
    rw [List.count_append, List.count_append, List.count_replicate,
      List.count_eq_zero_of_not_mem (notMem_of_isNameChar named (by decide))]
    simp
  have labelled : (!label.isEmpty && label.all isNameChar) = true := by
    simpa [nonempty] using named
  unfold ofText?
  simp only [body, (takeWhile_body named nonempty _).1, (takeWhile_body named nonempty _).2,
    trimmed, brackets, optional, List.length_replicate, labelled, beq_self_eq_true, Bool.true_and]
  -- with brackets, the suffix ends in the last of them; without, there is nothing left to check
  by_cases depth : suffix.count ']' = 0
  · simp [depth]
  · obtain ⟨inner, c, rfl⟩ : ∃ inner c, suffix = inner ++ [c] := by
      rcases List.eq_nil_or_concat suffix with h | ⟨inner, c, h⟩
      · exact absurd (by rw [h]; rfl) depth
      · exact ⟨inner, c, by rw [h, List.concat_eq_append]⟩
    obtain rfl : c = ']' := last c (by simp)
    rw [← List.append_assoc, endsWith_append_singleton, List.dropLast_concat, List.dropLast_concat,
      endsWith_bang_append named nonempty]
    simp

end Form

/-! ## All texts that are read -/

/-- A way to write a signature: opening brackets, the label, and a suffix of closing brackets and
`!` in any order, with as many brackets as there are opening ones. -/
structure Spells (text : List Char) (sig : Signature) (suffix : List Char) : Prop where
  form : text = List.replicate sig.depth '[' ++ sig.label.toList ++ suffix
  nonempty : sig.label.toList ≠ []
  named : ∀ c ∈ sig.label.toList, isNameChar c = true
  closing : ∀ c ∈ suffix, c = ']' ∨ c = '!'
  balanced : suffix.count ']' = sig.depth
  optional : sig.optional = true ↔ suffix.getLast? ≠ some '!'
  elementOptional : sig.elementOptional = true ↔
    0 < sig.depth ∧ beforeLast ']' text ≠ some '!'

/-- A suffix is a part that ends in a bracket, if it has one, and any number of `!`. -/
theorem exists_core {suffix : List Char} (closing : ∀ c ∈ suffix, isSuffixChar c = true) :
    ∃ core bangs, suffix = core ++ List.replicate bangs '!' ∧
      (∀ c ∈ core, isSuffixChar c = true) ∧ ∀ c ∈ core.getLast?, c = ']' := by
  obtain ⟨tail, split, all, last⟩ := exists_dropEndWhile (· == '!') suffix
  have bangs : tail = List.replicate tail.length '!' :=
    List.eq_replicate_of_mem fun c hc => by simpa using all c hc
  have closes : ∀ c ∈ dropEndWhile (· == '!') suffix, isSuffixChar c = true := fun c hc =>
    closing c (split ▸ List.mem_append_left tail hc)
  refine ⟨dropEndWhile (· == '!') suffix, tail.length, bangs ▸ split, closes, fun c hc => ?_⟩
  have plain : (c == '!') = false := last c hc
  simpa [isSuffixChar, plain] using closes c (List.mem_of_getLast? hc)

section Spelled

variable {label suffix : List Char} (named : ∀ c ∈ label, isNameChar c = true)
  (nonempty : label ≠ []) (closing : ∀ c ∈ suffix, isSuffixChar c = true)

include named nonempty closing

/-- What a text is read as that has a name between brackets, whatever `!` there are among the
closing ones. -/
theorem ofText?_of_suffix {raw : String} {text : List Char} (trimmed : trim raw.toList = text)
    (form : text = List.replicate (suffix.count ']') '[' ++ label ++ suffix) :
    ofText? raw = some {
      label := String.ofList label
      optional := !endsWith '!' suffix
      depth := suffix.count ']'
      elementOptional := suffix.count ']' != 0 && beforeLast ']' text != some '!' } := by
  obtain ⟨core, bangs, rfl, closes, last⟩ := exists_core closing
  have unbracketed : ']' ∉ List.replicate bangs '!' := fun mem =>
    absurd (List.eq_of_mem_replicate mem) (by decide)
  have count : (core ++ List.replicate bangs '!').count ']' = core.count ']' := by
    rw [List.count_append, List.count_eq_zero_of_not_mem unbracketed, Nat.add_zero]
  have optional : (!endsWith '!' (core ++ List.replicate bangs '!')) = (bangs == 0) := by
    cases bangs with
    | zero =>
      have plain : endsWith '!' core = false := by
        rw [endsWith_eq_false_iff]
        intro c hc
        rw [last c hc]
        rfl
      rw [List.replicate_zero, List.append_nil, plain]
      rfl
    | succ bangs =>
      rw [List.replicate_succ', ← List.append_assoc, endsWith_append_singleton]
      rfl
  have element : (core.count ']' != 0 && beforeLast ']' text != some '!') =
      (core.count ']' != 0 && !endsWith '!' core.dropLast) := by
    rcases List.eq_nil_or_concat core with rfl | ⟨inner, c, rfl⟩
    · rfl
    · obtain rfl : c = ']' := last c (by simp)
      have before : beforeLast ']' text =
          (List.replicate ((inner ++ [']']).count ']') '[' ++ label ++ inner).getLast? := by
        rw [form, count, ← beforeLast_append unbracketed]
        simp
      have same := endsWith_bang_append named nonempty inner
        (List.replicate ((inner ++ [']']).count ']') '[')
      rw [List.concat_eq_append, List.dropLast_concat, ← same, endsWith]
      rw [before]
      rfl
  rw [count, optional, element]
  refine ofText?_of_form named nonempty closes last bangs ?_
  rw [trimmed, form, count, List.append_assoc, List.append_assoc, List.append_assoc]

end Spelled

/-- A text that is read has a name between brackets. -/
theorem exists_suffix_of_ofText? {raw : String} {sig : Signature} (h : ofText? raw = some sig) :
    ∃ label suffix, label ≠ [] ∧ (∀ c ∈ label, isNameChar c = true) ∧
      (∀ c ∈ suffix, isSuffixChar c = true) ∧
      trim raw.toList = List.replicate (suffix.count ']') '[' ++ label ++ suffix := by
  unfold ofText? at h
  simp only [Option.ite_none_right_eq_some, Bool.and_eq_true, List.all_eq_true, beq_iff_eq,
    Bool.not_eq_true', List.isEmpty_eq_false_iff] at h
  obtain ⟨⟨⟨⟨nonempty, named⟩, count⟩, -⟩, -⟩ := h
  -- The text in four parts: opening brackets, the name, closing ones, and `!` at the end.
  obtain ⟨bangs, whole, isBang, -⟩ := exists_dropEndWhile (· == '!') (trim raw.toList)
  generalize dropEndWhile (· == '!') (trim raw.toList) = body at nonempty named count whole
  have opening : body.takeWhile (· == '[') =
      List.replicate (body.takeWhile (· == '[')).length '[' :=
    List.eq_replicate_of_mem fun c hc => by
      simpa using List.all_eq_true.mp List.all_takeWhile c hc
  have rest : body = body.takeWhile (· == '[') ++ body.dropWhile (· == '[') :=
    List.takeWhile_append_dropWhile.symm
  rw [opening] at rest
  generalize (body.takeWhile (· == '[')).length = depth at count rest
  obtain ⟨closing, split, isClosing, -⟩ :=
    exists_dropEndWhile isSuffixChar (body.dropWhile (· == '['))
  have label : dropEndWhile (fun c => c == ']' || c == '!') (body.dropWhile (· == '[')) =
    dropEndWhile isSuffixChar (body.dropWhile (· == '[')) := rfl
  rw [label] at nonempty named
  rw [split] at rest
  generalize dropEndWhile isSuffixChar (body.dropWhile (· == '[')) = label at nonempty named rest
  have balanced : (closing ++ bangs).count ']' = depth := by
    rw [← count, rest]
    have unbracketed : ']' ∉ bangs := fun mem => absurd (isBang _ mem) (by decide)
    have unopened : ']' ∉ List.replicate depth '[' := fun mem =>
      absurd (List.eq_of_mem_replicate mem) (by decide)
    simp only [List.count_append]
    rw [List.count_eq_zero_of_not_mem unbracketed, List.count_eq_zero_of_not_mem unopened,
      List.count_eq_zero_of_not_mem (notMem_of_isNameChar named (by decide))]
    omega
  refine ⟨label, closing ++ bangs, nonempty, named, fun c hc => ?_, ?_⟩
  · rcases List.mem_append.mp hc with hc | hc
    · exact isClosing c hc
    · obtain rfl : c = '!' := by simpa using isBang c hc
      rfl
  · rw [balanced, whole, rest]
    simp only [List.append_assoc]

/-- **What is read as a signature, and as which.** A text is read exactly if, without the white
space around it, it is as many opening brackets as there are closing ones, a name, and a suffix of
closing brackets and `!` in any order. -/
theorem ofText?_eq_some_iff (raw : String) (sig : Signature) :
    ofText? raw = some sig ↔ ∃ text suffix, Trimmed raw.toList text ∧ Spells text sig suffix := by
  have closes : ∀ c, (c = ']' ∨ c = '!') ↔ isSuffixChar c = true := by simp [isSuffixChar]
  constructor
  · intro h
    obtain ⟨label, suffix, nonempty, named, closing, form⟩ := exists_suffix_of_ofText? h
    have read := ofText?_of_suffix named nonempty closing rfl form
    obtain rfl := Option.some.inj (h.symm.trans read)
    refine ⟨trim raw.toList, suffix, trim_eq_iff.mp rfl, ?_⟩
    constructor
    · simpa using form
    · simpa using nonempty
    · simpa using named
    · exact fun c hc => (closes c).mpr (closing c hc)
    · rfl
    · simp [endsWith]
    · simp [Nat.pos_iff_ne_zero]
  · rintro ⟨text, suffix, trimmed, spells⟩
    have read := ofText?_of_suffix spells.named spells.nonempty
      (fun c hc => (closes c).mp (spells.closing c hc)) (trim_eq_iff.mpr trimmed)
      (spells.balanced ▸ spells.form)
    have optional : (!endsWith '!' suffix) = sig.optional := by
      rw [Bool.eq_iff_iff, spells.optional]
      simp [endsWith]
    have element : (sig.depth != 0 && beforeLast ']' text != some '!') = sig.elementOptional := by
      rw [Bool.eq_iff_iff, spells.elementOptional]
      simp [Nat.pos_iff_ne_zero]
    rw [read, optional, spells.balanced, element, String.ofList_toList]

/-- The `!` may be anywhere among the closing brackets, and the last bracket decides. -/
example : ofText? "\n[[A]!!]! " = some ⟨"A", false, 2, false⟩ := by decide

end SchemaTypegen.Signature
