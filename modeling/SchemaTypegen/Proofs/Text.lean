import SchemaTypegen.Text.Chars

/-!
# Name characters, and what a cut gives

Name characters are letters, digits and underscores, so they are neither white space nor marks. The
cuts of a text are given for texts put together from parts: a part without the separator comes back
whole; an end whose characters all qualify is dropped, and one whose last character does not stays.
-/

namespace SchemaTypegen.Text

/-! ## Name characters -/

theorem toNat_of_isNameChar {c : Char} (h : isNameChar c = true) :
    c.toNat = 95 ∨ (48 ≤ c.toNat ∧ c.toNat ≤ 57) ∨ (65 ≤ c.toNat ∧ c.toNat ≤ 90) ∨
      (97 ≤ c.toNat ∧ c.toNat ≤ 122) := by
  delta isNameChar Char.isAlphanum Char.isAlpha Char.isUpper Char.isLower Char.isDigit at h
  simp only [Bool.or_eq_true, beq_iff_eq, Bool.and_eq_true, decide_eq_true_eq, ge_iff_le,
    UInt32.le_iff_toNat_le] at h
  rcases h with rfl | (h | h) | h
  · exact Or.inl rfl
  · exact Or.inr (Or.inr (Or.inl h))
  · exact Or.inr (Or.inr (Or.inr h))
  · exact Or.inr (Or.inl h)

theorem isBlank_eq_false_of_isNameChar {c : Char} (h : isNameChar c = true) :
    isBlank c = false := by
  have hn := toNat_of_isNameChar h
  simp only [isBlank, Bool.or_eq_false_iff, Bool.and_eq_false_iff, decide_eq_false_iff_not,
    beq_eq_false_iff_ne, ne_eq]
  omega

/-- A character that is no name character does not occur among name characters. -/
theorem notMem_of_isNameChar {c : Char} {text : List Char} (h : ∀ d ∈ text, isNameChar d = true)
    (hc : isNameChar c = false) : c ∉ text := by
  intro hmem
  rw [h c hmem] at hc
  exact absurd hc (by decide)

/-! ## At a separator -/

theorem cutAt_append {sep : Char} {left : List Char} (h : sep ∉ left) (right : List Char) :
    cutAt sep (left ++ sep :: right) = some (left, right) := by
  induction left with
  | nil => rw [List.nil_append, cutAt, if_pos rfl]
  | cons c left ih =>
    rw [List.mem_cons, not_or] at h
    rw [List.cons_append, cutAt, if_neg (Ne.symm h.1), ih h.2]
    rfl

theorem cutAt_eq_none {sep : Char} {text : List Char} (h : sep ∉ text) : cutAt sep text = none := by
  induction text with
  | nil => rfl
  | cons c text ih =>
    rw [List.mem_cons, not_or] at h
    rw [cutAt, if_neg (Ne.symm h.1), ih h.2]
    rfl

/-- A part without the separator is passed over. -/
theorem cutAt_append_of_notMem {sep : Char} {left : List Char} (h : sep ∉ left)
    (text : List Char) :
    cutAt sep (left ++ text) = (cutAt sep text).map fun (l, r) => (left ++ l, r) := by
  induction left with
  | nil => cases h : cutAt sep text <;> simp [h]
  | cons c left ih =>
    rw [List.mem_cons, not_or] at h
    rw [List.cons_append, cutAt, if_neg (Ne.symm h.1), ih h.2]
    cases cutAt sep text <;> rfl

theorem eq_append_of_cutAt {sep : Char} {text left right : List Char}
    (h : cutAt sep text = some (left, right)) : text = left ++ sep :: right := by
  induction text generalizing left with
  | nil => exact absurd h (by simp [cutAt])
  | cons c text ih =>
    rw [cutAt] at h
    split at h
    · rename_i same
      cases h
      rw [same, List.nil_append]
    · obtain ⟨⟨l, r⟩, cut, same⟩ := Option.map_eq_some_iff.mp h
      cases same
      rw [ih cut, List.cons_append]

theorem notMem_of_cutAt {sep : Char} {text left right : List Char}
    (h : cutAt sep text = some (left, right)) : sep ∉ left := by
  induction text generalizing left with
  | nil => exact absurd h (by simp [cutAt])
  | cons c text ih =>
    rw [cutAt] at h
    split at h
    · cases h
      exact List.not_mem_nil
    · rename_i apart
      obtain ⟨⟨l, r⟩, cut, same⟩ := Option.map_eq_some_iff.mp h
      cases same
      rw [List.mem_cons, not_or]
      exact ⟨Ne.symm apart, ih cut⟩

theorem pieces_of_all {isSep : Char → Bool} {text : List Char} (h : ∀ c ∈ text, isSep c = false) :
    pieces isSep text = [text] := by
  induction text with
  | nil => rfl
  | cons c text ih =>
    rw [pieces, h c List.mem_cons_self, if_neg Bool.false_ne_true,
      ih fun d hd => h d (List.mem_cons_of_mem c hd)]

theorem pieces_append {isSep : Char → Bool} {first : List Char} (h : ∀ c ∈ first, isSep c = false)
    {sep : Char} (hsep : isSep sep = true) (rest : List Char) :
    pieces isSep (first ++ sep :: rest) = first :: pieces isSep rest := by
  induction first with
  | nil => rw [List.nil_append, pieces, if_pos hsep]
  | cons c first ih =>
    rw [List.cons_append, pieces, h c List.mem_cons_self, if_neg Bool.false_ne_true,
      ih fun d hd => h d (List.mem_cons_of_mem c hd)]

/-- The first separator of a text, if it has one. -/
theorem exists_first_separator (isSep : Char → Bool) (text : List Char) :
    (∀ c ∈ text, isSep c = false) ∨ ∃ first sep rest, text = first ++ sep :: rest ∧
      (∀ c ∈ first, isSep c = false) ∧ isSep sep = true := by
  induction text with
  | nil => exact Or.inl fun c hc => absurd hc List.not_mem_nil
  | cons c text ih =>
    cases hc : isSep c with
    | true => exact Or.inr ⟨[], c, text, rfl, fun d hd => absurd hd List.not_mem_nil, hc⟩
    | false =>
      rcases ih with whole | ⟨first, sep, rest, rfl, before, hsep⟩
      · exact Or.inl (List.forall_mem_cons.mpr ⟨hc, whole⟩)
      · exact Or.inr ⟨c :: first, sep, rest, rfl, List.forall_mem_cons.mpr ⟨hc, before⟩, hsep⟩

/-- A piece has no separator in it, and has one before it unless it is the first. -/
theorem exists_of_mem_pieces {isSep : Char → Bool} {text piece : List Char}
    (h : piece ∈ pieces isSep text) : (∀ c ∈ piece, isSep c = false) ∧
      ∃ before after, text = before ++ piece ++ after ∧ ∀ c ∈ before.getLast?, isSep c = true := by
  -- What follows the first separator is shorter.
  induction hn : text.length using Nat.strongRecOn generalizing text with
  | _ n ih =>
    rcases exists_first_separator isSep text with whole | ⟨first, sep, rest, rfl, own, hsep⟩
    · rw [pieces_of_all whole] at h
      obtain rfl := List.mem_singleton.mp h
      exact ⟨whole, [], [], by simp, by simp⟩
    · rw [pieces_append own hsep] at h
      rcases List.mem_cons.mp h with rfl | h
      · exact ⟨own, [], sep :: rest, by simp, by simp⟩
      · have shorter : rest.length < n := by
          rw [← hn, List.length_append, List.length_cons]
          omega
        obtain ⟨clean, before, after, rfl, separated⟩ := ih _ shorter h rfl
        refine ⟨clean, first ++ sep :: before, after, by simp, ?_⟩
        cases before with
        | nil => simpa using hsep
        | cons c before => simpa [List.getLast?_append, List.getLast?_cons_cons] using separated

/-- Two texts that begin alike, with characters of a class up to where they end or one of another
class comes, do so as far and have the same rest. -/
theorem append_inj_of_class {p : Char → Bool} {first first' rest rest' : List Char}
    (own : ∀ c ∈ first, p c = true) (own' : ∀ c ∈ first', p c = true)
    (stops : ∀ c ∈ rest.head?, p c = false) (stops' : ∀ c ∈ rest'.head?, p c = false)
    (h : first ++ rest = first' ++ rest') : first = first' ∧ rest = rest' := by
  have taken : ∀ {first rest : List Char}, (∀ c ∈ first, p c = true) →
      (∀ c ∈ rest.head?, p c = false) → (first ++ rest).takeWhile p = first := by
    intro first rest own stops
    rw [List.takeWhile_append_of_pos own]
    cases rest with
    | nil => simp
    | cons c rest => rw [List.takeWhile_cons_of_neg (by simp [stops c rfl]), List.append_nil]
  have same : first = first' := by rw [← taken own stops, h, taken own' stops']
  subst same
  exact ⟨rfl, List.append_cancel_left h⟩

/-! ## At the ends -/

theorem dropEndWhile_append_of_all {p : Char → Bool} (text : List Char) {tail : List Char}
    (h : ∀ c ∈ tail, p c = true) : dropEndWhile p (text ++ tail) = dropEndWhile p text := by
  unfold dropEndWhile
  rw [List.reverse_append, List.dropWhile_append_of_pos fun c hc => h c (List.mem_reverse.mp hc)]

theorem dropEndWhile_of_last {p : Char → Bool} {text : List Char}
    (h : ∀ c ∈ text.getLast?, p c = false) : dropEndWhile p text = text := by
  unfold dropEndWhile
  rw [List.getLast?_eq_head?_reverse] at h
  cases hrev : text.reverse with
  | nil => rw [List.reverse_eq_nil_iff.mp hrev]; rfl
  | cons c rest =>
    rw [hrev] at h
    rw [List.dropWhile_cons, h c rfl, if_neg Bool.false_ne_true, ← hrev, List.reverse_reverse]

/-- What `dropEndWhile` leaves and what it drops. -/
theorem exists_dropEndWhile (p : Char → Bool) (text : List Char) :
    ∃ tail, text = dropEndWhile p text ++ tail ∧ (∀ c ∈ tail, p c = true) ∧
      ∀ c ∈ (dropEndWhile p text).getLast?, p c = false := by
  refine ⟨(text.reverse.takeWhile p).reverse, ?_, fun c hc => ?_, fun c hc => ?_⟩
  · rw [dropEndWhile, ← List.reverse_append, List.takeWhile_append_dropWhile, List.reverse_reverse]
  · exact List.all_eq_true.mp List.all_takeWhile c (List.mem_reverse.mp hc)
  · rw [dropEndWhile, List.getLast?_reverse] at hc
    have stops := List.head?_dropWhile_not p text.reverse
    rw [Option.mem_def.mp hc] at stops
    simpa using stops

/-- `text` is `raw` without the white space around it. -/
structure Trimmed (raw text : List Char) : Prop where
  around : ∃ before after, raw = before ++ text ++ after ∧ (∀ c ∈ before, isBlank c = true) ∧
    ∀ c ∈ after, isBlank c = true
  first : ∀ c ∈ text.head?, isBlank c = false
  last : ∀ c ∈ text.getLast?, isBlank c = false

theorem trim_eq_iff {raw text : List Char} : trim raw = text ↔ Trimmed raw text := by
  constructor
  · rintro rfl
    obtain ⟨after, whole, blank, last⟩ := exists_dropEndWhile isBlank (raw.dropWhile isBlank)
    refine ⟨⟨raw.takeWhile isBlank, after, ?_, ?_, blank⟩, fun c hc => ?_, last⟩
    · rw [trim, trimEnd, List.append_assoc, ← whole, List.takeWhile_append_dropWhile]
    · exact List.all_eq_true.mp List.all_takeWhile
    · -- What is left begins as it did before its end was dropped.
      have begins : (raw.dropWhile isBlank).head? = some c := by
        rw [whole, List.head?_append]
        rw [trim, trimEnd] at hc
        rw [Option.mem_def.mp hc]
        rfl
      have stops := List.head?_dropWhile_not isBlank raw
      rw [begins] at stops
      simpa using stops
  · rintro ⟨⟨before, after, rfl, blank, blank'⟩, first, last⟩
    rw [trim, List.append_assoc, List.dropWhile_append_of_pos blank]
    cases text with
    | nil =>
      have all : after.dropWhile isBlank = [] := by
        rw [← List.append_nil after, List.dropWhile_append_of_pos blank', List.dropWhile_nil]
      rw [List.nil_append, all]
      rfl
    | cons c text =>
      rw [List.cons_append, List.dropWhile_cons, first c rfl, if_neg Bool.false_ne_true, trimEnd,
        ← List.cons_append, dropEndWhile_append_of_all _ blank', dropEndWhile_of_last last]

theorem trim_of_ends {text : List Char} (first : ∀ c ∈ text.head?, isBlank c = false)
    (last : ∀ c ∈ text.getLast?, isBlank c = false) : trim text = text :=
  trim_eq_iff.mpr ⟨⟨[], [], by simp, by simp, by simp⟩, first, last⟩

theorem endsWith_append_singleton (c d : Char) (text : List Char) :
    endsWith c (text ++ [d]) = (d == c) := by
  unfold endsWith
  rw [List.getLast?_append, List.getLast?_singleton]
  rfl

theorem endsWith_eq_false_iff {c : Char} {text : List Char} :
    endsWith c text = false ↔ ∀ d ∈ text.getLast?, (d == c) = false := by
  unfold endsWith
  cases text.getLast? <;> simp

/-- The character just before the last `c`. -/
def beforeLast (c : Char) (text : List Char) : Option Char :=
  (text.reverse.dropWhile (· != c)).tail.head?

theorem beforeLast_append {c : Char} {tail : List Char} (h : c ∉ tail) (text : List Char) :
    beforeLast c (text ++ c :: tail) = text.getLast? := by
  have passed : ∀ d ∈ tail.reverse, (d != c) = true := by
    intro d hd
    rw [bne_iff_ne]
    rintro rfl
    exact h (List.mem_reverse.mp hd)
  rw [beforeLast, List.reverse_append, List.reverse_cons, List.append_assoc,
    List.dropWhile_append_of_pos passed, List.singleton_append,
    List.dropWhile_cons_of_neg (by simp), List.tail_cons, List.head?_reverse]

end SchemaTypegen.Text
