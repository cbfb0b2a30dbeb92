import SchemaTypegen.Proofs.Resolution.Names

/-!
# The labels of argument interfaces

The label of an argument interface is the name of the request as a camel-case word, followed by a
suffix for its root. Names are ASCII, so the word is a name again: its first letter is a capital,
and the others are small unless the name has humps.

* `isName_argumentLabel`: the label is a name.
* `argumentLabel_eq_iff`: two labels are equal only if the roots are and the words are. Different
  names may well make equal words.
-/

namespace SchemaTypegen

open Text Grammar

/-! ## Letter case -/

namespace Text

theorem toNat_lt_of_isNameChar {c : Char} (h : isNameChar c = true) : c.toNat < 128 := by
  have := toNat_of_isNameChar h
  omega

theorem isNameChar_toLower {c : Char} (h : isNameChar c = true) : isNameChar c.toLower = true := by
  have ascii : ∀ n < 128, isNameChar (Char.ofNat n) = true →
      isNameChar (Char.ofNat n).toLower = true := by decide
  have := ascii c.toNat (toNat_lt_of_isNameChar h)
  rw [Char.ofNat_toNat] at this
  exact this h

theorem isNameStart_case {c : Char} (h : isNameStart c = true) :
    isNameStart c.toLower = true ∧ isNameStart c.toUpper = true := by
  have ascii : ∀ n < 128, isNameStart (Char.ofNat n) = true →
      isNameStart (Char.ofNat n).toLower = true ∧
        isNameStart (Char.ofNat n).toUpper = true := by decide
  have := ascii c.toNat (toNat_lt_of_isNameChar (isNameChar_of_isNameStart h))
  rw [Char.ofNat_toNat] at this
  exact this h

/-- Name characters are put in lower case one by one. -/
theorem lowerAfter_eq_map (text : List Char) : ∀ before, (∀ c ∈ text, isNameChar c = true) →
    lowerAfter before text = text.map Char.toLower := by
  induction text with
  | nil => exact fun _ _ => rfl
  | cons c text ih =>
    intro before named
    have hc := toNat_lt_of_isNameChar (named c List.mem_cons_self)
    have apart : c ≠ sigma := by
      rintro rfl
      exact absurd hc (by decide)
    rw [lowerAfter, if_neg apart, lowerChar, if_pos hc,
      ih _ fun d hd => named d (List.mem_cons_of_mem c hd)]
    rfl

end Text

/-- A camel-case word of a name is a name. -/
theorem isName_camelWord {name : String} (h : isName name = true) :
    isName (camelWord name) = true := by
  obtain ⟨c, rest, text, start, others⟩ := isName_iff.mp h
  have all : ∀ d ∈ c :: rest, isNameChar d = true :=
    List.forall_mem_cons.mpr ⟨isNameChar_of_isNameStart start, others⟩
  -- Whether or not it is put in lower case, it begins as a name does and goes on as one.
  obtain ⟨c', rest', word, start', others'⟩ : ∃ c' rest',
      (if hasHump name.toList then name.toList else lower name.toList) = c' :: rest' ∧
        isNameStart c' = true ∧ ∀ d ∈ rest', isNameChar d = true := by
    split
    · exact ⟨c, rest, text, start, others⟩
    · refine ⟨c.toLower, rest.map Char.toLower, ?_, (isNameStart_case start).1, fun d hd => ?_⟩
      · rw [text, lower, lowerAfter_eq_map _ _ all]
        rfl
      · obtain ⟨e, he, rfl⟩ := List.mem_map.mp hd
        exact isNameChar_toLower (others e he)
  have ascii := toNat_lt_of_isNameChar (isNameChar_of_isNameStart start')
  refine isName_iff.mpr ⟨c'.toUpper, rest', ?_, (isNameStart_case start').2, others'⟩
  unfold camelWord
  simp only [word, capitalize, upperChar, ascii, if_true, String.toList_ofList]
  rfl

/-! ## Suffixes -/

namespace Declaration

/-- What follows the word of the request. -/
def argumentSuffix : RootKind → String
  | .query => "QueryArgs"
  | .mutation => "MutationArgs"
  | .subscription => "SubscriptionArgs"

theorem argumentLabel_eq (kind : RootKind) (r : Request) :
    argumentLabel kind r = camelWord r.name ++ argumentSuffix kind := by
  have suffix : camelWord kind.word ++ (camelWord "ARGS" ++ "") = argumentSuffix kind := by
    cases kind <;> decide
  rw [← suffix, argumentLabel, camelJoin]
  simp only [List.map_cons, List.map_nil, String.join_cons, String.join_nil]

theorem isName_argumentLabel (kind : RootKind) {r : Request} (h : isName r.name = true) :
    isName (argumentLabel kind r) = true := by
  rw [argumentLabel_eq]
  refine isName_append (isName_camelWord h) ?_
  cases kind <;> decide

/-- The suffixes differ in their last nine letters. -/
theorem argumentSuffix_inj {word word' : String} {kind kind' : RootKind}
    (h : word ++ argumentSuffix kind = word' ++ argumentSuffix kind') : kind = kind' := by
  have last : ∀ (word : String) (kind : RootKind),
      (word ++ argumentSuffix kind).toList.reverse.take 9 =
        (argumentSuffix kind).toList.reverse.take 9 := by
    intro word kind
    have long : 9 ≤ (argumentSuffix kind).toList.reverse.length := by cases kind <;> decide
    rw [String.toList_append, List.reverse_append, List.take_append_of_le_length long]
  have ends := congrArg (fun text : String => text.toList.reverse.take 9) h
  simp only [last] at ends
  revert ends
  cases kind <;> cases kind' <;> decide

/-- **Labels of argument interfaces are told apart by root and word.** -/
theorem argumentLabel_eq_iff {kind kind' : RootKind} {r r' : Request} :
    argumentLabel kind r = argumentLabel kind' r' ↔
      (kind, camelWord r.name) = (kind', camelWord r'.name) := by
  rw [argumentLabel_eq, argumentLabel_eq, Prod.mk.injEq]
  constructor
  · intro same
    obtain rfl := argumentSuffix_inj same
    exact ⟨rfl, (String.append_left_inj _).mp same⟩
  · rintro ⟨rfl, same⟩
    rw [same]

end Declaration

end SchemaTypegen
