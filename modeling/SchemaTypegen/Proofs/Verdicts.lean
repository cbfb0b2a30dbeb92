import SchemaTypegen.Proofs.Exports

/-!
# When a golden case passes

A case that expects declarations looks at its output three times: with the header taken off, without
a header, and in a second run. The header is a comment with no slash inside, so it ends where it is
looked for, and what is left is the output without a header. Hence only the first look can complain,
and of the exports only that a label is repeated.

* `withoutHeader_typegen`: taking the header off undoes writing it.
* `Case.judge_of_accepted`, `Case.judge_of_rejected`: the verdict on a source that has a schema, and
  on one that has none.
* **`Case.verdict_exact`**: which cases pass, and which complaints are never made.
-/

namespace SchemaTypegen

/-- The lines between the first and the last of the header have no slash. -/
theorem exists_headerLines (made : Option Moment) : ∃ notes,
    headerLines made = "/*" :: (notes ++ ["*/"]) ∧ ∀ l ∈ notes, '/' ∉ l.toList := by
  have time : '/' ∉ (madeAt made).toList := notMem_madeAt (by decide) (by decide) made
  refine ⟨["* Type Definitions automatically generated via gql-tg" ++ madeAt made ++ ".",
    "* Do not change this file directly as the changes would be overwritten.",
    "* Change the source GraphQL Schema File instead."], rfl, fun l hl => ?_⟩
  simp only [List.mem_cons, List.not_mem_nil, or_false] at hl
  rcases hl with rfl | rfl | rfl
  · rw [String.toList_append, String.toList_append, List.mem_append, List.mem_append]
    exact not_or.mpr ⟨not_or.mpr ⟨by decide, time⟩, by decide⟩
  · decide
  · decide

theorem Text.notMem_unlines {c : Char} (other : c ≠ '\n') {ls : List String}
    (h : ∀ l ∈ ls, c ∉ l.toList) : c ∉ (unlines ls).toList := by
  induction ls with
  | nil => exact List.not_mem_nil
  | cons line ls ih =>
    have first := h line List.mem_cons_self
    have ih := ih fun l hl => h l (List.mem_cons_of_mem line hl)
    simpa [unlines, first, other] using ih

/-- **The header is a comment**, with no slash between its ends. -/
theorem exists_headerText (made : Option Moment) : ∃ inner, '/' ∉ inner ∧
    (headerText made).toList = '/' :: '*' :: (inner ++ ['*', '/', '\n']) := by
  obtain ⟨notes, lines, plain⟩ := exists_headerLines made
  have inside : '/' ∉ (Text.unlines notes).toList := Text.notMem_unlines (by decide) plain
  refine ⟨'\n' :: (Text.unlines notes).toList, by simp [inside], ?_⟩
  rw [headerText_eq_unlines, lines]
  simp [Text.unlines]

namespace Golden

open Files

/-! ## Taking the header off -/

/-- A comment without a slash inside ends where it is closed. -/
theorem afterComment?_append {inner : List Char} (whole : '/' ∉ inner) (rest : List Char) :
    afterComment? (inner ++ '*' :: '/' :: '\n' :: rest) = some rest := by
  induction inner with
  | nil => rfl
  | cons c inner ih =>
    have ih := ih fun mem => whole (List.mem_cons_of_mem c mem)
    rw [List.cons_append, afterComment?, ih]
    -- After a star inside the comment there is no slash, but one of the inner characters or the
    -- star at the end.
    intro later _ slash
    cases inner with
    | nil => exact absurd (List.cons.inj slash).1 (by decide)
    | cons next inner => exact whole (by simp [(List.cons.inj slash).1])

theorem withoutHeader_headerText (made : Option Moment) : withoutHeader (headerText made) = "" := by
  obtain ⟨inner, whole, shape⟩ := exists_headerText made
  rw [withoutHeader, shape]
  simp only [afterComment?_append whole]

theorem withoutHeader_headerText_append (made : Option Moment) (body : String) :
    withoutHeader (headerText made ++ ("\n" ++ body)) = body := by
  obtain ⟨inner, whole, shape⟩ := exists_headerText made
  have text : (headerText made ++ ("\n" ++ body)).toList =
      '/' :: '*' :: (inner ++ '*' :: '/' :: '\n' :: '\n' :: body.toList) := by
    simp [shape]
  rw [withoutHeader, text]
  simp only [afterComment?_append whole, String.ofList_toList]

/-- **Taking the header off undoes writing it.** -/
theorem withoutHeader_typegen (schema : Schema) (order : Order) (now : Moment) :
    withoutHeader (schema.typegen { order } now).text =
      (schema.typegen { Options.bare with order } now).text := by
  have headed := schema.text_typegen_headed true false order "  " now
  by_cases none : schema.declarations order = []
  · have bare : (schema.typegen { Options.bare with order } now).text = "" := by
      simp [Schema.typegen, Options.headerText?, Options.bare, none]
    rw [if_pos none, String.append_empty] at headed
    rw [bare, headed, withoutHeader_headerText]
  · rw [if_neg none] at headed
    rw [headed, withoutHeader_headerText_append]
    rfl

/-! ## The verdict on a source -/

/-- If the header comes off and a second run gives the same, an output is checked for its text and
its exports only. -/
theorem checkOutput_eq {source : String} (expected : String) {order : Order}
    {headed bare : Output} {now : Moment} (stripped : withoutHeader headed.text = bare.text)
    (rerun : typegen source { Options.bare with order } now = .ok bare) :
    checkOutput source expected order headed bare now =
      if bare.text = expected then checkExports bare
      else .error (.mismatch expected bare.text) := by
  unfold checkOutput
  rw [stripped, rerun]
  by_cases same : bare.text = expected
  · simp [same]
  · simp [same, bind, Except.bind, throw, throwThe, MonadExceptOf.throw]

section Accepted

variable {source : String} {schema : Schema} (accepted : Schema.ofSource source = .ok schema)

include accepted

theorem typegen_of_accepted (options : Options) (now : Moment) :
    typegen source options now = .ok (schema.typegen options now) := by
  rw [typegen, accepted]
  rfl

/-- **The verdict on a source that has a schema.** -/
theorem Case.judge_of_accepted (c : Case) (t : Tree) (directory : String) (now : Moment) :
    c.judge t directory source now =
      match c.expected, c.error with
      | some path, none =>
        match t.read (Path.join directory path) with
        | .error cause => .error (.expectedFile cause)
        | .ok text =>
          let bare := schema.typegen { Options.bare with order := c.order } now
          if bare.text = text then checkExports bare else .error (.mismatch text bare.text)
      | none, some kind => .error (.noError kind)
      | _, _ => .error .unclear := by
  have checked := fun text => checkOutput_eq text (withoutHeader_typegen schema c.order now)
    (typegen_of_accepted accepted { Options.bare with order := c.order } now)
  unfold judge
  simp only [typegen_of_accepted accepted]
  cases c.expected with
  | none => cases c.error <;> rfl
  | some path =>
    cases c.error with
    | some kind => rfl
    | none =>
      cases found : t.read (Path.join directory path) with
      | error cause => simp only [found]
      | ok text => simp only [found, checked]

end Accepted

theorem typegen_of_rejected {source : String} {e : Error}
    (rejected : Schema.ofSource source = .error e) (options : Options) (now : Moment) :
    typegen source options now = .error e := by
  rw [typegen, rejected]
  rfl

/-- **The verdict on a source that has no schema.** -/
theorem Case.judge_of_rejected {source : String} {e : Error}
    (rejected : Schema.ofSource source = .error e) (c : Case) (t : Tree) (directory : String)
    (now : Moment) :
    c.judge t directory source now =
      match c.expected, c.error with
      | some _, none => .error (.unexpectedError e)
      | none, some kind => if e.kind = kind then .ok () else .error (.otherError kind e)
      | _, _ => .error .unclear := by
  unfold judge
  simp only [typegen_of_rejected rejected]
  cases c.expected <;> cases c.error <;> rfl

/-! ## The cases that pass -/

/-- A complaint that the header or the run shows in the output, or that something else than a
declaration is exported. -/
def Complaint.isIdle : Complaint → Bool
  | .headerDisturbs | .rerunDiffers | .miscounted _ _ => true
  | _ => false

namespace Case

/-- The case expects declarations, its file holds the output for the source without a header, and
the labels of that output are distinct. -/
def ExpectsOutput (c : Case) (t : Tree) (directory source : String) (now : Moment) : Prop :=
  ∃ path text output schema, c.expected = some path ∧ c.error = none ∧
    t.read (Path.join directory path) = .ok text ∧
    typegen source { Options.bare with order := c.order } now = .ok output ∧ text = output.text ∧
    Schema.ofSource source = .ok schema ∧
    ((schema.declarations c.order).map Declaration.label).Nodup

/-- The case expects an error, and the source is refused with one of that kind. -/
def ExpectsError (c : Case) (source : String) (now : Moment) : Prop :=
  ∃ kind e, c.expected = none ∧ c.error = some kind ∧
    typegen source { Options.bare with order := c.order } now = .error e ∧ e.kind = kind

theorem not_expectsOutput_of_rejected {source : String} {e : Error}
    (rejected : Schema.ofSource source = .error e) (c : Case) (t : Tree) (directory : String)
    (now : Moment) : ¬ c.ExpectsOutput t directory source now := by
  rintro ⟨-, -, -, schema, -, -, -, -, -, accepted, -⟩
  rw [rejected] at accepted
  cases accepted

theorem not_expectsError_of_accepted {source : String} {schema : Schema}
    (accepted : Schema.ofSource source = .ok schema) (c : Case) (now : Moment) :
    ¬ c.ExpectsError source now := by
  rintro ⟨-, e, -, -, failed, -⟩
  rw [typegen_of_accepted accepted] at failed
  cases failed

theorem expectsOutput_iff {source : String} {schema : Schema}
    (accepted : Schema.ofSource source = .ok schema) (c : Case) (t : Tree) (directory : String)
    (now : Moment) :
    c.ExpectsOutput t directory source now ↔ ∃ path, c.expected = some path ∧ c.error = none ∧
      t.read (Path.join directory path) =
        .ok (schema.typegen { Options.bare with order := c.order } now).text ∧
      ((schema.declarations c.order).map Declaration.label).Nodup := by
  constructor
  · rintro ⟨path, text, output, other, expected, none, found, made, rfl, read, distinct⟩
    obtain rfl := Except.ok.inj (accepted.symm.trans read)
    obtain rfl := Except.ok.inj ((typegen_of_accepted accepted _ now).symm.trans made)
    exact ⟨path, expected, none, found, distinct⟩
  · rintro ⟨path, expected, none, found, distinct⟩
    exact ⟨path, _, _, schema, expected, none, found, typegen_of_accepted accepted _ now, rfl,
      accepted, distinct⟩

theorem expectsError_iff {source : String} {e : Error}
    (rejected : Schema.ofSource source = .error e) (c : Case) (now : Moment) :
    c.ExpectsError source now ↔ c.expected = none ∧ c.error = some e.kind := by
  have failed := typegen_of_rejected rejected { Options.bare with order := c.order } now
  constructor
  · rintro ⟨-, e', none, wanted, refused, rfl⟩
    obtain rfl := Except.error.inj (failed.symm.trans refused)
    exact ⟨none, wanted⟩
  · rintro ⟨none, wanted⟩
    exact ⟨e.kind, e, none, wanted, failed, rfl⟩

/-- Which cases pass, given the text of the schema. -/
theorem judge_eq_ok_iff (c : Case) (t : Tree) (directory source : String) (now : Moment) :
    c.judge t directory source now = .ok () ↔
      c.ExpectsOutput t directory source now ∨ c.ExpectsError source now := by
  cases read : Schema.ofSource source with
  | ok schema =>
    obtain ⟨closed, written⟩ := Schema.written_of_ofSource read
    have exports := Schema.checkExports_typegen_iff closed written c.order now
    rw [or_iff_left (not_expectsError_of_accepted read c now), expectsOutput_iff read,
      judge_of_accepted read]
    cases c.expected with
    | none => cases c.error <;> simp
    | some path =>
      cases c.error with
      | some kind => simp
      | none =>
        cases found : t.read (Path.join directory path) with
        | error cause => simp [found]
        | ok text =>
          simp only [found, Option.some.injEq, true_and, exists_eq_left', Except.ok.injEq]
          rw [← exports]
          by_cases same : text = (schema.typegen { Options.bare with order := c.order } now).text
          · simp [same]
          · simp [same, Ne.symm same]
  | error e =>
    rw [or_iff_right (not_expectsOutput_of_rejected read c t directory now),
      expectsError_iff read, judge_of_rejected read]
    cases c.expected <;> cases c.error <;> simp [eq_comm]

theorem isIdle_of_judge {c : Case} {t : Tree} {directory source : String} {now : Moment}
    {complaint : Complaint} (h : c.judge t directory source now = .error complaint) :
    complaint.isIdle = false := by
  cases read : Schema.ofSource source with
  | ok schema =>
    obtain ⟨closed, written⟩ := Schema.written_of_ofSource read
    rw [judge_of_accepted read] at h
    simp only [Schema.checkExports_typegen closed written] at h
    repeat' split at h
    all_goals cases h
    all_goals rfl
  | error e =>
    rw [judge_of_rejected read] at h
    repeat' split at h
    all_goals cases h
    all_goals rfl

theorem isIdle_of_verdict {c : Case} {t : Tree} {directory : String} {now : Moment}
    {complaint : Complaint} (h : c.verdict t directory now = .error complaint) :
    complaint.isIdle = false := by
  unfold verdict at h
  split at h
  · exact isIdle_of_judge h
  · cases h
    rfl

/-- **The verdict on a case is exact.** A case passes exactly if its schema can be read and either
it expects declarations, its file holds the output and the labels of the declarations are distinct,
or it expects an error and the source is refused with one of that kind. Whatever the files and the
case, it is never said that the header disturbs the output, that a second run differs, or that the
exports are miscounted. -/
theorem verdict_exact (c : Case) (t : Tree) (directory : String) (now : Moment) :
    (c.verdict t directory now = .ok () ↔
      ∃ source, readSchema t (Path.join directory c.schema) = .ok source ∧
        (c.ExpectsOutput t directory source now ∨ c.ExpectsError source now)) ∧
    c.verdict t directory now ≠ .error .headerDisturbs ∧
    c.verdict t directory now ≠ .error .rerunDiffers ∧
    ∀ exports declarations,
      c.verdict t directory now ≠ .error (.miscounted exports declarations) := by
  refine ⟨?_, fun h => Bool.noConfusion (isIdle_of_verdict h),
    fun h => Bool.noConfusion (isIdle_of_verdict h),
    fun exports declarations h => Bool.noConfusion (isIdle_of_verdict h)⟩
  unfold verdict
  cases read : readSchema t (Path.join directory c.schema) with
  | ok source => simp [judge_eq_ok_iff]
  | error e => simp

end Case

end Golden

end SchemaTypegen
