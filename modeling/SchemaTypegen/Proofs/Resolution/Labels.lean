import SchemaTypegen.Proofs.Division.Colons
import SchemaTypegen.Proofs.Resolution.Names

/-!
# Labels of arguments, and members of unions

Two more facts about the schema of a source. The label of an argument is a name: it stands between
the parenthesis or the comma that begins the argument and a colon, and in an entry only a name can
stand there. And a union has a member, since its declaration does not end before one.

* `Entry.labelsNamed_text`, `Resolve.request_labels`: from the colons of an entry to the arguments.
* `Reads.legible`: both facts for a definition.
* **`legible_of_ofSource`**: both facts for the schema of a source.
-/

namespace SchemaTypegen

open Text Grammar

/-! ## Entries -/

/-- What stands between a parenthesis or a comma and a colon is a name, if it has no parenthesis and
no comma in it. -/
def LabelsNamed (entry : String) : Prop :=
  ∀ before sep label after, entry.toList = before ++ sep :: label ++ ':' :: after →
    sep = '(' ∨ sep = ',' → (∀ c ∈ label, isRequestMark c = false) →
    isName (String.ofList label) = true

theorem labelsNamed_of_isName {name : String} (h : isName name = true) : LabelsNamed name := by
  intro before sep label after split
  have colon : ':' ∈ name.toList := by rw [split]; simp
  exact absurd colon (Name.notMem ⟨name, h⟩ (by decide))

/-- What follows the last separator of a text. -/
theorem append_cons_inj_of_requestMark {before before' label label' : List Char} {sep sep' : Char}
    (mark : isRequestMark sep = true) (mark' : isRequestMark sep' = true)
    (own : ∀ c ∈ label, isRequestMark c = false) (own' : ∀ c ∈ label', isRequestMark c = false)
    (h : before ++ sep :: label = before' ++ sep' :: label') : sep = sep' ∧ label = label' := by
  -- From the end, both labels go as far as the first separator.
  have reversed : label.reverse ++ sep :: before.reverse =
      label'.reverse ++ sep' :: before'.reverse := by
    simpa using congrArg List.reverse h
  obtain ⟨same, rest⟩ := append_inj_of_class (p := fun c => !isRequestMark c)
    (fun c hc => by simp [own c (List.mem_reverse.mp hc)])
    (fun c hc => by simp [own' c (List.mem_reverse.mp hc)])
    (by simp [mark]) (by simp [mark']) reversed
  exact ⟨(List.cons.inj rest).1, List.reverse_inj.mp same⟩

/-- In an entry, only a name stands there. -/
theorem Entry.labelsNamed_text {ls : List Lexeme} {es : List Entry} (h : Collects {} ls es)
    (writable : ∀ l ∈ ls, isWritable l = true) {e : Entry} (he : e ∈ es) : LabelsNamed e.text := by
  intro before sep label after split begins own
  have mark : isRequestMark sep = true := by rcases begins with rfl | rfl <;> decide
  obtain ⟨labels, rest, written, labelled, text, -⟩ := labelled_of_colon h writable he split
  have valid : ∀ name : String, Lexeme.name name ∈ labels → isName name = true := by
    intro name mem
    have held : Lexeme.name name ∈ es.flatMap Entry.written :=
      List.mem_flatMap.mpr ⟨e, he, by rw [written]; exact List.mem_append_left _ mem⟩
    exact h.isWritable writable _ held
  cases labelled with
  | field name =>
    have text : name.toList = before ++ sep :: label := by
      rw [← text]
      simp [joinedText, Lexeme.text]
    have within : sep ∈ name.toList := by rw [text]; simp
    have plain := Name.isRequestMark_eq_false_of_mem ⟨name, valid name List.mem_cons_self⟩ within
    exact absurd (mark.symm.trans plain) (by decide)
  | @argument m ls begins' name =>
    have valid := valid name (by simp)
    have text : (joinedText ls).toList ++ m.char :: name.toList = before ++ sep :: label := by
      rw [← text, joinedText_append, String.toList_append, joinedText_cons, String.toList_append,
        Mark.toList_text]
      simp [joinedText, Lexeme.text]
    have mark' : isRequestMark m.char = true := by rcases begins' with rfl | rfl <;> decide
    obtain ⟨-, rfl⟩ := append_cons_inj_of_requestMark mark' mark
      (fun c hc => Name.isRequestMark_eq_false_of_mem ⟨name, valid⟩ hc) own text
    rwa [String.ofList_toList]
  | arguments ls =>
    have text : (joinedText ls).toList ++ ')' :: [] = before ++ sep :: label := by
      rw [← text, joinedText_append, String.toList_append]
      rfl
    obtain ⟨rfl, -⟩ := append_cons_inj_of_requestMark (by decide) mark (by simp) own text
    exact absurd begins (by decide)

/-! ## Requests -/

namespace Resolve

variable {table : NameTable} {d : Definition}

/-- The labels of the arguments of a request are names. -/
theorem request_labels {entry : String} {r : Request} (e : IsEntry entry)
    (labels : LabelsNamed entry) (h : request table d entry = .ok r) :
    ∀ a ∈ r.arguments, isName a.label = true := by
  intro a ha
  obtain ⟨name, rest, whole, begins, -⟩ := e
  obtain ⟨-, parts, read, arguments⟩ := request_of_entry whole begins h
  obtain ⟨raw, hraw, argument⟩ := Success.exists_of_mapM read ha
  obtain ⟨label, signature, place, cut, called, -⟩ := argument_eq_ok argument
  obtain ⟨own, before, sep, after, follows, split⟩ := arguments raw hraw
  have text := eq_append_of_cutAt cut
  rw [text] at own split
  rw [called]
  refine labels (name.text.toList ++ before) sep label (signature ++ after) ?_ follows
    fun c hc => own c (List.mem_append_left _ hc)
  rw [whole, split]
  simp

end Resolve

/-! ## Definitions -/

/-- A definition whose arguments have names for labels and which, if it is a union, has a member. -/
structure Definition.Legible (d : Definition) : Prop where
  labels : ∀ entry ∈ d.entries, LabelsNamed entry
  filled : Keyword.ofName? d.keyword = some .union → d.entries ≠ []

theorem Reads.legible {s : Span} {d : Definition} (h : Reads s d)
    (writable : ∀ p ∈ s.lexemes, isWritable p.lexeme = true) : d.Legible where
  labels := h.forall_entries writable (fun _ => labelsNamed_of_isName)
    fun collects valid _ he => Entry.labelsNamed_text collects valid he
  filled := by
    intro union
    cases h with
    | fields heads keeps =>
      exact absurd (Option.some.inj (heads.spelled.symm.trans union)) keeps.2
    | members heads => exact absurd (heads.spelled.symm.trans union) (by decide)
    | alternatives _ barred same =>
      obtain ⟨p, hp, member⟩ := barred.member
      obtain ⟨name, hname⟩ := Option.isSome_iff_exists.mp member
      rw [same]
      exact List.ne_nil_of_mem (List.mem_filterMap.mpr ⟨p, hp, hname⟩)

theorem Source.legible_of_definitions {source : String} {ds : List Definition}
    (h : Source.definitions source = .ok ds) : ∀ d ∈ ds, d.Legible := by
  intro d hd
  obtain ⟨ps, -, writable, divided⟩ := Source.divided_of_definitions h
  obtain ⟨s, reads, within⟩ := divided.exists_of_mem hd
  exact reads.legible fun p hp => writable p (within p hp)

/-! ## Schemas -/

/-- What is written of a schema can be told apart: labels of arguments are names, and a union has a
member, so that it is not written as `never`. -/
structure Schema.Legible (schema : Schema) : Prop where
  arguments : ∀ q ∈ schema.requests, ∀ a ∈ q.2.arguments, isName a.label = true
  unions : ∀ t ∈ schema.types.values, t.kind = .union → t.body ≠ .members []

theorem Resolved.legible {table : NameTable} {doc : Document} {schema : Schema}
    (h : Resolved table doc schema) (written : ∀ d ∈ doc.roots, d.Written)
    (roots : ∀ d ∈ doc.roots, d.Legible) (types : ∀ d ∈ doc.types, d.Legible) :
    schema.Legible where
  arguments := by
    intro q hq
    obtain ⟨d, hd, -, entry, he, read⟩ := h.exists_entry hq
    exact Resolve.request_labels ((written d hd).entries entry he) ((roots d hd).labels entry he)
      read
  unions := by
    intro t ht union empty
    obtain ⟨d, hd, same, known, body⟩ := h.exists_definition ht
    obtain ⟨keyword, spelled, kind⟩ :=
      Option.map_eq_some_iff.mp (h.lists.kind?_of_mem hd (same ▸ known))
    rw [union] at kind
    have spelled : Keyword.ofName? d.keyword = some .union := by
      cases keyword with
      | union => exact spelled
      | _ => exact absurd kind (by decide)
    rcases Resolve.body_eq_ok body with ⟨enum, -⟩ | ⟨-, entries, -⟩ | ⟨-, -, fields, -, same⟩
    · exact absurd (union.symm.trans enum) (by decide)
    · exact (types d hd).filled spelled (Body.members.inj (entries.symm.trans empty))
    · exact absurd (same.symm.trans empty) (by simp)

/-- **In the schema of a source, labels of arguments are names and unions have members.** -/
theorem Schema.legible_of_ofSource {source : String} {schema : Schema}
    (h : Schema.ofSource source = .ok schema) : schema.Legible := by
  obtain ⟨doc, read, resolved⟩ := Success.bind_eq_ok.mp h
  obtain ⟨table, resolved⟩ := Schema.resolved_of_ofDocument resolved
  obtain ⟨written, -⟩ := Document.written_of_ofSource read
  obtain ⟨ds, defined, rfl⟩ := Success.map_eq_ok.mp read
  have legible := Source.legible_of_definitions defined
  exact resolved.legible written (fun d hd => legible d (List.mem_filter.mp hd).1)
    fun d hd => legible d (List.mem_filter.mp hd).1

end SchemaTypegen
