import SchemaTypegen.Proofs.Closure
import SchemaTypegen.Proofs.Division.Names

/-!
# The names in the schema of a source

A document of a source holds names where a document in general holds any text. Here that is carried
through resolving: a request and a field take the name that their entry begins with, wherever its
parentheses and colons are, so the schema of a source is made of names.

* `request_of_entry`, `request_named`, `field_named`: what an entry is called.
* **`written_of_ofSource`**: the names in the schema of a source.
-/

namespace SchemaTypegen

open Text Grammar

/-! ## Entries -/

namespace Resolve

/-- An entry is split after its name, or after the parenthesis that closes its arguments. -/
theorem splitRequest?_of_entry {name : Name} {rest head returns : List Char}
    (begins : ∀ c ∈ rest.head?, c = ':' ∨ c = '(')
    (h : splitRequest? (name.text.toList ++ rest) = some (head, returns)) :
    (head = name.text.toList ∧ rest = ':' :: returns) ∨ ∃ arguments, ')' ∉ arguments ∧
      head = name.text.toList ++ '(' :: (arguments ++ [')']) ∧
      rest = '(' :: (arguments ++ [')']) ++ ':' :: returns := by
  have noParen : '(' ∉ name.text.toList := name.notMem (by decide)
  have noColon : ':' ∉ name.text.toList := name.notMem (by decide)
  rw [splitRequest?, cutAt_append_of_notMem noParen, cutAt_append_of_notMem noColon] at h
  cases rest with
  | nil => exact absurd h (by simp [cutAt])
  | cons c rest =>
    rcases begins c rfl with rfl | rfl
    · -- The colon comes first, so whatever parenthesis there may be does not count.
      have cut : cutAt ':' (':' :: rest) = some ([], rest) := by rw [cutAt, if_pos rfl]
      rw [cut, cutAt, if_neg (by decide)] at h
      have same : name.text.toList = head ∧ rest = returns := by
        cases paren : cutAt '(' rest with
        | none => simpa [paren] using h
        | some parts => simpa [paren] using h
      exact Or.inl ⟨same.1.symm, by rw [same.2]⟩
    · have cut : cutAt '(' ('(' :: rest) = some ([], rest) := by rw [cutAt, if_pos rfl]
      have bare : (name.text.toList ++ []).contains ':' = false := by simpa using noColon
      rw [cut, Option.map_some] at h
      simp only [bare, Bool.false_eq_true, if_false] at h
      split at h
      · rename_i arguments returns' closed
        obtain ⟨rfl, rfl⟩ := Prod.mk.inj (Option.some.inj h)
        refine Or.inr ⟨arguments, notMem_of_cutAt closed, by simp, ?_⟩
        rw [eq_append_of_cutAt closed]
        simp
      · exact absurd h (by simp)

section Parts

variable (name : Name)

theorem requestParts_name : requestParts name.text.toList = [name.text] := by
  have whole : ∀ c ∈ name.text.toList, isRequestMark c = false :=
    fun _ hc => name.isRequestMark_eq_false_of_mem hc
  have kept : (!name.text.toList.isEmpty) = true := by simpa using name.toList_ne_nil
  have taken : requestParts name.text.toList =
      ((pieces isRequestMark name.text.toList).filter (!·.isEmpty)).map String.ofList := rfl
  rw [taken, pieces_of_all whole, List.filter_cons, if_pos kept]
  simp

theorem requestParts_append (arguments : List Char) :
    requestParts (name.text.toList ++ '(' :: arguments) =
      name.text :: ((pieces isRequestMark arguments).filter (!·.isEmpty)).map String.ofList := by
  have whole : ∀ c ∈ name.text.toList, isRequestMark c = false :=
    fun _ hc => name.isRequestMark_eq_false_of_mem hc
  have kept : (!name.text.toList.isEmpty) = true := by simpa using name.toList_ne_nil
  have taken : requestParts (name.text.toList ++ '(' :: arguments) =
      ((pieces isRequestMark (name.text.toList ++ '(' :: arguments)).filter (!·.isEmpty)).map
        String.ofList := rfl
  rw [taken, pieces_append whole (by decide), List.filter_cons, if_pos kept]
  simp

end Parts

/-- A part of a text that a parenthesis or a comma stands before, and none in it. -/
structure IsArgument (text part : List Char) : Prop where
  own : ∀ c ∈ part, isRequestMark c = false
  follows : ∃ before sep after, (sep = '(' ∨ sep = ',') ∧ text = before ++ sep :: part ++ after

theorem IsArgument.mem {text part : List Char} (h : IsArgument text part) {c : Char}
    (hc : c ∈ part) : c ∈ text := by
  obtain ⟨before, sep, after, -, rfl⟩ := h.follows
  simp [hc]

/-- The parts of a list of arguments are arguments. -/
theorem isArgument_of_mem_pieces {arguments piece : List Char} (clean : ')' ∉ arguments)
    (h : piece ∈ pieces isRequestMark (arguments ++ [')'])) (filled : piece ≠ [])
    (rest : List Char) : IsArgument ('(' :: (arguments ++ [')']) ++ rest) piece := by
  obtain ⟨own, before, after, split, separated⟩ := exists_of_mem_pieces h
  refine ⟨own, ?_⟩
  rcases List.eq_nil_or_concat before with rfl | ⟨init, sep, rfl⟩
  · exact ⟨[], '(', after ++ rest, Or.inl rfl, by rw [split]; simp⟩
  · have mark : isRequestMark sep = true := separated sep (by simp)
    refine ⟨'(' :: init, sep, after ++ rest, ?_, by rw [split]; simp⟩
    have choice : (sep = '(' ∨ sep = ',') ∨ sep = ')' := by
      simpa [isRequestMark, or_assoc] using mark
    refine choice.resolve_right ?_
    -- The closing parenthesis is the last character, so no piece follows it but the empty one.
    rintro rfl
    have split : arguments ++ [')'] = init ++ ')' :: (piece ++ after) := by simpa using split
    rcases List.append_eq_append_iff.mp split with ⟨more, rfl, rest⟩ | ⟨more, rfl, rest⟩
    · have long := congrArg List.length rest
      have some := List.length_pos_iff.mpr filled
      simp only [List.length_append, List.length_cons, List.length_nil] at long
      omega
    · cases more with
      | nil => exact filled (List.append_eq_nil_iff.mp (List.cons.inj rest).2).1
      | cons c more =>
        obtain ⟨rfl, -⟩ := List.cons.inj rest
        exact clean (List.mem_append_right init List.mem_cons_self)

variable {table : NameTable} {d : Definition}

/-- A request has the name its entry begins with, and its arguments are read from what follows. -/
theorem request_of_entry {name : Name} {rest : List Char} {entry : String} {r : Request}
    (text : entry.toList = name.text.toList ++ rest) (begins : ∀ c ∈ rest.head?, c = ':' ∨ c = '(')
    (h : request table d entry = .ok r) :
    r.name = name.text ∧ ∃ parts : List String,
      parts.mapM (argument table d r.name) = .ok r.arguments ∧
        ∀ part ∈ parts, IsArgument rest part.toList := by
  obtain ⟨head, returns, parts, place, split, taken, read, -⟩ := request_eq_ok h
  rw [text] at split
  rcases splitRequest?_of_entry begins split with ⟨rfl, -⟩ | ⟨arguments, clean, rfl, rfl⟩
  · rw [requestParts_name] at taken
    obtain ⟨named, rfl⟩ := List.cons.inj taken
    exact ⟨named.symm, [], read, fun part hp => absurd hp List.not_mem_nil⟩
  · rw [requestParts_append] at taken
    obtain ⟨named, rfl⟩ := List.cons.inj taken
    refine ⟨named.symm, _, read, fun part hp => ?_⟩
    obtain ⟨piece, hpiece, rfl⟩ := List.mem_map.mp hp
    obtain ⟨hpiece, filled⟩ := List.mem_filter.mp hpiece
    rw [String.toList_ofList]
    exact isArgument_of_mem_pieces clean hpiece (by simpa using filled) _

/-- The name of a request is one, and the labels of its arguments are on one line and end at the
first colon. -/
theorem request_named {entry : String} {r : Request} (e : IsEntry entry)
    (h : request table d entry = .ok r) :
    isName r.name = true ∧ ∀ a ∈ r.arguments, '\n' ∉ a.label.toList ∧ ':' ∉ a.label.toList := by
  obtain ⟨name, rest, text, begins, oneLine⟩ := e
  obtain ⟨named, parts, read, arguments⟩ := request_of_entry text begins h
  refine ⟨named ▸ name.valid, fun a ha => ?_⟩
  obtain ⟨raw, hraw, argument⟩ := Success.exists_of_mapM read ha
  obtain ⟨label, signature, place, cut, called, -⟩ := argument_eq_ok argument
  rw [called, String.toList_ofList]
  refine ⟨fun newline => ?_, notMem_of_cutAt cut⟩
  have inRaw : '\n' ∈ raw.toList := by
    rw [eq_append_of_cutAt cut]
    exact List.mem_append_left _ newline
  exact oneLine ((arguments raw hraw).mem inRaw)

theorem field_named {entry : String} {f : Field} (e : IsEntry entry)
    (h : field table d entry = .ok f) : isName f.label = true := by
  rcases field_eq_ok h with ⟨r, read, rfl⟩ | ⟨bare, label, signature, place, cut, called, -⟩
  · exact (request_named e read).1
  · obtain ⟨name, rest, text, begins, -⟩ := e
    have noColon : ':' ∉ name.text.toList := name.notMem (by decide)
    rw [text] at cut bare
    cases rest with
    | nil =>
      rw [List.append_nil, cutAt_eq_none noColon] at cut
      exact absurd cut (by simp)
    | cons c rest =>
      rcases begins c rfl with rfl | rfl
      · rw [cutAt_append noColon] at cut
        rw [called, ← (Prod.mk.inj (Option.some.inj cut)).1, String.ofList_toList]
        exact name.valid
      · exact absurd (List.mem_append_right _ List.mem_cons_self) bare

end Resolve

/-! ## Schemas -/

/-- What the names in a schema look like if it can be written down. -/
structure Schema.Written (schema : Schema) : Prop where
  labels : ∀ t ∈ schema.types.values, isName t.label = true
  fields : ∀ t ∈ schema.types.values, ∀ fields, t.body = .fields fields →
    ∀ f ∈ fields, isName f.label = true
  members : ∀ t ∈ schema.types.values, ∀ members, t.body = .members members →
    ∀ member ∈ members, isName member = true
  requests : ∀ q ∈ schema.requests, isName q.2.name = true
  arguments : ∀ q ∈ schema.requests, ∀ a ∈ q.2.arguments,
    '\n' ∉ a.label.toList ∧ ':' ∉ a.label.toList
  types : ∀ t ∈ schema.fieldTypes, isName t.baseText = true

namespace Resolved

variable {table : NameTable} {doc : Document} {schema : Schema} (h : Resolved table doc schema)
  (roots : ∀ d ∈ doc.roots, d.Written) (types : ∀ d ∈ doc.types, d.Written)

include h types

theorem isName_label : ∀ t ∈ schema.types.values, isName t.label = true := by
  intro t ht
  obtain ⟨d, hd, same, -⟩ := h.exists_definition ht
  exact same ▸ (types d hd).label

/-- The base of a type is a built-in type or the label of a named one. -/
theorem isName_baseText : ∀ t ∈ schema.fieldTypes, isName t.baseText = true := by
  intro t ht
  unfold FieldType.baseText
  split
  · rename_i scalar _
    cases scalar <;> decide
  · rename_i kind label named
    obtain ⟨u, found, -⟩ := h.closed.references t ht kind label named
    rw [← Emission.label_of_get? h.labelled found]
    exact h.isName_label types u (Catalog.mem_values_of_get? found)

theorem isName_member : ∀ t ∈ schema.types.values, ∀ members, t.body = .members members →
    ∀ member ∈ members, isName member = true := by
  intro t ht members held
  obtain ⟨d, hd, same, known, body⟩ := h.exists_definition ht
  obtain ⟨keyword, spelled, kind⟩ :=
    Option.map_eq_some_iff.mp (h.lists.kind?_of_mem hd (same ▸ known))
  have listed : keyword = .enum ∨ keyword = .union → d.entries = members →
      ∀ member ∈ members, isName member = true :=
    fun kept entries => entries ▸ (types d hd).members keyword spelled kept
  rcases Resolve.body_eq_ok body with ⟨enum, entries⟩ | ⟨union, entries, -⟩ | ⟨-, -, _, -, fields⟩
  · rw [← kind] at enum
    refine listed (Or.inl ?_) (Body.members.inj (entries.symm.trans held))
    cases keyword with
    | enum => rfl
    | _ => exact absurd enum (by decide)
  · rw [← kind] at union
    refine listed (Or.inr ?_) (Body.members.inj (entries.symm.trans held))
    cases keyword with
    | union => rfl
    | _ => exact absurd union (by decide)
  · exact absurd (fields.symm.trans held) (by simp)

include roots

theorem written : schema.Written where
  labels := h.isName_label types
  members := h.isName_member types
  types := h.isName_baseText types
  fields := by
    intro t ht fields held f hf
    obtain ⟨d, hd, -, -, body⟩ := h.exists_definition ht
    rcases Resolve.body_eq_ok body with ⟨-, same⟩ | ⟨-, same, -⟩ | ⟨-, -, fields', read, same⟩
    · exact absurd (same.symm.trans held) (by simp)
    · exact absurd (same.symm.trans held) (by simp)
    · obtain rfl := Body.fields.inj (same.symm.trans held)
      obtain ⟨entry, he, field⟩ := Success.exists_of_mapM read hf
      exact Resolve.field_named ((types d hd).entries entry he) field
  requests := by
    intro q hq
    obtain ⟨d, hd, -, entry, he, read⟩ := h.exists_entry hq
    exact (Resolve.request_named ((roots d hd).entries entry he) read).1
  arguments := by
    intro q hq
    obtain ⟨d, hd, -, entry, he, read⟩ := h.exists_entry hq
    exact (Resolve.request_named ((roots d hd).entries entry he) read).2

end Resolved

/-- **The schema of a source is closed and made of names.** -/
theorem Schema.written_of_ofSource {source : String} {schema : Schema}
    (h : Schema.ofSource source = .ok schema) : schema.Closed ∧ schema.Written := by
  obtain ⟨doc, read, resolved⟩ := Success.bind_eq_ok.mp h
  obtain ⟨table, resolved⟩ := Schema.resolved_of_ofDocument resolved
  obtain ⟨roots, types⟩ := Document.written_of_ofSource read
  exact ⟨resolved.closed, resolved.written roots types⟩

end SchemaTypegen
