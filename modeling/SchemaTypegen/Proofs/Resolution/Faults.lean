import SchemaTypegen.Proofs.Resolution.Names

/-!
# What cannot be wrong with the document of a source

The resolver is made for any document and checks what a document of a source always has: that a
keyword is one, that a label is in the table, that an entry has a name, that a field has a colon or
a parenthesis. Each of these checks passes for a reason of its own, found where the definitions are
read. `Regular` collects these reasons for one definition, and `OnlyFails` carries them through the
resolver: an error of the whole is an error of one of its parts.

* `Reads.regular`: what holds of every definition of a source.
* **`ofDocument_ne_defensive`**: the errors that no document of a source is refused with.
-/

namespace SchemaTypegen

open Text Grammar

/-! ## Errors of the parts -/

/-- Every error of a computation is one of a kind. -/
def OnlyFails {ε α : Type} (P : ε → Prop) (x : Except ε α) : Prop := ∀ e, x = .error e → P e

namespace OnlyFails

variable {ε α β : Type} {P : ε → Prop}

theorem ok (a : α) : OnlyFails P (.ok a) := by
  intro e h
  cases h

theorem error {e : ε} (h : P e) : OnlyFails P (.error e : Except ε α) := by
  intro e' h'
  exact Except.error.inj h' ▸ h

theorem bind {x : Except ε α} {f : α → Except ε β} (h : OnlyFails P x)
    (next : ∀ a, x = .ok a → OnlyFails P (f a)) : OnlyFails P (x >>= f) := by
  cases x with
  | error e => exact error (h e rfl)
  | ok a => exact next a rfl

theorem mapM {f : α → Except ε β} {xs : List α} (h : ∀ x ∈ xs, OnlyFails P (f x)) :
    OnlyFails P (xs.mapM f) := by
  induction xs with
  | nil => exact ok []
  | cons x xs ih =>
    rw [List.mapM_cons]
    have rest := ih fun y hy => h y (List.mem_cons_of_mem x hy)
    exact (h x List.mem_cons_self).bind fun y _ => rest.bind fun ys _ => ok (y :: ys)

theorem foldlM {f : β → α → Except ε β} {xs : List α} (h : ∀ b, ∀ x ∈ xs, OnlyFails P (f b x))
    (b : β) : OnlyFails P (xs.foldlM f b) := by
  induction xs generalizing b with
  | nil => exact ok b
  | cons x xs ih =>
    rw [List.foldlM_cons]
    have rest := ih fun b y hy => h b y (List.mem_cons_of_mem x hy)
    exact (h b x List.mem_cons_self).bind fun b' _ => rest b'

end OnlyFails

/-! ## Regular definitions -/

/-- Whether an error says of a document what is true of no document of a source: that a keyword is
none, that a label is not in the table, that an entry has no name, or that a field has no colon. -/
def Error.isDefensive : Error → Bool
  | .malformed _ (.unknownKeyword _) | .malformed _ (.unregistered _)
  | .malformed _ (.namelessRequest _ _) | .malformed _ (.untypedField _ _) => true
  | _ => false

/-- A definition with a keyword, with entries that begin with a name, and with a colon or a
parenthesis in each of them if they are fields. -/
structure Definition.Regular (d : Definition) : Prop where
  declared : d.kind?.isSome
  entries : ∀ entry ∈ d.entries, IsEntry entry
  marked : d.kind? ≠ some .enum → d.kind? ≠ some .union →
    ∀ entry ∈ d.entries, ':' ∈ entry.toList ∨ '(' ∈ entry.toList

/-- The name of a field is followed by a colon or a parenthesis. -/
theorem Entry.mark_mem_text {ls : List Lexeme} {es : List Entry} (h : Collects {} ls es) {e : Entry}
    (he : e ∈ es) : ':' ∈ e.text.toList ∨ '(' ∈ e.text.toList := by
  obtain ⟨name, m, rest, written, mark⟩ := h.begun e he
  have text : e.text = name ++ ((Lexeme.mark m).text ++ joinedText rest) := by
    rw [← joinedText_cons]
    exact (congrArg joinedText written).trans (joinedText_cons _ _)
  rw [text, String.toList_append, String.toList_append, Mark.toList_text]
  rcases mark with rfl | rfl
  · exact Or.inl (by simp [Mark.char])
  · exact Or.inr (by simp [Mark.char])

/-- **Every definition of a source is regular.** -/
theorem Reads.regular {s : Span} {d : Definition} (h : Reads s d)
    (writable : ∀ p ∈ s.lexemes, isWritable p.lexeme = true) : d.Regular where
  declared := by
    obtain ⟨keyword, heads⟩ := h.exists_heads
    simp [Definition.kind?, heads.spelled]
  entries := (h.written writable).entries
  marked := by
    intro enum union entry mem
    cases h with
    | fields _ _ _ collects same =>
      rw [same] at mem
      obtain ⟨e, he, rfl⟩ := List.mem_map.mp mem
      exact Entry.mark_mem_text collects he
    | members heads => exact absurd (by simp [Definition.kind?, heads.spelled, Keyword.kind]) enum
    | alternatives heads =>
      exact absurd (by simp [Definition.kind?, heads.spelled, Keyword.kind]) union

theorem Source.regular_of_definitions {source : String} {ds : List Definition}
    (h : Source.definitions source = .ok ds) : ∀ d ∈ ds, d.Regular := by
  intro d hd
  obtain ⟨ps, -, writable, divided⟩ := Source.divided_of_definitions h
  obtain ⟨s, reads, within⟩ := divided.exists_of_mem hd
  exact reads.regular fun p hp => writable p (within p hp)

theorem Document.regular_of_ofSource {source : String} {doc : Document}
    (h : Document.ofSource source = .ok doc) :
    (∀ d ∈ doc.roots, d.Regular) ∧ ∀ d ∈ doc.types, d.Regular := by
  obtain ⟨ds, defined, rfl⟩ := Success.map_eq_ok.mp h
  have regular := Source.regular_of_definitions defined
  exact ⟨fun d hd => regular d (List.mem_filter.mp hd).1,
    fun d hd => regular d (List.mem_filter.mp hd).1⟩

/-! ## The table -/

/-- The computation does not fail with a defensive error. -/
abbrev NeverDefends {α : Type} (x : Except Error α) : Prop :=
  OnlyFails (fun e => e.isDefensive = false) x

namespace NameTable

theorem neverDefends_add (table : NameTable) {d : Definition} (declared : d.kind?.isSome) :
    NeverDefends (table.add d) := by
  obtain ⟨kind, declared⟩ := Option.isSome_iff_exists.mp declared
  obtain ⟨keyword, spelled, -⟩ := Option.map_eq_some_iff.mp declared
  simp only [add, spelled]
  split
  · exact OnlyFails.error rfl
  · exact OnlyFails.ok _

theorem neverDefends_resolve (table : NameTable) (label : String) (place : Place) :
    NeverDefends (table.resolve label place) := by
  unfold resolve
  split
  · split
    · exact OnlyFails.ok _
    · exact OnlyFails.error rfl
  · exact OnlyFails.ok _
  · exact OnlyFails.error rfl

/-- In the table of definitions only the built-in scalars are scalars. -/
theorem Lists.ofLabel?_of_scalar {table : NameTable} {ds : List Definition} (h : table.Lists ds)
    {label : String} (known : table.kind? label = some .scalar) :
    ∃ s, Scalar.ofLabel? label = some s := by
  rcases (h.known label .scalar).mp known with ⟨-, scalar⟩ | ⟨d, -, -, declared⟩
  · exact Option.isSome_iff_exists.mp scalar
  · exact absurd rfl (Definition.ne_scalar_of_kind? declared)

/-- The label of a definition is in the table. -/
theorem Lists.isSome_kind? {table : NameTable} {ds : List Definition} (h : table.Lists ds)
    {d : Definition} (hd : d ∈ ds) (declared : d.kind?.isSome) :
    ∃ kind, table.kind? d.label = some kind := by
  obtain ⟨kind, declared⟩ := Option.isSome_iff_exists.mp declared
  exact ⟨kind, (h.known d.label kind).mpr (Or.inr ⟨d, hd, rfl, declared⟩)⟩

end NameTable

/-! ## Entries and definitions -/

namespace Resolve

variable (table : NameTable) {d : Definition}

theorem neverDefends_fieldType (d : Definition) (raw : String) (place : Place) :
    NeverDefends (fieldType table d raw place) := by
  unfold fieldType
  split
  · exact OnlyFails.error rfl
  · exact (table.neverDefends_resolve _ place).bind fun _ _ => OnlyFails.ok _

theorem neverDefends_argument (d : Definition) (name raw : String) :
    NeverDefends (argument table d name raw) := by
  unfold argument
  split
  · exact OnlyFails.error rfl
  · exact (neverDefends_fieldType table d _ _).bind fun _ _ => OnlyFails.ok _

/-- The head of an entry has a name. -/
theorem requestParts_ne_nil {entry : String} (e : IsEntry entry) {head returns : List Char}
    (split : splitRequest? entry.toList = some (head, returns)) : requestParts head ≠ [] := by
  obtain ⟨name, rest, text, begins, -⟩ := e
  rw [text] at split
  rcases splitRequest?_of_entry begins split with ⟨rfl, -⟩ | ⟨arguments, -, rfl, -⟩
  · rw [requestParts_name]
    exact List.cons_ne_nil _ _
  · rw [requestParts_append]
    exact List.cons_ne_nil _ _

theorem neverDefends_request (d : Definition) {entry : String} (e : IsEntry entry) :
    NeverDefends (request table d entry) := by
  unfold request
  split
  · exact OnlyFails.error rfl
  · rename_i head returns cut
    split
    · rename_i nameless
      exact absurd nameless (requestParts_ne_nil e cut)
    · rename_i name rest _
      have arguments := OnlyFails.mapM fun raw (_ : raw ∈ rest) =>
        neverDefends_argument table d name raw
      exact arguments.bind fun _ _ => (neverDefends_fieldType table d _ _).bind fun _ _ =>
        OnlyFails.ok _

theorem neverDefends_field (d : Definition) {entry : String} (e : IsEntry entry)
    (marked : ':' ∈ entry.toList ∨ '(' ∈ entry.toList) : NeverDefends (field table d entry) := by
  unfold field
  split
  · exact (neverDefends_request table d e).bind fun _ _ => OnlyFails.ok _
  · rename_i bare
    have colon : ':' ∈ entry.toList := marked.resolve_right (by simpa using bare)
    split
    · rename_i uncut
      obtain ⟨left, right, text, first⟩ := List.eq_append_cons_of_mem colon
      rw [text, cutAt_append first] at uncut
      cases uncut
    · exact (neverDefends_fieldType table d _ _).bind fun _ _ => OnlyFails.ok _

theorem neverDefends_addRoot (roots : Roots) (regular : d.Regular) :
    NeverDefends (addRoot table roots d) := by
  have requests : NeverDefends (d.entries.mapM (request table d)) :=
    OnlyFails.mapM fun entry mem => neverDefends_request table d (regular.entries entry mem)
  unfold addRoot
  split
  · exact OnlyFails.ok roots
  · split
    · exact OnlyFails.error rfl
    · refine requests.bind fun rs _ => ?_
      split
      · exact OnlyFails.error rfl
      · exact OnlyFails.ok _

/-- The entries of a definition are read as what its own keyword declares. -/
theorem neverDefends_body (regular : d.Regular) {kind : Kind} (declared : d.kind? = some kind) :
    NeverDefends (body table d kind) := by
  have fields : kind ≠ .enum → kind ≠ .union → NeverDefends (d.entries.mapM (field table d)) := by
    intro enum union
    refine OnlyFails.mapM fun entry mem => ?_
    refine neverDefends_field table d (regular.entries entry mem) (regular.marked ?_ ?_ entry mem)
    · simpa [declared] using enum
    · simpa [declared] using union
  cases kind with
  | enum => exact OnlyFails.ok _
  | union =>
    have members := OnlyFails.mapM fun member (_ : member ∈ d.entries) =>
      table.neverDefends_resolve member (.union d.label)
    exact members.bind fun _ _ => OnlyFails.ok _
  | scalar | input | interface | object =>
    exact (fields (by decide) (by decide)).bind fun _ _ => OnlyFails.ok _

variable {table}

theorem neverDefends_addType {ds : List Definition} (lists : table.Lists ds) (hd : d ∈ ds)
    (regular : d.Regular) (types : Catalog String TypeDef) :
    NeverDefends (addType table types d) := by
  obtain ⟨kind, known⟩ := lists.isSome_kind? hd regular.declared
  have body := neverDefends_body table regular (lists.kind?_of_mem hd known)
  have type : NeverDefends (typeDef table d) := by
    simp only [typeDef, known]
    exact body.bind fun _ _ => OnlyFails.ok _
  exact type.bind fun _ _ => OnlyFails.ok _

end Resolve

/-! ## Documents -/

theorem Schema.neverDefends_ofDocument {doc : Document} (roots : ∀ d ∈ doc.roots, d.Regular)
    (types : ∀ d ∈ doc.types, d.Regular) : NeverDefends (Schema.ofDocument doc) := by
  have made : NeverDefends (NameTable.ofDefinitions doc.types) :=
    OnlyFails.foldlM (fun table d hd => table.neverDefends_add (types d hd).declared) _
  unfold Schema.ofDocument
  split
  · exact OnlyFails.error rfl
  · refine made.bind fun table listed => ?_
    have lists := NameTable.lists_of_ofDefinitions listed
    have stored := OnlyFails.foldlM
      (fun known d hd => Resolve.neverDefends_addRoot table known (roots d hd)) {}
    have added := OnlyFails.foldlM
      (fun known d hd => Resolve.neverDefends_addType lists hd (types d hd) known) Catalog.empty
    exact stored.bind fun _ _ => added.bind fun _ _ => OnlyFails.ok _

/-- **No document of a source is refused for what its source rules out.** Whatever the source, if it
has a document then resolving it does not fail with an unknown keyword, a label that is not in the
table, an entry without a name or a field without a colon. And in the table of that document, a name
with the kind of a scalar is never unresolved. -/
theorem Schema.ofDocument_ne_defensive {source : String} {doc : Document}
    (h : Document.ofSource source = .ok doc) :
    (∀ line keyword, Schema.ofDocument doc ≠ .error (.malformed line (.unknownKeyword keyword))) ∧
    (∀ line label, Schema.ofDocument doc ≠ .error (.malformed line (.unregistered label))) ∧
    (∀ line entry label,
      Schema.ofDocument doc ≠ .error (.malformed line (.namelessRequest entry label))) ∧
    (∀ line field label,
      Schema.ofDocument doc ≠ .error (.malformed line (.untypedField field label))) ∧
    ∀ table, NameTable.ofDefinitions doc.types = .ok table →
      ∀ label place, table.kind? label = some .scalar →
        ∃ s, table.resolve label place = .ok (.scalar s) := by
  obtain ⟨roots, types⟩ := Document.regular_of_ofSource h
  have never := Schema.neverDefends_ofDocument roots types
  refine ⟨fun _ _ failed => ?_, fun _ _ failed => ?_, fun _ _ _ failed => ?_,
    fun _ _ _ failed => ?_, fun table made label place known => ?_⟩
  · exact Bool.noConfusion (never _ failed)
  · exact Bool.noConfusion (never _ failed)
  · exact Bool.noConfusion (never _ failed)
  · exact Bool.noConfusion (never _ failed)
  · obtain ⟨s, found⟩ := (NameTable.lists_of_ofDefinitions made).ofLabel?_of_scalar known
    exact ⟨s, by simp only [NameTable.resolve, known, found]⟩

/-! ### Entries that are refused for another reason -/

/-- An enum called like a root, and a field with two lists of arguments and nothing in its
brackets. -/
def oddSource : String := "ENUM Query\x7bA\x7dtype T\x7bf(a)(b:Int):[]\x7d"

/-- The document of `oddSource`. -/
def oddDocument : Document where
  roots := [⟨"ENUM", "Query", ["A"], 1⟩]
  types := [⟨"type", "T", ["f(a)(b:Int):[]"], 1⟩]

theorem Source.definitions_oddSource : Source.definitions oddSource =
    .ok [⟨"ENUM", "Query", ["A"], 1⟩, ⟨"type", "T", ["f(a)(b:Int):[]"], 1⟩] :=
  Source.definitions_of_sweep (onLine 1
    [.name "ENUM", .name "Query", .mark .openBrace, .name "A", .mark .closeBrace,
      .name "type", .name "T", .mark .openBrace, .name "f", .mark .openParen, .name "a",
      .mark .closeParen, .mark .openParen, .name "b", .mark .colon, .name "Int", .mark .closeParen,
      .mark .colon, .mark .openBracket, .mark .closeBracket, .mark .closeBrace])
    (by decide) (by rfl)

theorem Document.ofSource_oddSource : Document.ofSource oddSource = .ok oddDocument := by
  rw [Document.ofSource, Source.definitions_oddSource]
  rfl

theorem Schema.ofDocument_ne_defensive_oddSource :
    Document.ofSource oddSource = .ok oddDocument ∧
      Schema.ofDocument oddDocument = .error (.malformed 1 (.untypedRequest "A" "Query")) ∧
      (∀ line entry label,
        Schema.ofDocument oddDocument ≠ .error (.malformed line (.namelessRequest entry label))) ∧
      ∀ line field label,
        Schema.ofDocument oddDocument ≠ .error (.malformed line (.untypedField field label)) := by
  obtain ⟨-, -, named, typed, -⟩ := Schema.ofDocument_ne_defensive Document.ofSource_oddSource
  exact ⟨Document.ofSource_oddSource, by rfl, named, typed⟩

end SchemaTypegen
