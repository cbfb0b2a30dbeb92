import Mathlib.Data.List.Nodup
import SchemaTypegen.Proofs.Resolution
import SchemaTypegen.Proofs.Success

/-!
# What a resolved document looks like

Here nothing is known of a document but that it was resolved: its keywords, labels and entries may
be any texts. Each function of the resolver has one lemma that says what must have held for its
result to come out, from a single type up to the document.

* `Lists`: what the name table knows, in terms of the definitions alone.
* `Stored`: where a root operation comes from.
* **`resolved_of_ofDocument`**: all of it for a document. What holds of every schema follows from
  `Resolved`, without another look at the resolver.
-/

namespace SchemaTypegen

open Text

/-- The kind that the keyword of a definition declares. -/
def Definition.kind? (d : Definition) : Option Kind := (Keyword.ofName? d.keyword).map Keyword.kind

theorem Definition.ne_scalar_of_kind? {d : Definition} {kind : Kind} (h : d.kind? = some kind) :
    kind ≠ .scalar := by
  obtain ⟨keyword, -, rfl⟩ := Option.map_eq_some_iff.mp h
  cases keyword <;> decide

/-! ## The table -/

namespace NameTable

theorem add_eq_ok_iff {table table' : NameTable} {d : Definition} :
    table.add d = .ok table' ↔ ∃ kind, d.kind? = some kind ∧ table.kind? d.label = none ∧
      table' = ⟨table.kinds.insert d.label kind⟩ := by
  unfold add Definition.kind?
  constructor
  · intro h
    split at h
    · exact absurd h (by simp)
    · rename_i keyword spelled
      split at h
      · exact absurd h (by simp)
      · rename_i fresh
        exact ⟨keyword.kind, by rw [spelled]; rfl, fresh, (Except.ok.inj h).symm⟩
  · rintro ⟨kind, declared, fresh, rfl⟩
    obtain ⟨keyword, spelled, rfl⟩ := Option.map_eq_some_iff.mp declared
    simp only [spelled, fresh]

theorem kind?_insert (table : NameTable) (label other : String) (kind : Kind) :
    kind? ⟨table.kinds.insert label kind⟩ other =
      if label = other then some kind else table.kind? other :=
  Catalog.get?_insert table.kinds label other kind

/-- Adding definitions succeeds only for keywords and new labels, and adds the labels with their
kinds. -/
theorem foldlM_add_eq_ok {ds : List Definition} {table table' : NameTable}
    (h : ds.foldlM add table = .ok table') :
    (∀ d ∈ ds, d.kind?.isSome ∧ table.kind? d.label = none) ∧ (ds.map Definition.label).Nodup ∧
      ∀ label kind, table'.kind? label = some kind ↔
        table.kind? label = some kind ∨ ∃ d ∈ ds, d.label = label ∧ d.kind? = some kind := by
  induction ds generalizing table with
  | nil =>
    obtain rfl : table = table' := Except.ok.inj h
    exact ⟨fun d hd => absurd hd List.not_mem_nil, List.nodup_nil, by simp⟩
  | cons d ds ih =>
    rw [List.foldlM_cons, Success.bind_eq_ok] at h
    obtain ⟨table'', added, rest⟩ := h
    obtain ⟨kind, declared, fresh, rfl⟩ := add_eq_ok_iff.mp added
    obtain ⟨each, distinct, known⟩ := ih rest
    have apart : ∀ d' ∈ ds, d.label ≠ d'.label := by
      intro d' hd' same
      have absent := (each d' hd').2
      rw [kind?_insert, if_pos same] at absent
      exact absurd absent (by simp)
    refine ⟨fun d' hd' => ?_, ?_, fun label kind' => ?_⟩
    · rcases List.mem_cons.mp hd' with rfl | hd'
      · exact ⟨by rw [declared]; rfl, fresh⟩
      · have absent := (each d' hd').2
        rw [kind?_insert, if_neg (apart d' hd')] at absent
        exact ⟨(each d' hd').1, absent⟩
    · rw [List.map_cons, List.nodup_cons]
      refine ⟨fun mem => ?_, distinct⟩
      obtain ⟨d', hd', same⟩ := List.mem_map.mp mem
      exact apart d' hd' same.symm
    · rw [known, kind?_insert]
      by_cases here : d.label = label
      · subst here
        rw [if_pos rfl, fresh]
        simp [declared]
      · rw [if_neg here]
        simp [here]

/-- What the table of definitions knows: the built-in scalars and, with its kind, the label of every
definition. The labels are distinct and none of them is a scalar. -/
structure Lists (table : NameTable) (ds : List Definition) : Prop where
  distinct : (ds.map Definition.label).Nodup
  scalars : ∀ d ∈ ds, Scalar.ofLabel? d.label = none
  known : ∀ label kind, table.kind? label = some kind ↔
    (kind = .scalar ∧ (Scalar.ofLabel? label).isSome) ∨
      ∃ d ∈ ds, d.label = label ∧ d.kind? = some kind

theorem lists_of_ofDefinitions {ds : List Definition} {table : NameTable}
    (h : ofDefinitions ds = .ok table) : table.Lists ds := by
  obtain ⟨each, distinct, known⟩ := foldlM_add_eq_ok h
  refine ⟨distinct, fun d hd => ?_, fun label kind => ?_⟩
  · have absent := (each d hd).2
    rw [kind?_builtin] at absent
    exact Option.map_eq_none_iff.mp absent
  · rw [known, kind?_builtin, Option.map_eq_some_iff]
    refine or_congr ⟨?_, ?_⟩ Iff.rfl
    · rintro ⟨s, found, rfl⟩
      exact ⟨rfl, by rw [found]; rfl⟩
    · rintro ⟨rfl, found⟩
      obtain ⟨s, found⟩ := Option.isSome_iff_exists.mp found
      exact ⟨s, found, rfl⟩

/-- In the table a definition has the kind of its keyword. -/
theorem Lists.kind?_of_mem {table : NameTable} {ds : List Definition} (h : table.Lists ds)
    {d : Definition} (hd : d ∈ ds) {kind : Kind} (known : table.kind? d.label = some kind) :
    d.kind? = some kind := by
  rcases (h.known d.label kind).mp known with ⟨-, scalar⟩ | ⟨d', hd', same, declared⟩
  · rw [h.scalars d hd] at scalar
    exact absurd scalar (by simp)
  · rwa [List.inj_on_of_nodup_map h.distinct hd' hd same] at declared

/-- A name that is no scalar is the label of a definition. -/
theorem Lists.exists_of_ne_scalar {table : NameTable} {ds : List Definition} (h : table.Lists ds)
    {label : String} {kind : Kind} (known : table.kind? label = some kind)
    (named : kind ≠ .scalar) : ∃ d ∈ ds, d.label = label := by
  rcases (h.known label kind).mp known with ⟨scalar, -⟩ | ⟨d, hd, same, -⟩
  · exact absurd scalar named
  · exact ⟨d, hd, same⟩

/-- What a name stands for is in the table as what it is. -/
theorem resolve_eq_ok {table : NameTable} {label : String} {place : Place} {base : Base}
    (h : table.resolve label place = .ok base) :
    (∃ s, base = .scalar s ∧ Scalar.ofLabel? label = some s) ∨
      ∃ kind, base = .named kind label ∧ kind ≠ .scalar ∧ table.kind? label = some kind := by
  unfold resolve at h
  split at h
  · split at h
    · rename_i s found
      exact Or.inl ⟨s, (Except.ok.inj h).symm, found⟩
    · exact absurd h (by simp)
  · rename_i kind named known
    exact Or.inr ⟨kind, (Except.ok.inj h).symm, named, known⟩
  · exact absurd h (by simp)

end NameTable

/-! ## Types, arguments, requests and fields -/

namespace Resolve

variable {table : NameTable} {d : Definition}

theorem fieldType_eq_ok {raw : String} {place : Place} {t : FieldType}
    (h : fieldType table d raw place = .ok t) :
    ∃ s, Signature.ofText? raw = some s ∧ table.resolve s.label place = .ok t.base := by
  unfold fieldType at h
  split at h
  · exact absurd h (by simp)
  · rename_i s read
    obtain ⟨base, found, rfl⟩ := Success.bind_pure_eq_ok.mp h
    exact ⟨s, read, found⟩

theorem argument_eq_ok {name raw : String} {f : Field} (h : argument table d name raw = .ok f) :
    ∃ label signature place, cutAt ':' raw.toList = some (label, signature) ∧
      f.label = String.ofList label ∧
      fieldType table d (String.ofList signature) place = .ok f.type := by
  unfold argument at h
  split at h
  · exact absurd h (by simp)
  · rename_i label signature cut
    obtain ⟨t, typed, rfl⟩ := Success.bind_pure_eq_ok.mp h
    exact ⟨label, signature, _, cut, rfl, typed⟩

theorem request_eq_ok {entry : String} {r : Request} (h : request table d entry = .ok r) :
    ∃ head returns rest place, splitRequest? entry.toList = some (head, returns) ∧
      requestParts head = r.name :: rest ∧
      rest.mapM (argument table d r.name) = .ok r.arguments ∧
      fieldType table d (String.ofList returns) place = .ok r.returns := by
  unfold request at h
  split at h
  · exact absurd h (by simp)
  · rename_i head returns cut
    split at h
    · exact absurd h (by simp)
    · rename_i name rest parts
      obtain ⟨arguments, read, h⟩ := Success.bind_eq_ok.mp h
      obtain ⟨t, typed, rfl⟩ := Success.bind_pure_eq_ok.mp h
      exact ⟨head, returns, rest, _, cut, parts, read, typed⟩

/-- A field is read like a request if it has arguments, and cut at its colon if not. -/
theorem field_eq_ok {entry : String} {f : Field} (h : field table d entry = .ok f) :
    (∃ r, request table d entry = .ok r ∧ f = ⟨r.name, r.returns⟩) ∨
      '(' ∉ entry.toList ∧ ∃ label signature place,
        cutAt ':' entry.toList = some (label, signature) ∧ f.label = String.ofList label ∧
        fieldType table d (String.ofList signature) place = .ok f.type := by
  unfold field at h
  split at h
  · obtain ⟨r, read, rfl⟩ := Success.bind_pure_eq_ok.mp h
    exact Or.inl ⟨r, read, rfl⟩
  · rename_i bare
    refine Or.inr ⟨by simpa using bare, ?_⟩
    split at h
    · exact absurd h (by simp)
    · rename_i label signature cut
      obtain ⟨t, typed, rfl⟩ := Success.bind_pure_eq_ok.mp h
      exact ⟨label, signature, _, cut, rfl, typed⟩

/-! ## Root operations -/

theorem firstRepeated?_eq_none_iff (names : List String) : ∀ seen : List String,
    firstRepeated? seen names = none ↔ names.Nodup ∧ ∀ name ∈ names, name ∉ seen := by
  refine fun seen => ⟨fun h => ?_, fun h => firstRepeated?_eq_none names seen h.1 h.2⟩
  induction names generalizing seen with
  | nil => exact ⟨List.nodup_nil, fun name hn => absurd hn List.not_mem_nil⟩
  | cons name names ih =>
    rw [firstRepeated?] at h
    split at h
    · exact absurd h (by simp)
    · rename_i fresh
      obtain ⟨distinct, apart⟩ := ih (name :: seen) h
      refine ⟨List.nodup_cons.mpr ⟨fun mem => apart name mem List.mem_cons_self, distinct⟩, ?_⟩
      intro other ho
      rcases List.mem_cons.mp ho with rfl | ho
      · exact fresh
      · exact fun old => apart other ho (List.mem_cons_of_mem name old)

/-- What is known of an operation stored for a root: it is of that root, it has requests, no two of
one name, and they are those of a definition of that root. -/
structure Stored (table : NameTable) (ds : List Definition) (kind : RootKind)
    (operation : RootOperation) : Prop where
  own : operation.kind = kind
  filled : operation.requests ≠ []
  distinct : (operation.requests.map Request.name).Nodup
  read : ∃ d ∈ ds, d.rootKind? = some kind ∧
    d.entries.mapM (request table d) = .ok operation.requests

theorem addRoot_eq_ok_iff {roots roots' : Roots} :
    addRoot table roots d = .ok roots' ↔
      (d.rootKind? = none ∧ roots' = roots) ∨
        ∃ kind requests, d.rootKind? = some kind ∧ roots.get? kind = none ∧
          d.entries.mapM (request table d) = .ok requests ∧ (requests.map Request.name).Nodup ∧
          roots' = if requests.isEmpty then roots else roots.insert kind ⟨kind, requests⟩ := by
  have repeated : ∀ requests : List Request,
      firstRepeated? [] (requests.map Request.name) = none ↔ (requests.map Request.name).Nodup :=
    fun requests => (firstRepeated?_eq_none_iff _ []).trans (by simp)
  cases root : d.rootKind? with
  | none =>
    rw [addRoot, root]
    refine ⟨fun h => Or.inl ⟨rfl, (Except.ok.inj h).symm⟩, ?_⟩
    rintro (⟨-, rfl⟩ | ⟨kind, requests, no, -⟩)
    · rfl
    · exact absurd no (by simp)
  | some kind =>
    rw [addRoot, root]
    cases stored : roots.get? kind with
    | some operation => simp [stored]
    | none =>
      simp only [Success.bind_eq_ok, reduceCtorEq, false_and, false_or, Option.some.injEq,
        exists_and_left, exists_eq_left', stored, true_and]
      refine exists_congr fun requests => and_congr_right fun _ => ?_
      cases found : firstRepeated? [] (requests.map Request.name) with
      | some name =>
        have : ¬ (requests.map Request.name).Nodup := by simp [← repeated, found]
        simp [this]
      | none =>
        have distinct := (repeated requests).mp found
        simp only [distinct, true_and]
        exact ⟨fun h => (Except.ok.inj h).symm, fun h => congrArg Except.ok h.symm⟩

/-- A root definition leaves the roots as they are, or its requests are stored. -/
theorem addRoot_eq_ok {ds : List Definition} {roots roots' : Roots} (hd : d ∈ ds)
    (h : addRoot table roots d = .ok roots') :
    roots' = roots ∨ ∃ kind operation, Stored table ds kind operation ∧
      roots' = roots.insert kind operation := by
  rcases addRoot_eq_ok_iff.mp h with ⟨-, rfl⟩ | ⟨kind, requests, root, -, read, distinct, rfl⟩
  · exact Or.inl rfl
  · cases requests with
    | nil => exact Or.inl rfl
    | cons r requests =>
      exact Or.inr ⟨kind, ⟨kind, r :: requests⟩,
        ⟨rfl, List.cons_ne_nil r requests, distinct, d, hd, root, read⟩, rfl⟩

/-- **Every operation of the roots is stored as it should be.** -/
theorem stored_of_foldlM {ds : List Definition} {roots : Roots}
    (h : ds.foldlM (addRoot table) {} = .ok roots) :
    ∀ kind operation, roots.get? kind = some operation → Stored table ds kind operation := by
  refine Success.foldlM_induction
    (P := fun roots => ∀ kind operation, roots.get? kind = some operation →
      Stored table ds kind operation) h ?_ ?_
  · intro kind operation found
    cases kind <;> exact absurd found (by simp [Roots.get?])
  · intro roots d roots' hd stored added kind operation found
    rcases addRoot_eq_ok hd added with rfl | ⟨key, operation', fresh, rfl⟩
    · exact stored kind operation found
    · rw [Roots.get?_insert] at found
      split at found
      · rename_i same
        exact Option.some.inj found ▸ same ▸ fresh
      · exact stored kind operation found

/-! ## Named types -/

/-- Enums and unions hold their entries, the latter if all of them can be resolved, and other types
hold fields. -/
theorem body_eq_ok {kind : Kind} {b : Body} (h : body table d kind = .ok b) :
    (kind = .enum ∧ b = .members d.entries) ∨
      (kind = .union ∧ b = .members d.entries ∧
        ∀ member ∈ d.entries, ∃ place base, table.resolve member place = .ok base) ∨
      kind ≠ .enum ∧ kind ≠ .union ∧
        ∃ fields, d.entries.mapM (field table d) = .ok fields ∧ b = .fields fields := by
  cases kind with
  | enum => exact Or.inl ⟨rfl, (Except.ok.inj h).symm⟩
  | union =>
    obtain ⟨bases, resolved, rfl⟩ := Success.bind_pure_eq_ok.mp h
    refine Or.inr (Or.inl ⟨rfl, rfl, fun member hm => ?_⟩)
    obtain ⟨base, found⟩ := Success.succeeds_of_mapM resolved hm
    exact ⟨_, base, found⟩
  | scalar | input | interface | object =>
    obtain ⟨fields, read, rfl⟩ := Success.bind_pure_eq_ok.mp h
    exact Or.inr (Or.inr ⟨by decide, by decide, fields, read, rfl⟩)

theorem typeDef_eq_ok {t : TypeDef} (h : typeDef table d = .ok t) :
    table.kind? d.label = some t.kind ∧ t.label = d.label ∧
      body table d t.kind = .ok t.body := by
  unfold typeDef at h
  split at h
  · exact absurd h (by simp)
  · rename_i kind known
    obtain ⟨b, read, rfl⟩ := Success.bind_pure_eq_ok.mp h
    exact ⟨known, rfl, read⟩

/-- Adding types one after another is reading them all, then inserting them. -/
theorem foldlM_addType_eq (table : NameTable) (ds : List Definition) : ∀ c : Catalog String TypeDef,
    ds.foldlM (addType table) c =
      (ds.mapM (typeDef table)).map fun ts => ts.foldl (fun c t => c.insert t.label t) c := by
  induction ds with
  | nil => exact fun c => rfl
  | cons d ds ih =>
    intro c
    rw [List.foldlM_cons, List.mapM_cons, addType]
    cases typeDef table d with
    | error e => rfl
    | ok t =>
      refine (ih (c.insert t.label t)).trans ?_
      cases ds.mapM (typeDef table) <;> rfl

theorem map_label_of_mapM_typeDef {ds : List Definition} {ts : List TypeDef}
    (h : ds.mapM (typeDef table) = .ok ts) : ts.map TypeDef.label = ds.map Definition.label := by
  rw [Success.mapM_eq_ok] at h
  induction h with
  | nil => rfl
  | cons first _ ih => rw [List.map_cons, List.map_cons, ih, (typeDef_eq_ok first).2.1]

end Resolve

/-! ## Documents -/

/-- What is known of a schema that a document was resolved to, with the table of its names. -/
structure Resolved (table : NameTable) (doc : Document) (schema : Schema) : Prop where
  lists : table.Lists doc.types
  stored : ∀ kind operation, schema.roots.get? kind = some operation →
    Resolve.Stored table doc.roots kind operation
  read : doc.types.mapM (Resolve.typeDef table) = .ok schema.types.values
  labelled : ∀ e ∈ schema.types.entries, e.1 = e.2.label

theorem Schema.ofDocument_eq_ok_iff {doc : Document} {schema : Schema} :
    Schema.ofDocument doc = .ok schema ↔ doc.isEmpty = false ∧
      ∃ table, NameTable.ofDefinitions doc.types = .ok table ∧
        doc.roots.foldlM (Resolve.addRoot table) {} = .ok schema.roots ∧
        doc.types.foldlM (Resolve.addType table) Catalog.empty = .ok schema.types := by
  unfold Schema.ofDocument
  cases doc.isEmpty with
  | true => simp
  | false =>
    simp only [Bool.false_eq_true, if_false, Success.bind_eq_ok, true_and]
    refine exists_congr fun table => and_congr_right fun _ => ?_
    constructor
    · rintro ⟨roots, read, types, added, done⟩
      obtain rfl := Except.ok.inj done
      exact ⟨read, added⟩
    · rintro ⟨read, added⟩
      exact ⟨schema.roots, read, schema.types, added, rfl⟩

/-- **What must have held for a document to be resolved.** -/
theorem Schema.resolved_of_ofDocument {doc : Document} {schema : Schema}
    (h : Schema.ofDocument doc = .ok schema) : ∃ table, Resolved table doc schema := by
  obtain ⟨-, table, made, stored, added⟩ := Schema.ofDocument_eq_ok_iff.mp h
  have lists := NameTable.lists_of_ofDefinitions made
  rw [Resolve.foldlM_addType_eq, Success.map_eq_ok] at added
  obtain ⟨ts, read, same⟩ := added
  have distinct : (ts.map TypeDef.label).Nodup :=
    Resolve.map_label_of_mapM_typeDef read ▸ lists.distinct
  have entries : schema.types.entries = ts.map fun t => (t.label, t) := by
    rw [← same]
    exact Catalog.entries_foldl_insert TypeDef.label id ts Catalog.empty distinct
      fun t _ => List.not_mem_nil
  refine ⟨table, lists, Resolve.stored_of_foldlM stored, ?_, ?_⟩
  · rw [read, Catalog.values]
    exact congrArg Except.ok (by simp [entries, Function.comp_def])
  · intro e he
    rw [entries] at he
    obtain ⟨t, -, rfl⟩ := List.mem_map.mp he
    rfl

/-- The types of a schema stand in the order of their definitions. -/
theorem Resolved.keys_eq {table : NameTable} {doc : Document} {schema : Schema}
    (h : Resolved table doc schema) : schema.types.keys = doc.types.map Definition.label := by
  rw [← Resolve.map_label_of_mapM_typeDef h.read, Catalog.keys, Catalog.values, List.map_map]
  exact List.map_congr_left h.labelled

/-- Every type of a schema is read from a definition. -/
theorem Resolved.exists_definition {table : NameTable} {doc : Document} {schema : Schema}
    (h : Resolved table doc schema) {t : TypeDef} (ht : t ∈ schema.types.values) :
    ∃ d ∈ doc.types, t.label = d.label ∧ table.kind? t.label = some t.kind ∧
      Resolve.body table d t.kind = .ok t.body := by
  obtain ⟨d, hd, read⟩ := Success.exists_of_mapM h.read ht
  obtain ⟨known, same, body⟩ := Resolve.typeDef_eq_ok read
  exact ⟨d, hd, same, same ▸ known, body⟩

end SchemaTypegen
