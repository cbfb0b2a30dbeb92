import SchemaTypegen.Proofs.Emission
import SchemaTypegen.Proofs.Resolution.Inversion

/-!
# Resolved schemas are closed

A schema that comes out of resolving refers to nothing outside itself. Whatever texts a document
holds, each type that a request or a field states was looked up in the name table, the table knows
the labels of the definitions and the scalars, and the kind it has for a label is the kind of the
type that stands under it.

* `Closed`: what emission may rely on.
* `Resolved.closed`: it follows from what resolving checks.
* **`ofDocument_closed`**: every resolved document gives a closed schema, with a type for each
  definition and in their order.
-/

namespace SchemaTypegen

/-! ## What a schema refers to -/

/-- The types a request states: those of its arguments, then that of its result. -/
def Request.types (r : Request) : List FieldType := r.arguments.map Field.type ++ [r.returns]

/-- The values of an enum or the members of a union. -/
def Body.members? : Body → Option (List String)
  | .fields _ => none
  | .members labels => some labels

/-- The types that the fields of a type state. -/
def TypeDef.types (t : TypeDef) : List FieldType :=
  match t.body with
  | .fields fields => fields.map Field.type
  | .members _ => []

/-- All types that a schema states. -/
def Schema.fieldTypes (schema : Schema) : List FieldType :=
  (schema.requests.flatMap fun q => q.2.types) ++ schema.types.values.flatMap TypeDef.types

/-- A schema that refers to nothing outside itself. -/
structure Schema.Closed (schema : Schema) : Prop where
  labelled : Emission.Labelled schema.types
  /-- No type is called like a built-in scalar. -/
  declared : ∀ label ∈ schema.types.keys, Scalar.ofLabel? label = none
  kinds : ∀ t ∈ schema.types.values, t.kind ≠ .scalar
  bodies : ∀ t ∈ schema.types.values, t.body.members?.isSome ↔ t.kind = .enum ∨ t.kind = .union
  /-- A named type that is referred to is there, with the kind it is referred to by. -/
  references : ∀ t ∈ schema.fieldTypes, ∀ kind label, t.base = .named kind label →
    ∃ u, schema.types.get? label = some u ∧ u.kind = kind
  members : ∀ t ∈ schema.types.values, t.kind = .union → ∀ members, t.body.members? = some members →
    ∀ label ∈ members, label ∈ schema.types.keys ∨ (Scalar.ofLabel? label).isSome
  roots : ∀ kind operation, schema.roots.get? kind = some operation →
    operation.kind = kind ∧ operation.requests ≠ [] ∧
      (operation.requests.map Request.name).Nodup

/-! ## What was looked up -/

/-- A named type is in the table with its kind. -/
def Base.KnownTo (table : NameTable) (base : Base) : Prop :=
  ∀ kind label, base = .named kind label → kind ≠ .scalar ∧ table.kind? label = some kind

namespace Resolve

variable {table : NameTable} {d : Definition}

theorem knownTo_of_fieldType {raw : String} {place : Place} {t : FieldType}
    (h : fieldType table d raw place = .ok t) : t.base.KnownTo table := by
  obtain ⟨s, -, found⟩ := fieldType_eq_ok h
  intro kind label named
  rcases NameTable.resolve_eq_ok found with ⟨scalar, base, -⟩ | ⟨kind', base, proper, known⟩
  · rw [base] at named
    exact absurd named Base.noConfusion
  · rw [base] at named
    obtain ⟨rfl, rfl⟩ := Base.named.inj named
    exact ⟨proper, known⟩

theorem knownTo_of_request {entry : String} {r : Request} (h : request table d entry = .ok r) :
    ∀ t ∈ r.types, t.base.KnownTo table := by
  obtain ⟨head, returns, rest, place, -, -, read, typed⟩ := request_eq_ok h
  intro t ht
  rcases List.mem_append.mp ht with ht | ht
  · obtain ⟨a, ha, rfl⟩ := List.mem_map.mp ht
    obtain ⟨raw, -, argument⟩ := Success.exists_of_mapM read ha
    obtain ⟨label, signature, place, -, -, typed⟩ := argument_eq_ok argument
    exact knownTo_of_fieldType typed
  · obtain rfl := List.mem_singleton.mp ht
    exact knownTo_of_fieldType typed

theorem knownTo_of_field {entry : String} {f : Field} (h : field table d entry = .ok f) :
    f.type.base.KnownTo table := by
  rcases field_eq_ok h with ⟨r, read, rfl⟩ | ⟨-, label, signature, place, -, -, typed⟩
  · exact knownTo_of_request read _ (List.mem_append_right _ List.mem_cons_self)
  · exact knownTo_of_fieldType typed

theorem knownTo_of_body {kind : Kind} {t : TypeDef} (h : body table d kind = .ok t.body) :
    ∀ u ∈ t.types, u.base.KnownTo table := by
  intro u hu
  rcases body_eq_ok h with ⟨-, same⟩ | ⟨-, same, -⟩ | ⟨-, -, fields, read, same⟩
  · rw [TypeDef.types, same] at hu
    exact absurd hu List.not_mem_nil
  · rw [TypeDef.types, same] at hu
    exact absurd hu List.not_mem_nil
  · rw [TypeDef.types, same] at hu
    obtain ⟨f, hf, rfl⟩ := List.mem_map.mp hu
    obtain ⟨entry, -, field⟩ := Success.exists_of_mapM read hf
    exact knownTo_of_field field

end Resolve

/-- Every request belongs to an operation that is stored for a root. -/
theorem Schema.exists_of_mem_requests {schema : Schema} {q : RootKind × Request}
    (hq : q ∈ schema.requests) :
    ∃ kind operation, schema.roots.get? kind = some operation ∧ q.1 = operation.kind ∧
      q.2 ∈ operation.requests := by
  obtain ⟨operation, mem, hq⟩ := List.mem_flatMap.mp hq
  obtain ⟨r, hr, rfl⟩ := List.mem_map.mp hq
  obtain ⟨e, he, rfl⟩ := List.mem_map.mp mem
  obtain ⟨kind, -, found⟩ := List.mem_filterMap.mp he
  obtain ⟨operation, stored, rfl⟩ := Option.map_eq_some_iff.mp found
  exact ⟨kind, operation, stored, rfl, hr⟩

/-! ## Closed schemas -/

namespace Resolved

variable {table : NameTable} {doc : Document} {schema : Schema} (h : Resolved table doc schema)

include h

/-- Every request is read from an entry of a definition of its root. -/
theorem exists_entry {q : RootKind × Request} (hq : q ∈ schema.requests) :
    ∃ d ∈ doc.roots, d.rootKind? = some q.1 ∧
      ∃ entry ∈ d.entries, Resolve.request table d entry = .ok q.2 := by
  obtain ⟨kind, operation, found, own, hr⟩ := Schema.exists_of_mem_requests hq
  have stored := h.stored kind operation found
  obtain ⟨d, hd, root, read⟩ := stored.read
  refine ⟨d, hd, by rw [root, own, stored.own], Success.exists_of_mapM read hr⟩

theorem knownTo : ∀ t ∈ schema.fieldTypes, t.base.KnownTo table := by
  intro t ht
  rcases List.mem_append.mp ht with ht | ht
  · obtain ⟨q, hq, ht⟩ := List.mem_flatMap.mp ht
    obtain ⟨d, -, -, entry, -, read⟩ := h.exists_entry hq
    exact Resolve.knownTo_of_request read t ht
  · obtain ⟨u, hu, ht⟩ := List.mem_flatMap.mp ht
    obtain ⟨d, -, -, -, body⟩ := h.exists_definition hu
    exact Resolve.knownTo_of_body body t ht

/-- What the table knows besides the scalars are the types of the schema. -/
theorem get?_of_kind? {label : String} {kind : Kind} (known : table.kind? label = some kind)
    (proper : kind ≠ .scalar) : ∃ u, schema.types.get? label = some u ∧ u.kind = kind := by
  obtain ⟨d, hd, rfl⟩ := h.lists.exists_of_ne_scalar known proper
  have key : d.label ∈ schema.types.keys := h.keys_eq ▸ List.mem_map_of_mem hd
  obtain ⟨e, he, same⟩ := List.mem_map.mp key
  have own : e.2.label = d.label := (h.labelled e he).symm.trans same
  have mem : e.2 ∈ schema.types.values := List.mem_map_of_mem he
  obtain ⟨-, -, -, kind', -⟩ := h.exists_definition mem
  rw [own, known] at kind'
  refine ⟨e.2, ?_, (Option.some.inj kind').symm⟩
  rw [← own]
  exact Emission.get?_label h.labelled mem

/-- A name that can be resolved is a type of the schema or a scalar. -/
theorem mem_keys_of_resolve {label : String} {place : Place} {base : Base}
    (found : table.resolve label place = .ok base) :
    label ∈ schema.types.keys ∨ (Scalar.ofLabel? label).isSome := by
  rcases NameTable.resolve_eq_ok found with ⟨s, -, scalar⟩ | ⟨kind, -, proper, known⟩
  · exact Or.inr (by rw [scalar]; rfl)
  · obtain ⟨u, get, -⟩ := h.get?_of_kind? known proper
    exact Or.inl (List.mem_map_of_mem (Catalog.mem_of_lookup get))

theorem closed : schema.Closed where
  labelled := h.labelled
  declared := by
    intro label mem
    rw [h.keys_eq] at mem
    obtain ⟨d, hd, rfl⟩ := List.mem_map.mp mem
    exact h.lists.scalars d hd
  kinds := by
    intro t ht
    obtain ⟨d, hd, same, known, -⟩ := h.exists_definition ht
    exact Definition.ne_scalar_of_kind? (h.lists.kind?_of_mem hd (same ▸ known))
  bodies := by
    intro t ht
    obtain ⟨d, -, -, -, body⟩ := h.exists_definition ht
    rcases Resolve.body_eq_ok body with ⟨kind, same⟩ | ⟨kind, same, -⟩ | ⟨enum, union, _, -, same⟩
    · simp [kind, same, Body.members?]
    · simp [kind, same, Body.members?]
    · simp [enum, union, same, Body.members?]
  references := by
    intro t ht kind label named
    obtain ⟨proper, known⟩ := h.knownTo t ht kind label named
    exact h.get?_of_kind? known proper
  members := by
    intro t ht union members held label mem
    obtain ⟨d, -, -, -, body⟩ := h.exists_definition ht
    rcases Resolve.body_eq_ok body with ⟨enum, -⟩ | ⟨-, same, resolved⟩ | ⟨-, other, -⟩
    · exact absurd (enum.symm.trans union) (by decide)
    · rw [same] at held
      obtain rfl := Option.some.inj held
      obtain ⟨place, base, found⟩ := resolved label mem
      exact h.mem_keys_of_resolve found
    · exact absurd union other
  roots := by
    intro kind operation found
    have stored := h.stored kind operation found
    exact ⟨stored.own, stored.filled, stored.distinct⟩

end Resolved

/-- **A resolved schema is closed**, whatever texts the document holds. Its types are those of the
definitions, in order and without repetition. -/
theorem Schema.ofDocument_closed {doc : Document} {schema : Schema}
    (h : Schema.ofDocument doc = .ok schema) :
    schema.types.keys = doc.types.map Definition.label ∧ schema.types.keys.Nodup ∧
      schema.Closed := by
  obtain ⟨table, resolved⟩ := Schema.resolved_of_ofDocument h
  exact ⟨resolved.keys_eq, schema.types.nodup, resolved.closed⟩

/-! ### A document that no source has -/

/-- The labels and entries are such as no source gives, but the document can be resolved. -/
def closedDocument : Document where
  roots := [⟨"", "qUERY", [",q(a: [I!] ,):U"], 0⟩, ⟨"", "", [""], 0⟩]
  types := [⟨"Union", "U", ["ID", "Query"], 0⟩, ⟨"type", "Query", ["(e):E!"], 0⟩,
    ⟨"ENUM", "E", ["", "::"], 0⟩, ⟨"input", "I", ["a b: [E]! "], 0⟩]

/-- What `closedDocument` is resolved to. -/
def closedSchema : Schema where
  roots := { query := some ⟨.query,
    [⟨"q", [⟨"a", .named .input "I", true, 1, false⟩], .named .union "U", true, 0, false⟩]⟩ }
  types := ⟨[("U", ⟨.union, "U", .members ["ID", "Query"]⟩),
    ("Query", ⟨.object, "Query", .fields [⟨"e", .named .enum "E", false, 0, false⟩]⟩),
    ("E", ⟨.enum, "E", .members ["", "::"]⟩),
    ("I", ⟨.input, "I", .fields [⟨"a b", .named .enum "E", false, 1, true⟩]⟩)], by decide⟩

theorem Schema.ofDocument_closed_closedDocument :
    Schema.ofDocument closedDocument = .ok closedSchema ∧
      closedSchema.types.keys = closedDocument.types.map Definition.label ∧
      closedSchema.types.keys.Nodup ∧ closedSchema.Closed :=
  have resolved : Schema.ofDocument closedDocument = .ok closedSchema := by rfl
  ⟨resolved, Schema.ofDocument_closed resolved⟩

end SchemaTypegen
