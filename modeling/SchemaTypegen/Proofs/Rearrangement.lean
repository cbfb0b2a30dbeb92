import SchemaTypegen.Proofs.Closure
import SchemaTypegen.Proofs.Resolution.Acceptance

/-!
# The order of declarations does not matter

Named types may be declared in any order. All labels are in the table before a name is looked up,
and resolving asks the table for nothing but kinds. So tables of the same definitions in different
orders make no difference to any function of the resolver, and since every definition is resolved on
its own, the types that come out are the same, in another order.

Which error a refused document gives does depend on the order; whether it is refused does not.

* `Agrees`: tables that resolving cannot tell apart.
* `get?_eq_some_iff`: the type under a label is the one its definition is resolved to.
* **`ofDocument_perm`**: the same acceptance, the same roots and the same type under every label.
-/

namespace SchemaTypegen

theorem Listable.perm {ds ds' : List Definition} (h : Listable ds) (rearranged : ds.Perm ds') :
    Listable ds' where
  declared := fun d hd => h.declared d (rearranged.mem_iff.mpr hd)
  distinct := (rearranged.map Definition.label).nodup_iff.mp h.distinct
  scalars := fun d hd => h.scalars d (rearranged.mem_iff.mpr hd)

/-! ## Tables that agree -/

namespace NameTable

/-- The tables know the same names, with the same kinds. -/
def Agrees (table table' : NameTable) : Prop := ∀ label, table.kind? label = table'.kind? label

theorem Lists.agrees {table table' : NameTable} {ds ds' : List Definition} (h : table.Lists ds)
    (h' : table'.Lists ds') (rearranged : ds.Perm ds') : table.Agrees table' := by
  intro label
  refine Option.ext fun kind => ?_
  rw [h.known, h'.known]
  refine or_congr Iff.rfl (exists_congr fun d => and_congr_left fun _ => rearranged.mem_iff)

theorem Agrees.resolve {table table' : NameTable} (h : table.Agrees table') :
    table.resolve = table'.resolve := by
  funext label place
  rw [NameTable.resolve, NameTable.resolve, h label]

end NameTable

namespace Resolve

section Agrees

variable {table table' : NameTable} (h : table.Agrees table')

include h

theorem fieldType_congr : fieldType table = fieldType table' := by
  funext d raw place
  rw [fieldType, fieldType, h.resolve]

theorem argument_congr : argument table = argument table' := by
  funext d name raw
  rw [argument, argument, fieldType_congr h]

theorem request_congr : request table = request table' := by
  funext d entry
  rw [request, request, argument_congr h, fieldType_congr h]

theorem field_congr : field table = field table' := by
  funext d entry
  rw [field, field, request_congr h, fieldType_congr h]

theorem addRoot_congr : addRoot table = addRoot table' := by
  funext roots d
  rw [addRoot, addRoot, request_congr h]

theorem body_congr : body table = body table' := by
  funext d kind
  cases kind with
  | enum => rfl
  | union => rw [body, body, h.resolve]
  | scalar | input | interface | object => rw [body, body, field_congr h] <;> simp

theorem typeDef_congr : typeDef table = typeDef table' := by
  funext d
  rw [typeDef, typeDef, h d.label, body_congr h]

end Agrees

end Resolve

/-! ## The type under a label -/

/-- **Under a label stands what its definition is resolved to.** -/
theorem Resolved.get?_eq_some_iff {table : NameTable} {doc : Document} {schema : Schema}
    (h : Resolved table doc schema) {label : String} {t : TypeDef} :
    schema.types.get? label = some t ↔
      ∃ d ∈ doc.types, d.label = label ∧ Resolve.typeDef table d = .ok t := by
  constructor
  · intro found
    obtain ⟨d, hd, read⟩ := Success.exists_of_mapM h.read (Catalog.mem_values_of_get? found)
    refine ⟨d, hd, ?_, read⟩
    rw [← (Resolve.typeDef_eq_ok read).2.1, Emission.label_of_get? h.labelled found]
  · rintro ⟨d, hd, rfl, read⟩
    rw [← (Resolve.typeDef_eq_ok read).2.1]
    exact Emission.get?_label h.labelled (Success.mem_of_mapM h.read hd read)

theorem Resolved.get?_eq_of_perm {table table' : NameTable} {doc doc' : Document}
    {schema schema' : Schema} (h : Resolved table doc schema) (h' : Resolved table' doc' schema')
    (rearranged : doc.types.Perm doc'.types) (label : String) :
    schema.types.get? label = schema'.types.get? label := by
  have same := Resolve.typeDef_congr (h.lists.agrees h'.lists rearranged)
  refine Option.ext fun t => ?_
  rw [h.get?_eq_some_iff, h'.get?_eq_some_iff, same]
  exact exists_congr fun d => and_congr_left fun _ => rearranged.mem_iff

/-! ## Documents -/

namespace Schema

variable {roots types types' : List Definition} (rearranged : types.Perm types')

include rearranged

/-- In another order the types have a table too, and it makes no difference which table is used. -/
theorem exists_table_of_perm {table : NameTable}
    (made : NameTable.ofDefinitions types = .ok table) :
    ∃ table', NameTable.ofDefinitions types' = .ok table' ∧ table.Agrees table' := by
  have listable := NameTable.exists_ofDefinitions_iff.mp ⟨table, made⟩
  obtain ⟨table', made'⟩ := NameTable.exists_ofDefinitions_iff.mpr (listable.perm rearranged)
  exact ⟨table', made', (NameTable.lists_of_ofDefinitions made).agrees
    (NameTable.lists_of_ofDefinitions made') rearranged⟩

theorem exists_ofDocument_of_perm
    (h : ∃ schema, Schema.ofDocument ⟨roots, types⟩ = .ok schema) :
    ∃ schema, Schema.ofDocument ⟨roots, types'⟩ = .ok schema := by
  rw [exists_ofDocument_iff] at h ⊢
  obtain ⟨filled, table, made, readable, pairwise, typed⟩ := h
  obtain ⟨table', made', agrees⟩ := exists_table_of_perm rearranged made
  refine ⟨?_, table', made', ?_, pairwise, fun d hd => ?_⟩
  · rw [← filled, Document.isEmpty, Document.isEmpty, rearranged.isEmpty_eq]
  · unfold Resolve.Readable
    rw [← Resolve.request_congr agrees]
    exact readable
  · rw [← Resolve.typeDef_congr agrees]
    exact typed d (rearranged.mem_iff.mpr hd)

theorem roots_eq_of_perm {schema schema' : Schema}
    (h : Schema.ofDocument ⟨roots, types⟩ = .ok schema)
    (h' : Schema.ofDocument ⟨roots, types'⟩ = .ok schema') : schema.roots = schema'.roots := by
  obtain ⟨-, table, made, read, -⟩ := ofDocument_eq_ok_iff.mp h
  obtain ⟨-, table', made', read', -⟩ := ofDocument_eq_ok_iff.mp h'
  have agrees := (NameTable.lists_of_ofDefinitions made).agrees
    (NameTable.lists_of_ofDefinitions made') rearranged
  rw [Resolve.addRoot_congr agrees] at read
  exact Except.ok.inj (read.symm.trans read')

/-- **The order in which types are declared does not matter.** Whatever texts a document holds, it
is resolved exactly if it is with its types in any other order, and then to the same roots and to
the same type under every label. -/
theorem ofDocument_perm :
    ((∃ schema, Schema.ofDocument ⟨roots, types⟩ = .ok schema) ↔
      ∃ schema, Schema.ofDocument ⟨roots, types'⟩ = .ok schema) ∧
    ∀ schema schema', Schema.ofDocument ⟨roots, types⟩ = .ok schema →
      Schema.ofDocument ⟨roots, types'⟩ = .ok schema' →
        schema.roots = schema'.roots ∧
          ∀ label, schema.types.get? label = schema'.types.get? label := by
  refine ⟨⟨exists_ofDocument_of_perm rearranged, exists_ofDocument_of_perm rearranged.symm⟩, ?_⟩
  intro schema schema' h h'
  obtain ⟨table, resolved⟩ := resolved_of_ofDocument h
  obtain ⟨table', resolved'⟩ := resolved_of_ofDocument h'
  exact ⟨roots_eq_of_perm rearranged h h', resolved.get?_eq_of_perm resolved' rearranged⟩

end Schema

/-! ### A document in reverse -/

/-- In `closedDocument` names are used before and after they are declared, so each order of its
types has references in both directions. -/
theorem Schema.ofDocument_perm_closedDocument :
    closedDocument.types.Perm closedDocument.types.reverse ∧
      ∃ schema, Schema.ofDocument ⟨closedDocument.roots, closedDocument.types.reverse⟩ =
          .ok schema ∧
        closedSchema.roots = schema.roots ∧
        ∀ label, closedSchema.types.get? label = schema.types.get? label := by
  have rearranged := (List.reverse_perm closedDocument.types).symm
  have resolved : Schema.ofDocument ⟨closedDocument.roots, closedDocument.types⟩ =
      .ok closedSchema := by rfl
  obtain ⟨accepted, same⟩ := @Schema.ofDocument_perm closedDocument.roots _ _ rearranged
  obtain ⟨schema, resolved'⟩ := accepted.mp ⟨_, resolved⟩
  exact ⟨rearranged, schema, resolved', same _ _ resolved resolved'⟩

end SchemaTypegen
