import SchemaTypegen.Proofs.Resolution.Inversion

/-!
# When a document is resolved

`Inversion` says what follows from a resolved document. Here the conditions are exact: the name
table, the root operations and the named types are each resolved exactly if what is listed here
holds of the definitions, in whatever order the folds come to look at them.

* `Listable`: the definitions that a table can be made of.
* `GivesWay`: two blocks of one root stand together only if the earlier one is empty.
* **`exists_ofDocument_iff`**: the documents that are resolved.
-/

namespace SchemaTypegen

/-! ## The table -/

/-- Definitions that a name table can be made of: every keyword is one, no label is repeated, and
none is a scalar's. -/
structure Listable (ds : List Definition) : Prop where
  declared : ∀ d ∈ ds, d.kind?.isSome
  distinct : (ds.map Definition.label).Nodup
  scalars : ∀ d ∈ ds, Scalar.ofLabel? d.label = none

namespace NameTable

theorem exists_foldlM_add_iff {ds : List Definition} {table : NameTable} :
    (∃ table', ds.foldlM add table = .ok table') ↔
      (∀ d ∈ ds, d.kind?.isSome ∧ table.kind? d.label = none) ∧
        (ds.map Definition.label).Nodup := by
  constructor
  · rintro ⟨table', run⟩
    obtain ⟨each, distinct, -⟩ := foldlM_add_eq_ok run
    exact ⟨each, distinct⟩
  · intro h
    induction ds generalizing table with
    | nil => exact ⟨table, rfl⟩
    | cons d ds ih =>
      rw [List.map_cons, List.nodup_cons, List.forall_mem_cons] at h
      obtain ⟨⟨⟨declared, fresh⟩, others⟩, unlike, distinct⟩ := h
      obtain ⟨kind, declared⟩ := Option.isSome_iff_exists.mp declared
      have added := add_eq_ok_iff.mpr ⟨kind, declared, fresh, rfl⟩
      have still : ∀ e ∈ ds, e.kind?.isSome ∧
          kind? ⟨table.kinds.insert d.label kind⟩ e.label = none := by
        intro e he
        have apart : d.label ≠ e.label := fun same => unlike (same ▸ List.mem_map_of_mem he)
        rw [kind?_insert, if_neg apart]
        exact others e he
      obtain ⟨table', rest⟩ := ih ⟨still, distinct⟩
      exact ⟨table', by rw [List.foldlM_cons, Success.bind_eq_ok]; exact ⟨_, added, rest⟩⟩

theorem exists_ofDefinitions_iff {ds : List Definition} :
    (∃ table, ofDefinitions ds = .ok table) ↔ Listable ds := by
  have absent : ∀ label, builtin.kind? label = none ↔ Scalar.ofLabel? label = none := by
    intro label
    rw [kind?_builtin, Option.map_eq_none_iff]
  refine exists_foldlM_add_iff.trans ⟨fun ⟨each, distinct⟩ => ?_, fun listable => ?_⟩
  · exact ⟨fun d hd => (each d hd).1, distinct, fun d hd => (absent _).mp (each d hd).2⟩
  · exact ⟨fun d hd => ⟨listable.declared d hd, (absent _).mpr (listable.scalars d hd)⟩,
      listable.distinct⟩

end NameTable

/-! ## Root operations -/

/-- If both definitions are blocks of one root, the first is empty. -/
def Definition.GivesWay (d d' : Definition) : Prop :=
  ∀ kind, d.rootKind? = some kind → d'.rootKind? = some kind → d.entries = []

namespace Resolve

variable {table : NameTable} {d : Definition}

/-- All entries of a block are requests, and no two of them have one name. -/
def Readable (table : NameTable) (d : Definition) : Prop :=
  ∃ requests, d.entries.mapM (request table d) = .ok requests ∧ (requests.map Request.name).Nodup

/-- After a definition, what was free is free, except for the root of a block with entries. -/
theorem get?_eq_none_of_addRoot {roots roots' : Roots} (h : addRoot table roots d = .ok roots')
    (kind : RootKind) :
    roots'.get? kind = none ↔
      roots.get? kind = none ∧ (d.rootKind? = some kind → d.entries = []) := by
  rcases addRoot_eq_ok_iff.mp h with ⟨root, rfl⟩ | ⟨own, requests, root, free, read, -, rfl⟩
  · simp [root]
  · have length := (Success.mapM_eq_ok.mp read).length_eq
    rw [root, Option.some.injEq]
    cases requests with
    | nil =>
      have : d.entries = [] := List.length_eq_zero_iff.mp length
      simp [this]
    | cons r requests =>
      have : d.entries ≠ [] := fun nil => by simp [nil] at length
      simp only [List.isEmpty_cons, Bool.false_eq_true, if_false, Roots.get?_insert, this]
      by_cases same : own = kind
      · simp [same]
      · simp [same]

theorem exists_addRoot_iff {roots : Roots} :
    (∃ roots', addRoot table roots d = .ok roots') ↔
      ∀ kind, d.rootKind? = some kind → roots.get? kind = none ∧ Readable table d := by
  simp only [addRoot_eq_ok_iff]
  constructor
  · rintro ⟨roots', ⟨root, -⟩ | ⟨own, requests, root, free, read, distinct, -⟩⟩ kind same
    · exact absurd (root.symm.trans same) (by simp)
    · obtain rfl := Option.some.inj (root.symm.trans same)
      exact ⟨free, requests, read, distinct⟩
  · intro h
    cases root : d.rootKind? with
    | none => exact ⟨roots, Or.inl ⟨rfl, rfl⟩⟩
    | some kind =>
      obtain ⟨free, requests, read, distinct⟩ := h kind root
      exact ⟨_, Or.inr ⟨kind, requests, rfl, free, read, distinct, rfl⟩⟩

/-- **Blocks are resolved exactly if each can be read and gives way to the later ones.** -/
theorem exists_foldlM_addRoot_iff {ds : List Definition} {roots : Roots} :
    (∃ roots', ds.foldlM (addRoot table) roots = .ok roots') ↔
      (∀ d ∈ ds, ∀ kind, d.rootKind? = some kind → roots.get? kind = none ∧ Readable table d) ∧
        ds.Pairwise Definition.GivesWay := by
  induction ds generalizing roots with
  | nil => exact ⟨fun _ => ⟨by simp, .nil⟩, fun _ => ⟨roots, rfl⟩⟩
  | cons d ds ih =>
    rw [List.pairwise_cons, List.forall_mem_cons, ← exists_addRoot_iff]
    simp only [List.foldlM_cons, Success.bind_eq_ok]
    constructor
    · rintro ⟨roots', roots₁, first, rest⟩
      obtain ⟨others, pairwise⟩ := ih.mp ⟨roots', rest⟩
      have free := get?_eq_none_of_addRoot first
      refine ⟨⟨⟨roots₁, first⟩, fun e he kind root => ?_⟩, fun e he kind own root => ?_, pairwise⟩
      · obtain ⟨after, readable⟩ := others e he kind root
        exact ⟨((free kind).mp after).1, readable⟩
      · exact ((free kind).mp (others e he kind root).1).2 own
    · rintro ⟨⟨⟨roots₁, first⟩, others⟩, gives, pairwise⟩
      have free := get?_eq_none_of_addRoot first
      have still : ∀ e ∈ ds, ∀ kind, e.rootKind? = some kind →
          roots₁.get? kind = none ∧ Readable table e := by
        intro e he kind root
        obtain ⟨before, readable⟩ := others e he kind root
        exact ⟨(free kind).mpr ⟨before, fun own => gives e he kind own root⟩, readable⟩
      obtain ⟨roots', rest⟩ := ih.mpr ⟨still, pairwise⟩
      exact ⟨roots', roots₁, first, rest⟩

end Resolve

/-! ## Documents -/

theorem Resolve.exists_foldlM_addType_iff {table : NameTable} {ds : List Definition} :
    (∃ types, ds.foldlM (addType table) Catalog.empty = .ok types) ↔
      ∀ d ∈ ds, ∃ t, typeDef table d = .ok t := by
  rw [foldlM_addType_eq, ← Success.exists_mapM_iff]
  constructor
  · rintro ⟨types, added⟩
    obtain ⟨ts, read, -⟩ := Success.map_eq_ok.mp added
    exact ⟨ts, read⟩
  · rintro ⟨ts, read⟩
    exact ⟨_, Success.map_eq_ok.mpr ⟨ts, read, rfl⟩⟩

/-- **The documents that are resolved.** -/
theorem Schema.exists_ofDocument_iff {doc : Document} :
    (∃ schema, Schema.ofDocument doc = .ok schema) ↔
      doc.isEmpty = false ∧ ∃ table, NameTable.ofDefinitions doc.types = .ok table ∧
        (∀ d ∈ doc.roots, ∀ kind, d.rootKind? = some kind → Resolve.Readable table d) ∧
        doc.roots.Pairwise Definition.GivesWay ∧
        ∀ d ∈ doc.types, ∃ t, Resolve.typeDef table d = .ok t := by
  have empty : ∀ kind, Roots.get? {} kind = none := by
    intro kind
    cases kind <;> rfl
  have roots : ∀ table, (∃ roots, doc.roots.foldlM (Resolve.addRoot table) {} = .ok roots) ↔
      (∀ d ∈ doc.roots, ∀ kind, d.rootKind? = some kind → Resolve.Readable table d) ∧
        doc.roots.Pairwise Definition.GivesWay := by
    intro table
    simp [Resolve.exists_foldlM_addRoot_iff, empty]
  constructor
  · rintro ⟨schema, resolved⟩
    obtain ⟨filled, table, made, read, added⟩ := Schema.ofDocument_eq_ok_iff.mp resolved
    obtain ⟨readable, pairwise⟩ := (roots table).mp ⟨_, read⟩
    exact ⟨filled, table, made, readable, pairwise,
      Resolve.exists_foldlM_addType_iff.mp ⟨_, added⟩⟩
  · rintro ⟨filled, table, made, readable, pairwise, typed⟩
    obtain ⟨roots, read⟩ := (roots table).mpr ⟨readable, pairwise⟩
    obtain ⟨types, added⟩ := Resolve.exists_foldlM_addType_iff.mpr typed
    exact ⟨⟨roots, types⟩, Schema.ofDocument_eq_ok_iff.mpr ⟨filled, table, made, read, added⟩⟩

end SchemaTypegen
