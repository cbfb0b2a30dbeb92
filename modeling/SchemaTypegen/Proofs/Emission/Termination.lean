import SchemaTypegen.Proofs.Emission

/-!
# Emission ends, on every schema

Types are found under their keys and marked by their labels, and nothing says that the two agree:
several types may have one label, a type may point at nothing, and types may point at each other.
`Emits` is the emission as nested visits: a type is marked, then what it points at is visited, and
then it is written, all before the next task begins. Every visit inside another one was made under
more marks, so visits are nested at most as deep as there are types without a mark.

* `exists_emits`, `Emits.unique`: from all marks, all tasks are done, in one way.
* `Emits.perform_append`: the list of tasks that is worked off gives the same.
* `Emits.perm_marked`, `Emits.nodup`: the marks are the labels of what is written, and no label is
  marked twice.
* `filter_firstOfLabel`: in declaration order, the first type of a label is kept.
* `length_origins`: what is written are types and argument interfaces.
* **`emission_ends`**: all of this for a whole schema and for the text that is written, in both
  orders.
-/

namespace SchemaTypegen

namespace Emission

/-- Tasks that are done one after the other, each of them to its end, from the marks before them to
the marks after them. A visit of a type that is not marked takes in the visits of all it points at;
`depth` is how deep such visits may be nested. -/
inductive Emits (types : Catalog String TypeDef) :
    Nat → List String → List Task → List Origin → List String → Prop where
  | done {depth : Nat} {marked : List String} : Emits types depth marked [] [] marked
  | write {depth : Nat} {marked marked' : List String} {origin : Origin} {rest : List Task}
      {written : List Origin} (after : Emits types depth marked rest written marked') :
      Emits types depth marked (.write origin :: rest) (origin :: written) marked'
  | absent {depth : Nat} {marked marked' : List String} {label : String} {rest : List Task}
      {written : List Origin} (unknown : types.get? label = none)
      (after : Emits types depth marked rest written marked') :
      Emits types depth marked (.visit label :: rest) written marked'
  | seen {depth : Nat} {marked marked' : List String} {label : String} {rest : List Task}
      {written : List Origin} {t : TypeDef} (found : types.get? label = some t)
      (mark : t.label ∈ marked) (after : Emits types depth marked rest written marked') :
      Emits types depth marked (.visit label :: rest) written marked'
  | visit {depth : Nat} {marked between marked' : List String} {label : String} {rest : List Task}
      {inner outer : List Origin} {t : TypeDef} (found : types.get? label = some t)
      (fresh : t.label ∉ marked)
      (inside : Emits types depth (t.label :: marked) (t.references.map Task.visit) inner between)
      (after : Emits types (depth + 1) between rest outer marked') :
      Emits types (depth + 1) marked (.visit label :: rest) (inner ++ .type t :: outer) marked'

/-! ## Every emission ends -/

theorem unmarked_le_of_subset (types : List TypeDef) {marked marked' : List String}
    (h : marked ⊆ marked') : unmarked types marked' ≤ unmarked types marked := by
  refine List.countP_mono_left fun t _ ht => ?_
  simp only [decide_eq_true_eq] at ht ⊢
  exact fun mem => ht (h mem)

theorem unmarked_nil (types : List TypeDef) : unmarked types [] = types.length := by
  simp [unmarked]

section Types

variable {types : Catalog String TypeDef} {depth : Nat} {marked marked' : List String}
  {tasks : List Task} {written : List Origin}

/-- No mark is taken away. -/
theorem Emits.subset (h : Emits types depth marked tasks written marked') : marked ⊆ marked' := by
  induction h with
  | done => exact fun _ => id
  | write _ ih | absent _ _ ih | seen _ _ _ ih => exact ih
  | visit _ _ _ _ inside after => exact fun l hl => after (inside (List.mem_cons_of_mem _ hl))

variable (types) in
/-- **Every emission ends**, nested at most as deep as there are types without a mark. -/
theorem exists_emits (depth : Nat) : ∀ (tasks : List Task) (marked : List String),
    unmarked types.values marked ≤ depth →
      ∃ written marked', Emits types depth marked tasks written marked' := by
  -- The outer induction is on the depth, for the visits inside, and the inner one on the tasks.
  induction depth using Nat.strongRecOn with
  | _ depth nested =>
    intro tasks
    induction tasks with
    | nil => exact fun marked _ => ⟨[], marked, .done⟩
    | cons task rest ih =>
      intro marked bound
      cases task with
      | write origin =>
        obtain ⟨written, marked', after⟩ := ih marked bound
        exact ⟨_, _, .write after⟩
      | visit label =>
        cases found : types.get? label with
        | none =>
          obtain ⟨written, marked', after⟩ := ih marked bound
          exact ⟨_, _, .absent found after⟩
        | some t =>
          by_cases mark : t.label ∈ marked
          · obtain ⟨written, marked', after⟩ := ih marked bound
            exact ⟨_, _, .seen found mark after⟩
          · have fewer := unmarked_cons_lt (Catalog.mem_values_of_get? found) mark
            obtain ⟨depth, rfl⟩ : ∃ n, depth = n + 1 :=
              Nat.exists_eq_add_one_of_ne_zero (by omega)
            obtain ⟨inner, between, inside⟩ := nested depth (Nat.lt_succ_self depth)
              (t.references.map Task.visit) (t.label :: marked) (by omega)
            have kept := unmarked_le_of_subset types.values inside.subset
            obtain ⟨outer, marked', after⟩ := ih between (by omega)
            exact ⟨_, _, .visit found mark inside after⟩

/-- **An emission ends in one way.** -/
theorem Emits.unique (h : Emits types depth marked tasks written marked') {depth' : Nat}
    {written' : List Origin} {marked'' : List String}
    (h' : Emits types depth' marked tasks written' marked'') :
    written' = written ∧ marked'' = marked' := by
  induction h generalizing depth' written' marked'' with
  | done => cases h'; exact ⟨rfl, rfl⟩
  | write _ ih =>
    cases h' with
    | write after =>
      obtain ⟨rfl, rfl⟩ := ih after
      exact ⟨rfl, rfl⟩
  | absent unknown _ ih =>
    cases h' with
    | absent _ after => exact ih after
    | seen found => exact absurd (unknown.symm.trans found) (Option.some_ne_none _).symm
    | visit found => exact absurd (unknown.symm.trans found) (Option.some_ne_none _).symm
  | seen found mark _ ih =>
    cases h' with
    | absent unknown => exact absurd (unknown.symm.trans found) (Option.some_ne_none _).symm
    | seen _ _ after => exact ih after
    | visit found' fresh => exact absurd (Option.some.inj (found.symm.trans found') ▸ mark) fresh
  | visit found fresh _ _ ihInside ihAfter =>
    cases h' with
    | absent unknown => exact absurd (unknown.symm.trans found) (Option.some_ne_none _).symm
    | seen found' mark => exact absurd (Option.some.inj (found'.symm.trans found) ▸ mark) fresh
    | visit found' _ inside after =>
      obtain rfl := Option.some.inj (found.symm.trans found')
      obtain ⟨rfl, rfl⟩ := ihInside inside
      obtain ⟨rfl, rfl⟩ := ihAfter after
      exact ⟨rfl, rfl⟩

theorem perform_absent {label : String} (unknown : types.get? label = none) (rest : List Task) :
    perform types marked (.visit label :: rest) = perform types marked rest := by
  rw [perform]
  split
  · rfl
  · rename_i found
    exact absurd (unknown.symm.trans found) (Option.some_ne_none _).symm

theorem perform_visit {label : String} {t : TypeDef} (found : types.get? label = some t)
    (rest : List Task) :
    perform types marked (.visit label :: rest) =
      if t.label ∈ marked then perform types marked rest
      else perform types (t.label :: marked)
        (t.references.map Task.visit ++ .write (.type t) :: rest) := by
  rw [perform]
  split
  · rename_i unknown
    exact absurd (unknown.symm.trans found) (Option.some_ne_none _).symm
  · rename_i found'
    rw [Option.some.inj (found.symm.trans found')]

/-- **The list of tasks that is worked off gives what the nested visits give**, and goes on with
their marks. -/
theorem Emits.perform_append (h : Emits types depth marked tasks written marked')
    (rest : List Task) :
    perform types marked (tasks ++ rest) = written ++ perform types marked' rest := by
  induction h generalizing rest with
  | done => rfl
  | write _ ih => rw [List.cons_append, perform, ih, List.cons_append]
  | absent unknown _ ih => rw [List.cons_append, perform_absent unknown, ih]
  | seen found mark _ ih => rw [List.cons_append, perform_visit found, if_pos mark, ih]
  | visit found fresh _ _ inside after =>
    rw [List.cons_append, perform_visit found, if_neg fresh, inside, perform, after,
      List.append_assoc, List.cons_append]

theorem Emits.perform_eq (h : Emits types depth marked tasks written marked') :
    perform types marked tasks = written := by
  have all := h.perform_append []
  rwa [List.append_nil, perform, List.append_nil] at all

/-! ## What is written -/

/-- The types that are written, in order. -/
def typesOf (written : List Origin) : List TypeDef := written.filterMap Origin.type?

theorem typesOf_append_type (inner outer : List Origin) (t : TypeDef) :
    typesOf (inner ++ .type t :: outer) = typesOf inner ++ t :: typesOf outer :=
  List.filterMap_append

/-- **The marks are the labels of the types that are written**, and those before them. -/
theorem Emits.perm_marked (h : Emits types depth marked tasks written marked')
    (records : typesOf (pending tasks) = []) :
    ((typesOf written).map TypeDef.label ++ marked).Perm marked' := by
  induction h with
  | done => exact .refl _
  | @write _ _ _ origin _ _ _ ih =>
    cases origin with
    | type t => exact absurd records (List.cons_ne_nil _ _)
    | arguments kind r => exact ih records
  | absent _ _ ih | seen _ _ _ ih => exact ih records
  | @visit _ marked between marked' _ rest inner outer t _ _ _ _ inside after =>
    have inside := inside (by rw [pending_map_visit]; rfl)
    have swapped : ((typesOf (inner ++ .type t :: outer)).map TypeDef.label ++ marked).Perm
        ((typesOf outer).map TypeDef.label ++
          ((typesOf inner).map TypeDef.label ++ t.label :: marked)) := by
      rw [List.perm_iff_count]
      intro label
      simp only [typesOf_append_type, List.map_append, List.map_cons, List.count_append,
        List.count_cons]
      omega
    exact (swapped.trans (inside.append_left _)).trans (after records)

/-- No label is marked twice. -/
theorem Emits.nodup (h : Emits types depth marked tasks written marked') (distinct : marked.Nodup) :
    marked'.Nodup := by
  induction h with
  | done => exact distinct
  | write _ ih | absent _ _ ih | seen _ _ _ ih => exact ih distinct
  | visit _ fresh _ _ inside after =>
    exact after (inside (List.nodup_cons.mpr ⟨fresh, distinct⟩))

/-- Only types of the schema are written. -/
theorem Emits.mem_values (h : Emits types depth marked tasks written marked')
    (records : typesOf (pending tasks) = []) : typesOf written ⊆ types.values := by
  induction h with
  | done => exact List.nil_subset _
  | @write _ _ _ origin _ _ _ ih =>
    cases origin with
    | type t => exact absurd records (List.cons_ne_nil _ _)
    | arguments kind r => exact ih records
  | absent _ _ ih | seen _ _ _ ih => exact ih records
  | visit found _ _ _ inside after =>
    have inside := inside (by rw [pending_map_visit]; rfl)
    rw [typesOf_append_type]
    refine List.append_subset.mpr ⟨inside, List.cons_subset.mpr ⟨?_, after records⟩⟩
    exact Catalog.mem_values_of_get? found

end Types

/-! ## Declaration order -/

/-- The first type of each label that is not marked is kept. -/
theorem filter_firstOfLabel (label : String) (types : List TypeDef) : ∀ marked : List String,
    (firstOfLabel marked types).filter (·.label = label) =
      if label ∈ marked then [] else (types.find? (·.label = label)).toList := by
  induction types with
  | nil => intro marked; simp [firstOfLabel]
  | cons t types ih =>
    intro marked
    rw [firstOfLabel]
    by_cases same : t.label = label
    · subst same
      by_cases mark : t.label ∈ marked
      · rw [if_pos mark, ih, if_pos mark, if_pos mark]
      · rw [if_neg mark, if_neg mark, List.filter_cons_of_pos (by simp), ih,
          if_pos List.mem_cons_self, List.find?_cons_of_pos (by simp)]
        rfl
    · have other : label ∈ t.label :: marked ↔ label ∈ marked := by
        simp [Ne.symm same]
      rw [List.find?_cons_of_neg (by simpa using same)]
      by_cases mark : t.label ∈ marked
      · rw [if_pos mark, ih]
      · rw [if_neg mark, List.filter_cons_of_neg (by simpa using same), ih]
        simp only [other]

theorem sublist_firstOfLabel (types : List TypeDef) : ∀ marked : List String,
    (firstOfLabel marked types).Sublist types := by
  induction types with
  | nil => exact fun _ => .slnil
  | cons t types ih =>
    intro marked
    rw [firstOfLabel]
    split
    · exact (ih marked).cons t
    · exact (ih _).cons_cons t

theorem nodup_labels_firstOfLabel (types : List TypeDef) (marked : List String) :
    ((firstOfLabel marked types).map TypeDef.label).Nodup := by
  rw [List.nodup_iff_count]
  intro label
  have kept : ((firstOfLabel marked types).map TypeDef.label).count label =
      ((firstOfLabel marked types).filter (·.label = label)).length := by
    rw [List.count, List.countP_map, List.countP_eq_length_filter]
    rfl
  rw [kept, filter_firstOfLabel]
  split
  · exact Nat.zero_le 1
  · cases types.find? (·.label = label) <;> simp

theorem typesOf_argumentRecords (schema : Schema) : typesOf (argumentRecords schema) = [] := by
  rw [argumentRecords_eq, typesOf, List.filterMap_map]
  simp [Origin.type?, Function.comp_def]

theorem typesOf_origins_declaration (schema : Schema) :
    typesOf (schema.origins .declaration) = firstOfLabel [] schema.types.values := by
  have split : typesOf (schema.origins .declaration) = typesOf (argumentRecords schema) ++
      typesOf ((firstOfLabel [] schema.types.values).map Origin.type) := List.filterMap_append
  rw [split, typesOf_argumentRecords, List.nil_append, typesOf, List.filterMap_map]
  exact List.filterMap_some

theorem length_origins (schema : Schema) (order : Order) :
    (schema.origins order).length =
      (typesOf (schema.origins order)).length + schema.requestsWithArguments.length := by
  rw [← filterMap_request?_origins schema order, typesOf]
  induction schema.origins order with
  | nil => rfl
  | cons o origins ih =>
    cases o with
    | type t =>
      have one : ((Origin.type t :: origins).filterMap Origin.type?).length =
          (origins.filterMap Origin.type?).length + 1 := rfl
      have none : (Origin.type t :: origins).filterMap Origin.request? =
          origins.filterMap Origin.request? := rfl
      rw [List.length_cons, ih, one, none]
      omega
    | arguments kind r =>
      have none : (Origin.arguments kind r :: origins).filterMap Origin.type? =
          origins.filterMap Origin.type? := rfl
      have one : ((Origin.arguments kind r :: origins).filterMap Origin.request?).length =
          (origins.filterMap Origin.request?).length + 1 := rfl
      rw [List.length_cons, ih, none, one]
      omega

end Emission

open Emission

/-- **Emission ends on every schema and writes no type twice.** From all marks and every label, the
visit of the label comes to one end, after visits nested no deeper than there are types without a
mark, and so does all of dependency order. In both orders what is written are types of the schema,
no two with one label, and in declaration order it is the first type of each label. The text that is
written has the declarations of these types and of the requests with arguments and no others, one
after the other, and as many of them are counted. Nothing is assumed of the schema: its keys need
not be its labels. -/
theorem Schema.emission_ends (schema : Schema) :
    (∀ (marked : List String) (label : String), ∃ written marked',
      Emits schema.types (unmarked schema.types.values marked) marked [.visit label] written
        marked' ∧
      perform schema.types marked [.visit label] = written ∧
      ∀ depth written' marked'', Emits schema.types depth marked [.visit label] written' marked'' →
        written' = written ∧ marked'' = marked') ∧
    (∃ marked', Emits schema.types schema.types.values.length [] (dependencyTasks schema)
      (schema.origins .dependencies) marked') ∧
    (∀ order, ((typesOf (schema.origins order)).map TypeDef.label).Nodup ∧
      typesOf (schema.origins order) ⊆ schema.types.values) ∧
    (typesOf (schema.origins .declaration)).Sublist schema.types.values ∧
    (∀ label, (typesOf (schema.origins .declaration)).filter (·.label = label) =
      (schema.types.values.find? (·.label = label)).toList) ∧
    (∀ order, (schema.origins order).filterMap Origin.request? = schema.requestsWithArguments) ∧
    ∀ options now,
      (schema.typegen options now).text = "\n".intercalate ((options.headerText? now).toList ++
        (schema.origins options.order).map fun o => o.declaration.text options.indent) ∧
      (schema.typegen options now).declarations = (typesOf (schema.origins options.order)).length +
        schema.requestsWithArguments.length := by
  obtain ⟨written, marked', emits⟩ := exists_emits schema.types schema.types.values.length
    (dependencyTasks schema) [] (Nat.le_of_eq (unmarked_nil _))
  obtain rfl : schema.origins .dependencies = written := emits.perform_eq
  have records : typesOf (pending (dependencyTasks schema)) = [] := by
    rw [pending_dependencyTasks, typesOf_argumentRecords]
  refine ⟨fun marked label => ?_, ⟨marked', emits⟩, fun order => ?_, ?_, fun label => ?_,
    filterMap_request?_origins schema,
    fun options now => ⟨schema.text_typegen_parts options now, ?_⟩⟩
  · obtain ⟨written, marked', emits⟩ := exists_emits schema.types _ [.visit label] marked
      (Nat.le_refl _)
    exact ⟨written, marked', emits, emits.perform_eq, fun _ _ _ other => emits.unique other⟩
  · cases order with
    | declaration =>
      rw [typesOf_origins_declaration]
      exact ⟨nodup_labels_firstOfLabel _ [], (sublist_firstOfLabel _ []).subset⟩
    | dependencies =>
      have marks := emits.perm_marked records
      rw [List.append_nil] at marks
      exact ⟨marks.nodup_iff.mpr (emits.nodup List.nodup_nil), emits.mem_values records⟩
  · rw [typesOf_origins_declaration]
    exact sublist_firstOfLabel _ []
  · rw [typesOf_origins_declaration, filter_firstOfLabel, if_neg List.not_mem_nil]
  · rw [← length_origins]
    exact List.length_map _

end SchemaTypegen
