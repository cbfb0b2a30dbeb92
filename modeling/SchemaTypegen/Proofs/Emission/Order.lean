import Mathlib.Logic.Relation
import SchemaTypegen.Proofs.Emission

/-!
# What is pointed at comes first

The order in which the list of tasks is worked off. The writings of types in it are the types whose
visit has begun and not ended, the innermost first, and whatever stands before such a writing is
done on behalf of its type: it can be reached from there. So when a type is about to be written, a
type it points at is written already or is still being visited, and then the first is done on behalf
of the second: only a cycle can make a type come before one it points at. An argument interface is
never written on behalf of a type, so nothing is half done when its turn comes.

* `TypeDef.mem_references_iff`, `Request.mem_references_iff`: what is visited is what is named.
* `Progress`: the invariant, kept by every step: `Progress.skip`, `Progress.push`, `Progress.write`.
* `inOrder_perform`: whatever is written is in order.
* **`dependencies_first`**: a type comes after the types it points at unless they lead back to it,
  and an argument interface after everything that can be reached from its request.
-/

namespace SchemaTypegen

/-- The labels that an origin names: a type names those of its fields' types, and its members if it
is a union, and the arguments of a request name those of their types and of the request's result. -/
inductive Origin.Names : Origin → String → Prop where
  | field {t : TypeDef} {fields : List Field} {f : Field} {kind : Kind} {label : String}
      (body : t.body = .fields fields) (mem : f ∈ fields)
      (named : f.type.base = .named kind label) : Names (.type t) label
  | member {t : TypeDef} {members : List String} {label : String} (body : t.body = .members members)
      (union : t.kind = .union) (mem : label ∈ members) : Names (.type t) label
  | argument {root : RootKind} {r : Request} {f : Field} {kind : Kind} {label : String}
      (mem : f ∈ r.arguments) (named : f.type.base = .named kind label) :
      Names (.arguments root r) label
  | result {root : RootKind} {r : Request} {kind : Kind} {label : String}
      (named : r.returns.base = .named kind label) : Names (.arguments root r) label

theorem FieldType.reference?_eq_some_iff {type : FieldType} {label : String} :
    type.reference? = some label ↔ ∃ kind, type.base = .named kind label := by
  unfold reference?
  cases type.base <;> simp

theorem TypeDef.mem_references_iff {t : TypeDef} {label : String} :
    label ∈ t.references ↔ (Origin.type t).Names label := by
  obtain ⟨kind, own, body⟩ := t
  constructor
  · intro h
    cases body with
    | fields fields =>
      obtain ⟨f, mem, named⟩ := List.mem_filterMap.mp h
      obtain ⟨_, named⟩ := FieldType.reference?_eq_some_iff.mp named
      exact .field rfl mem named
    | members members =>
      cases kind with
      | union => exact .member rfl rfl h
      | scalar | enum | input | interface | object => exact absurd h List.not_mem_nil
  · intro h
    cases h with
    | field body mem named =>
      cases body
      exact List.mem_filterMap.mpr ⟨_, mem, FieldType.reference?_eq_some_iff.mpr ⟨_, named⟩⟩
    | member body union mem =>
      cases body
      cases union
      exact mem

theorem Request.mem_references_iff {root : RootKind} {r : Request} {label : String} :
    label ∈ r.references ↔ (Origin.arguments root r).Names label := by
  rw [references, List.filterMap_append, List.mem_append, List.filterMap_map, List.mem_filterMap,
    List.mem_filterMap]
  constructor
  · rintro (⟨f, mem, named⟩ | ⟨type, mem, named⟩)
    · obtain ⟨_, named⟩ := FieldType.reference?_eq_some_iff.mp named
      exact .argument mem named
    · obtain rfl := List.mem_singleton.mp mem
      obtain ⟨_, named⟩ := FieldType.reference?_eq_some_iff.mp named
      exact .result named
  · intro h
    cases h with
    | argument mem named =>
      exact Or.inl ⟨_, mem, FieldType.reference?_eq_some_iff.mpr ⟨_, named⟩⟩
    | result named =>
      exact Or.inr ⟨_, List.mem_singleton.mpr rfl, FieldType.reference?_eq_some_iff.mpr ⟨_, named⟩⟩

instance : (origin : Origin) → (label : String) → Decidable (origin.Names label)
  | .type t, label => decidable_of_iff (label ∈ t.references) TypeDef.mem_references_iff
  | .arguments _ r, label => decidable_of_iff (label ∈ r.references) Request.mem_references_iff

namespace Emission

/-! ## Pointing and reaching -/

section Reaching

variable (types : Catalog String TypeDef)

/-- An origin names a type that is there. -/
def PointsAt (origin : Origin) (u : TypeDef) : Prop :=
  ∃ label, origin.Names label ∧ types.get? label = some u

/-- A chain of references leads from one type to another. -/
def Reaches : TypeDef → TypeDef → Prop :=
  Relation.ReflTransGen fun t u => PointsAt types (.type t) u

/-- What has to be written when an origin is written: everything that can be reached from a request,
and whatever a type points at, unless it leads back to the type. -/
def InOrder (written : List Origin) : Origin → Prop
  | .type t => ∀ u, PointsAt types (.type t) u → .type u ∈ written ∨ Reaches types u t
  | .arguments kind r => ∀ u, PointsAt types (.arguments kind r) u →
      ∀ v, Reaches types u v → .type v ∈ written

/-- A task that is done on behalf of a type. -/
def Beneath (t : TypeDef) : Task → Prop
  | .visit label => ∀ u, types.get? label = some u → Reaches types t u
  | .write (.type u) => Reaches types t u
  | .write (.arguments _ _) => False

/-- How far the tasks are worked off. -/
structure Progress (written : List Origin) (marked : List String) (tasks : List Task) : Prop where
  /-- A type that is marked is written or going to be. -/
  begun : ∀ t ∈ types.values, t.label ∈ marked → .type t ∈ written ∨ .write (.type t) ∈ tasks
  /-- What an origin points at is marked or visited before the origin is written. -/
  queued : ∀ before origin after, tasks = before ++ .write origin :: after →
    ∀ u, PointsAt types origin u → u.label ∈ marked ∨ .visit u.label ∈ before
  /-- What a written type points at is marked. -/
  closed : ∀ t, .type t ∈ written → ∀ u, PointsAt types (.type t) u → u.label ∈ marked
  /-- What comes before the writing of a type is done on its behalf. -/
  nested : ∀ before t after, tasks = before ++ .write (.type t) :: after →
    ∀ task ∈ before, Beneath types t task

end Reaching

variable {types : Catalog String TypeDef}

/-- A writing among tasks that begin with visits stands after these visits. -/
theorem split_visits {other : Origin} {rest after : List Task} (labels : List String) :
    ∀ before : List Task, labels.map Task.visit ++ rest = before ++ .write other :: after →
      ∃ before', before = labels.map Task.visit ++ before' ∧
        rest = before' ++ .write other :: after := by
  induction labels with
  | nil => exact fun before h => ⟨before, rfl, h⟩
  | cons label labels ih =>
    intro before h
    rcases List.cons_eq_append_iff.mp h with ⟨rfl, e⟩ | ⟨before', rfl, e⟩
    · exact absurd (List.cons.inj e).1 (by simp)
    · obtain ⟨later, rfl, parted⟩ := ih before' e
      exact ⟨later, rfl, parted⟩

/-- A writing among tasks that begin with visits and another writing is that one or stands after
it. -/
theorem split_pushed {origin other : Origin} {rest before after : List Task} {labels : List String}
    (h : labels.map Task.visit ++ .write origin :: rest = before ++ .write other :: after) :
    (before = labels.map Task.visit ∧ other = origin) ∨
      ∃ before', before = labels.map Task.visit ++ .write origin :: before' ∧
        rest = before' ++ .write other :: after := by
  obtain ⟨later, rfl, parted⟩ := split_visits labels before h
  rcases List.cons_eq_append_iff.mp parted with ⟨rfl, e⟩ | ⟨before', rfl, e⟩
  · exact Or.inl ⟨List.append_nil _, Task.write.inj (List.cons.inj e).1⟩
  · exact Or.inr ⟨before', rfl, e⟩

/-! ## One step -/

namespace Progress

variable {written : List Origin} {marked : List String} {rest : List Task} {label : String}

theorem marked_of_pointsAt {origin : Origin}
    (h : Progress types written marked (.write origin :: rest)) {u : TypeDef}
    (hu : PointsAt types origin u) : u.label ∈ marked := by
  rcases h.queued [] origin rest rfl u hu with seen | visited
  · exact seen
  · exact absurd visited List.not_mem_nil

/-- A type that is marked but not written is being visited: whatever is written next is on its
behalf. -/
theorem written_or_beneath {origin : Origin}
    (h : Progress types written marked (.write origin :: rest)) {u : TypeDef}
    (hu : u ∈ types.values) (seen : u.label ∈ marked) :
    .type u ∈ written ∨ Beneath types u (.write origin) := by
  rcases h.begun u hu seen with done | later
  · exact Or.inl done
  · right
    rcases List.mem_cons.mp later with e | later
    · rw [← e]
      exact Relation.ReflTransGen.refl
    · obtain ⟨before, after, rfl⟩ := List.append_of_mem later
      exact h.nested (.write origin :: before) u after rfl _ List.mem_cons_self

/-- What is written next is in order. -/
theorem inOrder {origin : Origin} (h : Progress types written marked (.write origin :: rest)) :
    InOrder types written origin := by
  have there : ∀ {o : Origin} {u : TypeDef}, PointsAt types o u → u ∈ types.values :=
    fun ⟨_, _, found⟩ => Catalog.mem_values_of_get? found
  cases origin with
  | type t => exact fun u hu => h.written_or_beneath (there hu) (h.marked_of_pointsAt hu)
  | arguments kind r =>
    -- No type is being visited, so what is marked is written.
    have done : ∀ u ∈ types.values, u.label ∈ marked → .type u ∈ written :=
      fun u hu seen => (h.written_or_beneath hu seen).resolve_right id
    intro u hu v chain
    induction chain with
    | refl => exact done u (there hu) (h.marked_of_pointsAt hu)
    | tail _ step ih => exact done _ (there step) (h.closed _ ih _ step)

theorem write {origin : Origin} (h : Progress types written marked (.write origin :: rest)) :
    Progress types (written ++ [origin]) marked rest where
  begun t ht seen := by
    rcases h.begun t ht seen with done | later
    · exact Or.inl (List.mem_append_left _ done)
    · rcases List.mem_cons.mp later with e | later
      · exact Or.inl (List.mem_append_right _ (by simpa using e))
      · exact Or.inr later
  queued before other after e u hu := by
    rcases h.queued (.write origin :: before) other after (congrArg _ e) u hu with seen | visited
    · exact Or.inl seen
    · exact Or.inr (by simpa using visited)
  closed t ht u hu := by
    rcases List.mem_append.mp ht with ht | ht
    · exact h.closed t ht u hu
    · rw [List.mem_singleton] at ht
      exact h.marked_of_pointsAt (ht ▸ hu)
  nested before t after e task ht :=
    h.nested (.write origin :: before) t after (congrArg _ e) task (List.mem_cons_of_mem _ ht)

variable (labelled : Labelled types)

include labelled

theorem skip (h : Progress types written marked (.visit label :: rest))
    (seen : ∀ t, types.get? label = some t → t.label ∈ marked) :
    Progress types written marked rest where
  begun t ht marked := by simpa using h.begun t ht marked
  queued before origin after e u hu := by
    rcases h.queued (.visit label :: before) origin after (congrArg _ e) u hu with old | visited
    · exact Or.inl old
    · rcases List.mem_cons.mp visited with e | visited
      · obtain ⟨other, _, found⟩ := hu
        have same : other = label := (label_of_get? labelled found).symm.trans (Task.visit.inj e)
        exact Or.inl (seen u (same ▸ found))
      · exact Or.inr visited
  closed := h.closed
  nested before t after e task ht :=
    h.nested (.visit label :: before) t after (congrArg _ e) task (List.mem_cons_of_mem _ ht)

theorem push {t : TypeDef} (h : Progress types written marked (.visit label :: rest))
    (found : types.get? label = some t) :
    Progress types written (t.label :: marked)
      (t.references.map Task.visit ++ .write (.type t) :: rest) where
  begun u hu seen := by
    rcases List.mem_cons.mp seen with e | seen
    · have same : u = t := by
        have found' := get?_label labelled hu
        rw [e, label_of_get? labelled found, found] at found'
        exact (Option.some.inj found').symm
      exact Or.inr (by simp [same])
    · rcases h.begun u hu seen with done | later
      · exact Or.inl done
      · exact Or.inr (by simpa using Or.inr later)
  queued before origin after e u hu := by
    rcases split_pushed e with ⟨rfl, rfl⟩ | ⟨before', rfl, parted⟩
    · obtain ⟨other, mem, found'⟩ := hu
      exact Or.inr (label_of_get? labelled found' ▸
        List.mem_map_of_mem (TypeDef.mem_references_iff.mpr mem))
    · have old := h.queued (.visit label :: before') origin after (congrArg _ parted) u hu
      rcases old with old | visited
      · exact Or.inl (List.mem_cons_of_mem _ old)
      · rcases List.mem_cons.mp visited with e | visited
        · have same : u.label = t.label :=
            (Task.visit.inj e).trans (label_of_get? labelled found).symm
          exact Or.inl (same ▸ List.mem_cons_self)
        · exact Or.inr (List.mem_append_right _ (List.mem_cons_of_mem _ visited))
  closed u hu v hv := List.mem_cons_of_mem _ (h.closed u hu v hv)
  nested before u after e task ht := by
    rcases split_pushed e with ⟨rfl, same⟩ | ⟨before', rfl, parted⟩
    · obtain ⟨other, mem, rfl⟩ := List.mem_map.mp ht
      obtain rfl := Origin.type.inj same
      exact fun v hv =>
        Relation.ReflTransGen.single ⟨other, TypeDef.mem_references_iff.mp mem, hv⟩
    · have below := h.nested (.visit label :: before') u after (congrArg _ parted)
      have reached : Reaches types u t := below _ List.mem_cons_self t found
      rcases List.mem_append.mp ht with ht | ht
      · obtain ⟨other, mem, rfl⟩ := List.mem_map.mp ht
        exact fun v hv => reached.tail ⟨other, TypeDef.mem_references_iff.mp mem, hv⟩
      · rcases List.mem_cons.mp ht with rfl | ht
        · exact reached
        · exact below task (List.mem_cons_of_mem _ ht)

end Progress

/-! ## A whole run -/

/-- **Whatever is written is in order.** -/
theorem inOrder_perform (labelled : Labelled types) {marked : List String} {tasks : List Task} :
    ∀ written : List Origin, Progress types written marked tasks → ∀ before origin after,
      perform types marked tasks = before ++ origin :: after →
      InOrder types (written ++ before) origin := by
  fun_induction perform types marked tasks with
  | case1 => exact fun _ _ before origin after e => absurd e (by simp)
  | case2 marked first rest ih =>
    intro written h before origin after e
    rcases List.cons_eq_append_iff.mp e with ⟨rfl, now⟩ | ⟨before', rfl, parted⟩
    · obtain ⟨rfl, -⟩ := List.cons.inj now
      rw [List.append_nil]
      exact h.inOrder
    · have later := ih (written ++ [first]) h.write before' origin after parted
      rwa [List.append_assoc] at later
  | case3 marked label rest absent ih =>
    intro written h
    exact ih written (h.skip labelled fun t found => by simp [absent] at found)
  | case4 marked label rest t found seen ih =>
    intro written h
    refine ih written (h.skip labelled fun u found' => ?_)
    rw [found] at found'
    exact Option.some.inj found' ▸ seen
  | case5 marked label rest t found fresh ih =>
    exact fun written h => ih written (h.push labelled found)

/-! ## Dependency order -/

/-- What dependency order begins with writes no types, and it writes the arguments of a request
after visiting what the request points at. -/
theorem split_dependencyTasks {schema : Schema} {after : List Task} {origin : Origin} :
    ∀ before : List Task, dependencyTasks schema = before ++ .write origin :: after →
      ∃ kind r, origin = .arguments kind r ∧ ∀ label ∈ r.references, .visit label ∈ before := by
  unfold dependencyTasks
  induction schema.requests with
  | nil =>
    intro before h
    have mem : Task.write origin ∈ schema.types.values.map fun t => Task.visit t.label := by
      rw [List.flatMap_nil, List.nil_append] at h
      exact h ▸ List.mem_append_right _ List.mem_cons_self
    exact absurd mem (by simp)
  | cons q requests ih =>
    obtain ⟨kind, r⟩ := q
    intro before h
    rw [List.flatMap_cons, List.append_assoc, List.append_assoc] at h
    obtain ⟨before', rfl, parted⟩ := split_visits r.references before h
    cases empty : r.arguments.isEmpty with
    | true =>
      rw [argumentRecord, empty, if_pos rfl] at parted
      obtain ⟨kind', r', e, visited⟩ := ih before' parted
      exact ⟨kind', r', e, fun label mem => List.mem_append_right _ (visited label mem)⟩
    | false =>
      rw [argumentRecord, empty, if_neg Bool.false_ne_true] at parted
      rcases List.cons_eq_append_iff.mp parted with ⟨rfl, own⟩ | ⟨later, rfl, e⟩
      · refine ⟨kind, r, Task.write.inj (List.cons.inj own).1, fun label mem => ?_⟩
        exact List.mem_append_left _ (List.mem_map_of_mem mem)
      · obtain ⟨kind', r', e, visited⟩ := ih later e
        refine ⟨kind', r', e, fun label mem => ?_⟩
        exact List.mem_append_right _ (List.mem_cons_of_mem _ (visited label mem))

theorem progress_dependencyTasks (schema : Schema) (labelled : Labelled schema.types) :
    Progress schema.types [] [] (dependencyTasks schema) where
  begun _ _ seen := absurd seen List.not_mem_nil
  queued before origin after e u hu := by
    obtain ⟨label, mem, found⟩ := hu
    obtain ⟨kind, r, rfl, visited⟩ := split_dependencyTasks before e
    exact Or.inr (label_of_get? labelled found ▸
      visited label (Request.mem_references_iff.mpr mem))
  closed _ ht := absurd ht List.not_mem_nil
  nested before t after e := by
    obtain ⟨kind, r, h, -⟩ := split_dependencyTasks before e
    exact absurd h (by simp)

end Emission

open Emission

/-- The second is written, and wherever it is, the first has been written before. -/
def WrittenBefore (origins : List Origin) (first second : Origin) : Prop :=
  second ∈ origins ∧ ∀ before after, origins = before ++ second :: after → first ∈ before

/-- **In dependency order a type is written after the types it points at**, those apart that lead
back to it, **and the arguments of a request after every type that can be reached from it**, through
cycles too. The text has the declarations in this order. -/
theorem Schema.dependencies_first {schema : Schema} (labelled : Labelled schema.types) :
    (∀ t ∈ schema.types.values, ∀ u, PointsAt schema.types (.type t) u →
      ¬ Reaches schema.types u t →
      WrittenBefore (schema.origins .dependencies) (.type u) (.type t)) ∧
    (∀ kind r, (kind, r) ∈ schema.requestsWithArguments →
      ∀ u, PointsAt schema.types (.arguments kind r) u → ∀ v, Reaches schema.types u v →
        WrittenBefore (schema.origins .dependencies) (.type v) (.arguments kind r)) ∧
    ∀ options now, options.order = .dependencies →
      (schema.typegen options now).text = "\n".intercalate ((options.headerText? now).toList ++
        (schema.origins .dependencies).map fun o => o.declaration.text options.indent) := by
  have permuted := perm_origins labelled .dependencies
  have ordered := inOrder_perform labelled [] (progress_dependencyTasks schema labelled)
  refine ⟨?_, ?_, ?_⟩
  · intro t ht u points acyclic
    refine ⟨permuted.mem_iff.mpr (List.mem_append_right _ (List.mem_map_of_mem ht)), ?_⟩
    intro before after e
    exact (ordered before _ after e u points).resolve_right acyclic
  · intro kind r hr u points v chain
    have recorded : Origin.arguments kind r ∈ argumentRecords schema := by
      rw [argumentRecords_eq]
      exact List.mem_map_of_mem hr
    refine ⟨permuted.mem_iff.mpr (List.mem_append_left _ recorded), ?_⟩
    intro before after e
    exact ordered before _ after e u points v chain
  · intro options now h
    rw [schema.text_typegen_parts, Schema.parts, h]

theorem Schema.dependencies_first_sampleSchema :
    WrittenBefore (sampleSchema.origins .dependencies) (.type sampleEnum) (.type sampleObject) ∧
    WrittenBefore (sampleSchema.origins .dependencies) (.type sampleObject)
      (.arguments .query sampleRequest) := by
  have ends : ¬ Reaches sampleSchema.types sampleEnum sampleObject := by
    intro chain
    rcases chain.cases_head with same | ⟨next, ⟨label, mem, -⟩, -⟩
    · exact absurd same (by decide)
    · exact absurd (TypeDef.mem_references_iff.mpr mem) List.not_mem_nil
  have step : PointsAt sampleSchema.types (.type sampleInput) sampleObject :=
    ⟨"B", by decide, by decide⟩
  have labelled : Labelled sampleSchema.types := by decide
  obtain ⟨types, requests, -⟩ := Schema.dependencies_first labelled
  exact ⟨types sampleObject (by decide) sampleEnum ⟨"E", by decide, by decide⟩ ends,
    requests .query sampleRequest (by decide) sampleInput ⟨"A", by decide, by decide⟩ sampleObject
      (Relation.ReflTransGen.single step)⟩

end SchemaTypegen
