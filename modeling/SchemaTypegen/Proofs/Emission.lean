import Mathlib.Data.List.Count
import SchemaTypegen.Typegen

/-!
# Every declaration exactly once

In dependency order a type is marked when it is visited and written when all it points at has been
seen to. Between the two its writing is among the tasks, so the count of what is written and what is
pending tells the whole story: a type that is marked is written as often as it is pending, and one
that is not marked but going to be visited is written once more. Nothing is assumed of what points
at what; it may be cyclic, and it may point at nothing.

* `count_perform_of_marked`, `count_perform_of_visited`: how often an origin is written.
* `filterMap_request?_perform`: the argument interfaces keep their order.
* **`typegen_writes_once`**: in both orders every type is written once, every request with arguments
  once, in the order of the requests, and nothing else.
-/

namespace SchemaTypegen

/-- The named type an origin is. -/
def Origin.type? : Origin → Option TypeDef
  | type t => some t
  | arguments _ _ => none

/-- The request whose arguments an origin is. -/
def Origin.request? : Origin → Option (RootKind × Request)
  | type _ => none
  | arguments kind r => some (kind, r)

/-- The requests with arguments: those of the query, of the mutation and of the subscription, each
in their order. -/
def Schema.requestsWithArguments (schema : Schema) : List (RootKind × Request) :=
  (schema.roots.query.toList ++ schema.roots.mutation.toList ++
    schema.roots.subscription.toList).flatMap fun operation =>
      (operation.requests.filter fun r => !r.arguments.isEmpty).map (operation.kind, ·)

theorem Roots.operations_eq (roots : Roots) : roots.operations =
    roots.query.toList ++ roots.mutation.toList ++ roots.subscription.toList := by
  obtain ⟨query, mutation, subscription⟩ := roots
  cases query <;> cases mutation <;> cases subscription <;> rfl

/-- The requests with arguments are those among all requests. -/
theorem Schema.requestsWithArguments_eq (schema : Schema) :
    schema.requestsWithArguments = schema.requests.filter fun q => !q.2.arguments.isEmpty := by
  rw [requestsWithArguments, requests, ← Roots.operations_eq, List.filter_flatMap]
  simp only [List.filter_map]
  rfl

theorem Schema.mem_requests {schema : Schema} {q : RootKind × Request}
    (h : q ∈ schema.requestsWithArguments) : q ∈ schema.requests :=
  (List.mem_filter.mp (schema.requestsWithArguments_eq ▸ h)).1

namespace Emission

/-! ## Types under their labels -/

/-- Every type stands under its own label. -/
def Labelled (types : Catalog String TypeDef) : Prop := ∀ e ∈ types.entries, e.1 = e.2.label

instance (types : Catalog String TypeDef) : Decidable (Labelled types) :=
  inferInstanceAs (Decidable (∀ e ∈ types.entries, e.1 = e.2.label))

section Labelled

variable {types : Catalog String TypeDef} (labelled : Labelled types)

include labelled

theorem label_of_get? {label : String} {t : TypeDef} (h : types.get? label = some t) :
    t.label = label :=
  (labelled _ (Catalog.mem_of_lookup h)).symm

theorem map_label_values : types.values.map TypeDef.label = types.keys := by
  rw [Catalog.values, Catalog.keys, List.map_map]
  exact List.map_congr_left fun e he => (labelled e he).symm

theorem nodup_values : types.values.Nodup := by
  have labels : (types.values.map TypeDef.label).Nodup := map_label_values labelled ▸ types.nodup
  refine List.Pairwise.of_map TypeDef.label (fun t u apart e => ?_) labels
  exact apart (congrArg TypeDef.label e)

theorem get?_label {t : TypeDef} (ht : t ∈ types.values) : types.get? t.label = some t := by
  obtain ⟨e, he, rfl⟩ := List.mem_map.mp ht
  rw [← labelled e he]
  exact Catalog.lookup_of_mem types.nodup he

end Labelled

/-! ## What is pending -/

/-- The origin that a task writes. -/
def Task.origin? : Task → Option Origin
  | visit _ => none
  | write origin => some origin

/-- What is going to be written whatever is marked. -/
def pending (tasks : List Task) : List Origin := tasks.filterMap Task.origin?

@[simp]
theorem pending_visit (label : String) (tasks : List Task) :
    pending (.visit label :: tasks) = pending tasks :=
  rfl

@[simp]
theorem pending_write (origin : Origin) (tasks : List Task) :
    pending (.write origin :: tasks) = origin :: pending tasks :=
  rfl

@[simp]
theorem pending_map_visit (labels : List String) : pending (labels.map Task.visit) = [] := by
  induction labels with
  | nil => rfl
  | cons label labels ih => exact ih

@[simp]
theorem pending_append (tasks tasks' : List Task) :
    pending (tasks ++ tasks') = pending tasks ++ pending tasks' :=
  List.filterMap_append

/-! ## How often an origin is written -/

section Perform

variable {types : Catalog String TypeDef}

/-- **What is marked is written as often as it is pending**, and so is what is no type at all. -/
theorem count_perform_of_marked {origin : Origin} {marked : List String} (tasks : List Task)
    (h : ∀ t ∈ types.values, origin = .type t → t.label ∈ marked) :
    (perform types marked tasks).count origin = (pending tasks).count origin := by
  fun_induction perform types marked tasks with
  | case1 => rfl
  | case2 marked other rest ih => rw [pending_write, List.count_cons, List.count_cons, ih h]
  | case3 marked label rest absent ih => exact ih h
  | case4 marked label rest t found seen ih => exact ih h
  | case5 marked label rest t found fresh ih =>
    have apart : origin ≠ .type t :=
      fun e => fresh (h t (Catalog.mem_values_of_get? found) e)
    rw [ih fun u hu e => List.mem_cons_of_mem _ (h u hu e)]
    simp [apart.symm]

/-- **What is not marked but visited is written once more than it is pending.** -/
theorem count_perform_of_visited (labelled : Labelled types) {t : TypeDef} (ht : t ∈ types.values)
    {marked : List String} {tasks : List Task} (unmarked : t.label ∉ marked)
    (visited : .visit t.label ∈ tasks) :
    (perform types marked tasks).count (.type t) = (pending tasks).count (.type t) + 1 := by
  have found := get?_label labelled ht
  have later : ∀ {label : String} {rest : List Task}, .visit t.label ∈ .visit label :: rest →
      t.label ≠ label → .visit t.label ∈ rest :=
    fun mem apart => (List.mem_cons.mp mem).resolve_left fun e => apart (Task.visit.inj e)
  fun_induction perform types marked tasks with
  | case1 => exact absurd visited List.not_mem_nil
  | case2 marked other rest ih =>
    rw [pending_write, List.count_cons, List.count_cons, ih unmarked (by simpa using visited)]
    omega
  | case3 marked label rest absent ih =>
    have apart : t.label ≠ label := by
      rintro rfl
      rw [found] at absent
      exact absurd absent (Option.some_ne_none t)
    exact ih unmarked (later visited apart)
  | case4 marked label rest u found' seen ih =>
    have apart : t.label ≠ label := by
      rintro rfl
      rw [found] at found'
      exact unmarked (Option.some.inj found' ▸ seen)
    exact ih unmarked (later visited apart)
  | case5 marked label rest u found' fresh ih =>
    have same := label_of_get? labelled found'
    by_cases h : t = u
    · -- It is marked now and its writing is pending.
      subst h
      rw [count_perform_of_marked _ fun v _ e => Origin.type.inj e ▸ List.mem_cons_self]
      simp
    · have apart : t.label ≠ label := by
        rintro rfl
        rw [found] at found'
        exact h (Option.some.inj found')
      rw [ih (by simp [same, apart, unmarked]) (by simp [later visited apart])]
      have other : Origin.type u ≠ .type t := fun e => h (Origin.type.inj e).symm
      simp [other]

/-- **The argument interfaces keep their order.** -/
theorem filterMap_request?_perform (marked : List String) (tasks : List Task) :
    (perform types marked tasks).filterMap Origin.request? =
      (pending tasks).filterMap Origin.request? := by
  fun_induction perform types marked tasks with
  | case1 => rfl
  | case2 marked origin rest ih =>
    rw [pending_write, List.filterMap_cons, List.filterMap_cons, ih]
  | case3 marked label rest absent ih => exact ih
  | case4 marked label rest t found seen ih => exact ih
  | case5 marked label rest t found fresh ih =>
    rw [ih, pending_append, pending_map_visit, pending_write]
    rfl

end Perform

/-! ## What a schema declares -/

section Origins

variable (schema : Schema)

theorem argumentRecords_eq :
    argumentRecords schema =
      schema.requestsWithArguments.map fun q => Origin.arguments q.1 q.2 := by
  rw [argumentRecords, schema.requestsWithArguments_eq]
  induction schema.requests with
  | nil => rfl
  | cons q requests ih =>
    obtain ⟨kind, r⟩ := q
    rw [List.flatMap_cons, ih, List.filter_cons]
    cases h : r.arguments.isEmpty <;> simp [argumentRecord, h]

theorem pending_dependencyTasks : pending (dependencyTasks schema) = argumentRecords schema := by
  have visits : pending (schema.types.values.map fun t => Task.visit t.label) = [] := by
    have labels := pending_map_visit (schema.types.values.map TypeDef.label)
    rwa [List.map_map] at labels
  have writes : ∀ origins : List Origin, pending (origins.map Task.write) = origins := by
    intro origins
    rw [pending, List.filterMap_map]
    exact List.filterMap_some
  unfold dependencyTasks argumentRecords
  rw [pending_append, visits, List.append_nil]
  induction schema.requests with
  | nil => rfl
  | cons q requests ih =>
    rw [List.flatMap_cons, List.flatMap_cons, pending_append, ih, pending_append, pending_map_visit,
      writes]
    rfl

theorem firstOfLabel_eq_self (l : List TypeDef) : ∀ marked : List String,
    (l.map TypeDef.label).Nodup → (∀ t ∈ l, t.label ∉ marked) → firstOfLabel marked l = l := by
  induction l with
  | nil => exact fun _ _ _ => rfl
  | cons t l ih =>
    intro marked distinct unmarked
    rw [List.map_cons, List.nodup_cons] at distinct
    rw [firstOfLabel, if_neg (unmarked t List.mem_cons_self), ih _ distinct.2]
    intro u hu
    rw [List.mem_cons, not_or]
    exact ⟨fun e => distinct.1 (e ▸ List.mem_map_of_mem hu), unmarked u (List.mem_cons_of_mem t hu)⟩

/-- In both orders the argument interfaces are those of the requests with arguments, in order. -/
theorem filterMap_request?_origins (order : Order) :
    (schema.origins order).filterMap Origin.request? = schema.requestsWithArguments := by
  have records :
      (argumentRecords schema).filterMap Origin.request? = schema.requestsWithArguments := by
    rw [argumentRecords_eq, List.filterMap_map]
    exact List.filterMap_some
  cases order with
  | declaration =>
    rw [Schema.origins, List.filterMap_append, records, List.filterMap_map]
    simp [Origin.request?, Function.comp_def]
  | dependencies =>
    rw [Schema.origins, filterMap_request?_perform, pending_dependencyTasks, records]

variable {schema} (labelled : Labelled schema.types)

include labelled

theorem origins_declaration :
    schema.origins .declaration =
      argumentRecords schema ++ schema.types.values.map Origin.type := by
  have distinct : (schema.types.values.map TypeDef.label).Nodup :=
    map_label_values labelled ▸ schema.types.nodup
  rw [Schema.origins, firstOfLabel_eq_self _ [] distinct fun _ _ => List.not_mem_nil]

/-- **Both orders declare the same**: the requests with arguments and the types, each once. -/
theorem perm_origins (order : Order) :
    (schema.origins order).Perm
      (argumentRecords schema ++ schema.types.values.map Origin.type) := by
  cases order with
  | declaration => rw [origins_declaration labelled]
  | dependencies =>
    rw [List.perm_iff_count, Schema.origins]
    intro origin
    rw [List.count_append, ← pending_dependencyTasks]
    cases origin with
    | type t =>
      rw [List.count_map_of_injective _ _ fun _ _ => Origin.type.inj]
      by_cases ht : t ∈ schema.types.values
      · have visited : Task.visit t.label ∈ dependencyTasks schema :=
          List.mem_append_right _ (List.mem_map_of_mem ht)
        rw [count_perform_of_visited labelled ht List.not_mem_nil visited,
          (nodup_values labelled).count, if_pos ht]
      · have foreign : ∀ u ∈ schema.types.values, Origin.type t = .type u → u.label ∈ [] := by
          intro u hu e
          obtain rfl := Origin.type.inj e
          exact absurd hu ht
        rw [count_perform_of_marked _ foreign, List.count_eq_zero_of_not_mem ht, Nat.add_zero]
    | arguments kind r =>
      have foreign : Origin.arguments kind r ∉ schema.types.values.map Origin.type := by simp
      rw [count_perform_of_marked _ (by simp), List.count_eq_zero_of_not_mem foreign, Nat.add_zero]

theorem perm_declarations (order : Order) :
    (schema.declarations order).Perm
      ((schema.requestsWithArguments.map fun q => Declaration.ofArguments q.1 q.2) ++
        schema.types.values.map Declaration.ofType) := by
  have permuted := (perm_origins labelled order).map Origin.declaration
  rw [argumentRecords_eq, List.map_append, List.map_map, List.map_map] at permuted
  exact permuted

theorem filterMap_type?_origins (order : Order) :
    ((schema.origins order).filterMap Origin.type?).Perm schema.types.values := by
  have kept :
      (argumentRecords schema ++ schema.types.values.map Origin.type).filterMap Origin.type? =
        schema.types.values := by
    rw [argumentRecords_eq]
    simp [Origin.type?, Function.comp_def]
  exact kept ▸ (perm_origins labelled order).filterMap Origin.type?

end Origins

end Emission

/-! ## The text -/

/-- The first line is not empty. -/
def Opens (text : String) : Prop := ∃ c rest, text.toList = c :: rest ∧ c ≠ '\n'

/-- The last line is ended and not empty. -/
def Closes (text : String) : Prop := ∃ rest c, text.toList = rest ++ [c, '\n'] ∧ c ≠ '\n'

/-- Whole lines, neither the first nor the last of them empty. Of two such texts with a line end
between them, the second stands one blank line below the first. -/
def IsBlock (text : String) : Prop := Opens text ∧ Closes text

theorem Opens.append {opening : String} (h : Opens opening) (text : String) :
    Opens (opening ++ text) := by
  obtain ⟨c, rest, e, hc⟩ := h
  refine ⟨c, rest ++ text.toList, ?_, hc⟩
  rw [String.toList_append, e, List.cons_append]

theorem Closes.append (text : String) {closing : String} (h : Closes closing) :
    Closes (text ++ closing) := by
  obtain ⟨rest, c, e, hc⟩ := h
  refine ⟨text.toList ++ rest, c, ?_, hc⟩
  rw [String.toList_append, e, List.append_assoc]

theorem DeclarationKind.isBlock_wrap (kind : DeclarationKind) (label body : String) :
    IsBlock (kind.wrap label body) := by
  have opens : Opens ("export " ++ kind.keyword ++ " " ++ label) :=
    ((Opens.append ⟨'e', _, rfl, by decide⟩ _).append _).append _
  cases kind with
  | typeAlias =>
    have closes : Closes ";\n" := ⟨[], ';', rfl, by decide⟩
    exact ⟨((opens.append _).append _).append _, closes.append _⟩
  | interface | enum =>
    have closes : Closes "\x7d\n" := ⟨[], '\x7d', rfl, by decide⟩
    exact ⟨((opens.append _).append _).append _, closes.append _⟩

theorem isBlock_headerText (made : Option Moment) : IsBlock (headerText made) := by
  unfold headerText
  refine ⟨((Opens.append (Opens.append ?_ _) _).append _).append _, Closes.append _ ?_⟩
  · exact ⟨'/', _, rfl, by decide⟩
  · exact ⟨['*'], '/', rfl, by decide⟩

/-- What is written, part by part: the header if there is one, then the declarations. -/
def Schema.parts (schema : Schema) (options : Options) (now : Moment) : List String :=
  (options.headerText? now).toList ++
    (schema.origins options.order).map fun o => o.declaration.text options.indent

theorem Schema.text_typegen_parts (schema : Schema) (options : Options) (now : Moment) :
    (schema.typegen options now).text = "\n".intercalate (schema.parts options now) := by
  rw [typegen, declarations, List.map_map]
  rfl

theorem Schema.isBlock_parts (schema : Schema) (options : Options) (now : Moment) :
    ∀ part ∈ schema.parts options now, IsBlock part := by
  intro part h
  rcases List.mem_append.mp h with h | h
  · obtain ⟨-, rfl⟩ : options.header = true ∧
        headerText (if options.timestamp then some now else none) = part := by
      simpa [Options.headerText?] using h
    exact isBlock_headerText _
  · obtain ⟨o, -, rfl⟩ := List.mem_map.mp h
    exact o.declaration.kind.isBlock_wrap _ _

/-! ## Everything once -/

open Emission

/-- **Every type is written once and every request with arguments once, in both orders, and nothing
else.** The declarations of one order are those of the other in another order, the argument
interfaces keep the order of the requests, and the text is the header and the declarations, one
blank line apart. -/
theorem Schema.typegen_writes_once {schema : Schema} (labelled : Labelled schema.types)
    (options : Options) (now : Moment) :
    schema.types.values.Nodup ∧
    (∀ order, ((schema.origins order).filterMap Origin.type?).Perm schema.types.values ∧
      (schema.origins order).filterMap Origin.request? = schema.requestsWithArguments) ∧
    ((schema.origins .dependencies).map fun o => o.declaration.text options.indent).Perm
      ((schema.origins .declaration).map fun o => o.declaration.text options.indent) ∧
    (schema.typegen options now).text = "\n".intercalate (schema.parts options now) ∧
    (∀ part ∈ schema.parts options now, IsBlock part) ∧
    (schema.typegen options now).declarations =
      schema.types.size + schema.requestsWithArguments.length := by
  have permuted : (schema.origins .dependencies).Perm (schema.origins .declaration) :=
    (perm_origins labelled _).trans (perm_origins labelled _).symm
  have counted : (schema.origins options.order).length =
      schema.types.size + schema.requestsWithArguments.length := by
    rw [(perm_origins labelled options.order).length_eq, argumentRecords_eq, List.length_append,
      List.length_map, List.length_map, Nat.add_comm, Catalog.values, List.length_map, Catalog.size]
  refine ⟨nodup_values labelled, fun order => ⟨filterMap_type?_origins labelled order,
    filterMap_request?_origins schema order⟩, permuted.map _,
    schema.text_typegen_parts options now, schema.isBlock_parts options now, ?_⟩
  rw [← counted]
  exact List.length_map _

/-! ### A schema with a cycle -/

/-- An enum. -/
def sampleEnum : TypeDef := ⟨.enum, "E", .members ["X"]⟩

/-- A type that points at `sampleInput`, which points back, and at `sampleEnum`. -/
def sampleObject : TypeDef where
  kind := .object
  label := "B"
  body := .fields
    [⟨"a", ⟨.named .input "A", false, 0, false⟩⟩, ⟨"e", ⟨.named .enum "E", true, 0, false⟩⟩]

/-- A type that points at `sampleObject` and at nothing. -/
def sampleInput : TypeDef where
  kind := .input
  label := "A"
  body := .fields
    [⟨"b", ⟨.named .object "B", false, 1, false⟩⟩, ⟨"z", ⟨.named .object "Z", true, 0, false⟩⟩]

/-- A request with an argument. -/
def sampleRequest : Request :=
  ⟨"ask", [⟨"a", ⟨.named .input "A", false, 0, false⟩⟩], ⟨.named .enum "E", true, 0, false⟩⟩

/-- A schema with another request, without arguments, and a union that nothing points at. -/
def sampleSchema : Schema where
  roots :=
    { query := some ⟨.query, [⟨"tell", [], ⟨.named .enum "E", true, 0, false⟩⟩, sampleRequest]⟩ }
  types := .ofList
    [("U", ⟨.union, "U", .members ["B", "A"]⟩), ("A", sampleInput), ("B", sampleObject),
      ("E", sampleEnum)]

theorem Schema.typegen_sampleSchema :
    Labelled sampleSchema.types ∧
    (((sampleSchema.origins .dependencies).filterMap Origin.type?).map TypeDef.label).Perm
      ["U", "A", "B", "E"] ∧
    ((sampleSchema.origins .dependencies).filterMap Origin.request?).map (·.2.name) = ["ask"] ∧
    (sampleSchema.typegen {} ⟨2024, 2, 29, 9, 5, 0⟩).declarations = 5 := by
  have labelled : Labelled sampleSchema.types := by decide
  obtain ⟨-, once, -, -, -, counted⟩ :=
    Schema.typegen_writes_once labelled {} ⟨2024, 2, 29, 9, 5, 0⟩
  refine ⟨labelled, (once .dependencies).1.map _, ?_, counted⟩
  rw [(once .dependencies).2]
  rfl

end SchemaTypegen
