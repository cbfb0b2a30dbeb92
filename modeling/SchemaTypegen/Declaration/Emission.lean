import SchemaTypegen.Declaration
import SchemaTypegen.Options

/-!
# Which declarations, in which order

In declaration order the argument interfaces come first, then the named types as they are declared.
In dependency order a type comes after the types it points at, depth first, and an argument
interface after everything its request points at. A type is marked before what it points at is
visited, so cycles end.

The visits are kept as one list of tasks. Every visit of a type that is not marked marks one more,
and every other task is gone once it is done, so the list is worked off. What it gives is the list
of `Origin`s, from which the declarations are made one by one.
-/

namespace SchemaTypegen

/-- What a declaration is made of: a named type, or the arguments of a request. -/
inductive Origin where
  | type (t : TypeDef)
  | arguments (kind : RootKind) (r : Request)
  deriving DecidableEq, Repr

/-- The declaration that is made. -/
def Origin.declaration : Origin → Declaration
  | type t => .ofType t
  | arguments kind r => .ofArguments kind r

namespace Emission

/-- What remains to be done. -/
inductive Task where
  /-- Declare the type under a label, unless it is marked, after what it points at. -/
  | visit (label : String)
  | write (origin : Origin)
  deriving DecidableEq, Repr

/-- The number of types whose label is not marked. -/
def unmarked (types : List TypeDef) (marked : List String) : Nat :=
  types.countP fun t => t.label ∉ marked

theorem unmarked_cons_lt {types : List TypeDef} {marked : List String} {t : TypeDef}
    (mem : t ∈ types) (fresh : t.label ∉ marked) :
    unmarked types (t.label :: marked) < unmarked types marked := by
  unfold unmarked
  have fewer : ∀ l : List TypeDef, l.countP (fun u => u.label ∉ t.label :: marked) ≤
      l.countP fun u => u.label ∉ marked := fun l =>
    List.countP_mono_left fun u _ hu => by
      simp only [List.mem_cons, not_or, decide_eq_true_eq] at hu ⊢
      exact hu.2
  obtain ⟨before, after, rfl⟩ := List.append_of_mem mem
  have hb := fewer before
  have ha := fewer after
  have gone : decide (t.label ∉ t.label :: marked) = false := by simp
  have counted : decide (t.label ∉ marked) = true := by simpa using fresh
  simp only [List.countP_append, List.countP_cons, gone, counted, Bool.false_eq_true, if_true,
    if_false]
  omega

/-- What working off the tasks declares, when the labels in `marked` have been seen to. -/
def perform (types : Catalog String TypeDef) (marked : List String) (tasks : List Task) :
    List Origin :=
  match tasks with
  | [] => []
  | .write origin :: rest => origin :: perform types marked rest
  | .visit label :: rest =>
    match _ : types.get? label with
    | none => perform types marked rest
    | some t =>
      if t.label ∈ marked then perform types marked rest
      else
        perform types (t.label :: marked)
          (t.references.map Task.visit ++ Task.write (.type t) :: rest)
  termination_by (unmarked types.values marked, tasks.length)
  decreasing_by
    · exact Prod.Lex.right _ (Nat.lt_succ_self _)
    · exact Prod.Lex.right _ (Nat.lt_succ_self _)
    · exact Prod.Lex.right _ (Nat.lt_succ_self _)
    · exact Prod.Lex.left _ _ (unmarked_cons_lt (Catalog.mem_values_of_get? ‹_›) ‹_›)

/-- The argument interface of a request, if it has arguments. -/
def argumentRecord (kind : RootKind) (r : Request) : List Origin :=
  if r.arguments.isEmpty then [] else [.arguments kind r]

/-- The argument interfaces of a schema. -/
def argumentRecords (schema : Schema) : List Origin :=
  schema.requests.flatMap fun (kind, r) => argumentRecord kind r

/-- The first type of each label that is not marked. -/
def firstOfLabel (marked : List String) : List TypeDef → List TypeDef
  | [] => []
  | t :: rest =>
    if t.label ∈ marked then firstOfLabel marked rest
    else t :: firstOfLabel (t.label :: marked) rest

/-- The tasks of dependency order: each request's argument interface after what the request points
at, then every type. -/
def dependencyTasks (schema : Schema) : List Task :=
  (schema.requests.flatMap fun (kind, r) =>
      r.references.map Task.visit ++ (argumentRecord kind r).map Task.write) ++
    schema.types.values.map fun t => Task.visit t.label

end Emission

open Emission

/-- What a schema declares, in an order. -/
def Schema.origins (schema : Schema) : Order → List Origin
  | .declaration => argumentRecords schema ++ (firstOfLabel [] schema.types.values).map Origin.type
  | .dependencies => perform schema.types [] (dependencyTasks schema)

/-- The declarations of a schema, in an order. -/
def Schema.declarations (schema : Schema) (order : Order) : List Declaration :=
  (schema.origins order).map Origin.declaration

end SchemaTypegen
