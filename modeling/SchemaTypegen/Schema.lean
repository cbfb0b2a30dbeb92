import SchemaTypegen.Catalog
import SchemaTypegen.Kinds

/-!
# Schemas

A schema with all its names resolved: the requests of each root operation, and the named types with
their fields or members in the order they were declared. `references` says which named types a
request or a type points at.
-/

namespace SchemaTypegen

/-- What a type is made of once its brackets are off: a built-in scalar or a named type. -/
inductive Base where
  | scalar (scalar : Scalar)
  | named (kind : Kind) (label : String)
  deriving DecidableEq, Repr

/-- The type of a field, an argument or a result. -/
structure FieldType where
  base : Base
  optional : Bool
  /-- The number of list brackets. -/
  depth : Nat
  /-- Whether the elements of the outermost list may be absent. -/
  elementOptional : Bool
  deriving DecidableEq, Repr

namespace FieldType

/-- The kind of a type. -/
def kind (t : FieldType) : Kind :=
  match t.base with
  | .scalar _ => .scalar
  | .named kind _ => kind

/-- The name of the scalar a type is made of. -/
def scalarLabel? (t : FieldType) : Option String :=
  match t.base with
  | .scalar scalar => some scalar.label
  | .named _ _ => none

/-- The label of the named type a type is made of. -/
def reference? (t : FieldType) : Option String :=
  match t.base with
  | .scalar _ => none
  | .named _ label => some label

/-- Whether a type is a list. -/
def isList (t : FieldType) : Bool := t.depth != 0

end FieldType

/-- A field of a type, or an argument of a request. -/
structure Field where
  label : String
  type : FieldType
  deriving DecidableEq, Repr

/-- A request of a root operation. -/
structure Request where
  name : String
  arguments : List Field
  returns : FieldType
  deriving DecidableEq, Repr

/-- The named types a request points at: those of its arguments, then that of its result. -/
def Request.references (r : Request) : List String :=
  (r.arguments.map Field.type ++ [r.returns]).filterMap FieldType.reference?

/-- A root operation and its requests, in order. -/
structure RootOperation where
  kind : RootKind
  requests : List Request
  deriving DecidableEq, Repr

/-- What a named type holds. -/
inductive Body where
  /-- The fields of an object, an interface or an input. -/
  | fields (fields : List Field)
  /-- The values of an enum, or the members of a union. -/
  | members (members : List String)
  deriving DecidableEq, Repr

/-- A named type. -/
structure TypeDef where
  kind : Kind
  label : String
  body : Body
  deriving DecidableEq, Repr

/-- The named types a type points at. The values of an enum are not types. -/
def TypeDef.references (t : TypeDef) : List String :=
  match t.body, t.kind with
  | .fields fields, _ => fields.filterMap (·.type.reference?)
  | .members members, .union => members
  | .members _, _ => []

/-- At most one operation for each kind of root. -/
structure Roots where
  query : Option RootOperation := none
  mutation : Option RootOperation := none
  subscription : Option RootOperation := none
  deriving DecidableEq, Repr

namespace Roots

/-- The operation stored for a root. -/
def get? (roots : Roots) : RootKind → Option RootOperation
  | .query => roots.query
  | .mutation => roots.mutation
  | .subscription => roots.subscription

/-- Stores an operation for a root. -/
def insert (roots : Roots) (key : RootKind) (operation : RootOperation) : Roots :=
  match key with
  | .query => { roots with query := some operation }
  | .mutation => { roots with mutation := some operation }
  | .subscription => { roots with subscription := some operation }

/-- The operations with the root they are stored for, in the order of the roots. -/
def entries (roots : Roots) : List (RootKind × RootOperation) :=
  RootKind.all.filterMap fun key => (roots.get? key).map (key, ·)

/-- The operations, in the order of the roots. -/
def operations (roots : Roots) : List RootOperation := roots.entries.map Prod.snd

end Roots

/-- A resolved schema. -/
structure Schema where
  roots : Roots
  /-- The named types, by label, in the order they were declared. -/
  types : Catalog String TypeDef
  deriving DecidableEq, Repr

/-- Every request with the root operation it belongs to, in the order of the roots. -/
def Schema.requests (schema : Schema) : List (RootKind × Request) :=
  schema.roots.operations.flatMap fun operation => operation.requests.map (operation.kind, ·)

end SchemaTypegen
