import SchemaTypegen.Definition
import SchemaTypegen.Error
import SchemaTypegen.Schema

/-!
# Name tables

The names a schema may refer to, with their kinds: the built-in scalars and the labels of its named
types. A table is made of all definitions before any reference is looked up, so neither the order
of declarations nor cycles between types matter.
-/

namespace SchemaTypegen

/-- The kind of every name that may be referred to. -/
structure NameTable where
  kinds : Catalog String Kind
  deriving DecidableEq, Repr

namespace NameTable

/-- The table of the built-in scalars. -/
def builtin : NameTable := ⟨Catalog.ofList (Scalar.all.map fun s => (s.label, Kind.scalar))⟩

/-- The kind of a name. -/
def kind? (table : NameTable) (label : String) : Option Kind := table.kinds.get? label

/-- The number of names. -/
def size (table : NameTable) : Nat := table.kinds.size

/-- Adds the label of a definition, which must not be in the table. -/
def add (table : NameTable) (d : Definition) : Except Error NameTable :=
  match Keyword.ofName? d.keyword with
  | none => .error (.malformed d.line (.unknownKeyword d.keyword))
  | some keyword =>
    match table.kind? d.label with
    | some _ => .error (.duplicate d.label)
    | none => .ok ⟨table.kinds.insert d.label keyword.kind⟩

/-- The table of the built-in scalars and the labels of all definitions. -/
def ofDefinitions (definitions : List Definition) : Except Error NameTable :=
  definitions.foldlM add builtin

/-- What a name stands for. The place only matters for the error. -/
def resolve (table : NameTable) (label : String) (place : Place) : Except Error Base :=
  match table.kind? label with
  | some .scalar =>
    match Scalar.ofLabel? label with
    | some scalar => .ok (.scalar scalar)
    | none => .error (.unresolved label place)
  | some kind => .ok (.named kind label)
  | none => .error (.unresolved label place)

end NameTable

end SchemaTypegen
