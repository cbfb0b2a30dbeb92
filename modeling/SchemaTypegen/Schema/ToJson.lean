import SchemaTypegen.Json
import SchemaTypegen.Schema

/-!
# Schemas as JSON

The JSON form of a schema: root operations under the word for their root, named types under their
label, and everything else in the order the schema has it.
-/

namespace SchemaTypegen

/-- A scalar by its name, a named type by its kind and label. -/
def Base.toJson : Base → Json
  | scalar s => .object [("scalar", .string s.label)]
  | named kind label =>
    .object [("non_scalar", .object [("kind", .string kind.word), ("label", .string label)])]

/-- A type with what its brackets and marks say. -/
def FieldType.toJson (t : FieldType) : Json :=
  .object [("named", t.base.toJson), ("is_optional", .bool t.optional),
    ("list_depth", .number t.depth), ("is_list_value_optional", .bool t.elementOptional)]

/-- A field or an argument. -/
def Field.toJson (f : Field) : Json :=
  .object [("label", .string f.label), ("field_type", f.type.toJson)]

/-- A request with its arguments and its result. -/
def Request.toJson (r : Request) : Json :=
  .object [("name", .string r.name), ("arguments", .array (r.arguments.map Field.toJson)),
    ("returns", r.returns.toJson)]

/-- A root operation with its requests. -/
def RootOperation.toJson (o : RootOperation) : Json :=
  .object [("kind", .string o.kind.word), ("requests", .array (o.requests.map Request.toJson))]

/-- Fields or members, under a key that says which. -/
def Body.toJson : Body → Json
  | .fields items => .object [("fields", .array (items.map Field.toJson))]
  | .members labels => .object [("members", .array (labels.map Json.string))]

/-- A named type. -/
def TypeDef.toJson (t : TypeDef) : Json :=
  .object [("kind", .string t.kind.word), ("label", .string t.label), ("body", t.body.toJson)]

/-- The JSON form of a schema. -/
def Schema.toJson (schema : Schema) : Json :=
  .object [
    ("root_operations",
      .object (schema.roots.entries.map fun (key, operation) => (key.word, operation.toJson))),
    ("non_scalar_types",
      .object (schema.types.entries.map fun (key, type) => (key, type.toJson)))]

end SchemaTypegen
