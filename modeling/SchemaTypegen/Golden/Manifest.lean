import SchemaTypegen.Json.Reader
import SchemaTypegen.Options

/-!
# Manifests of golden cases

A golden case names a schema and either the declarations expected of it or the kind of error. The
cases are listed in a JSON manifest. A record may be given as an object, with no member unknown or
repeated, or as an array of its fields in order, where fields with a default may be left out at the
end.
-/

namespace SchemaTypegen.Golden

/-- A golden case. -/
structure Case where
  name : String
  /-- The path of the schema, from the directory of the cases. -/
  schema : String
  /-- The path of the file with the expected declarations. -/
  expected : Option String
  /-- The expected kind of error. -/
  error : Option String
  order : Order
  deriving DecidableEq, Repr

/-- The fields of a record by name, from its object or its array. -/
def record? (names : List String) : Json → Option (List (String × Json))
  | .object members =>
    let keys := members.map Prod.fst
    if keys.all (names.contains ·) ∧ keys.Nodup then some members else none
  | .array items => if items.length ≤ names.length then some (names.zip items) else none
  | _ => none

/-- The value of a field that has to be there. -/
def required? (fields : List (String × Json)) (name : String) : Option Json :=
  (fields.find? (·.1 == name)).map Prod.snd

/-- A text. -/
def text? : Json → Option String
  | .string value => some value
  | _ => none

/-- A text that may be null, or left out. -/
def optionalText? (fields : List (String × Json)) (name : String) : Option (Option String) :=
  match required? fields name with
  | none | some .null => some none
  | some value => (text? value).map some

/-- An order, by its word or as an object with the word as its only key, which may be left out. -/
def order? (fields : List (String × Json)) : Option Order :=
  match required? fields "order" with
  | none => some .declaration
  | some (.string word) => Order.ofWord? word
  | some (.object [(word, .null)]) => Order.ofWord? word
  | some _ => none

/-- A case of a manifest. -/
def case? (value : Json) : Option Case := do
  let fields ← record? ["name", "schema", "expected", "error", "order"] value
  return {
    name := ← required? fields "name" >>= text?
    schema := ← required? fields "schema" >>= text?
    expected := ← optionalText? fields "expected"
    error := ← optionalText? fields "error"
    order := ← order? fields }

/-- The cases of a manifest. -/
def manifest? (text : String) : Option (List Case) := do
  let fields ← record? ["cases"] (← Json.ofText? text)
  match ← required? fields "cases" with
  | .array items => items.mapM case?
  | _ => none

end SchemaTypegen.Golden
