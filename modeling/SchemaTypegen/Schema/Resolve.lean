import SchemaTypegen.Definition.Reader
import SchemaTypegen.Schema.NameTable
import SchemaTypegen.Signature

/-!
# Resolving a document

From the flat entries of a document to a schema. First every label is put into the name table, then
the root operations are resolved, then the named types; a reference is looked up and never followed.
A field with arguments is read like a request, and its arguments are checked but not kept.
-/

namespace SchemaTypegen

open Text

namespace Resolve

/-- The type that a signature in a definition states. -/
def fieldType (table : NameTable) (d : Definition) (raw : String) (place : Place) :
    Except Error FieldType :=
  match Signature.ofText? raw with
  | none => .error (.malformed d.line (.invalidSignature raw d.label))
  | some s => do
    let base ← table.resolve s.label place
    return ⟨base, s.optional, s.depth, s.elementOptional⟩

/-- Splits `name(arguments):type` after the closing parenthesis, which stays on the left, and
`name:type` after the name. -/
def splitRequest? (entry : List Char) : Option (List Char × List Char) :=
  match cutAt '(' entry with
  | some (name, rest) =>
    if name.contains ':' then cutAt ':' entry
    else match cutAt ')' rest with
      | some (arguments, ':' :: returns) => some (name ++ '(' :: arguments ++ [')'], returns)
      | _ => none
  | none => cutAt ':' entry

/-- The parts of a request's head: its name, then its arguments. -/
def requestParts (head : List Char) : List String :=
  ((pieces (fun c => c == '(' || c == ',' || c == ')') head).filter (!·.isEmpty)).map String.ofList

/-- One argument of a request. -/
def argument (table : NameTable) (d : Definition) (name : String) (raw : String) :
    Except Error Field :=
  match cutAt ':' raw.toList with
  | none => .error (.malformed d.line (.untypedArgument raw name))
  | some (label, signature) => do
    let label := String.ofList label
    let type ← fieldType table d (String.ofList signature) (.argument label d.label name)
    return ⟨label, type⟩

/-- A request, or a field with arguments. -/
def request (table : NameTable) (d : Definition) (entry : String) : Except Error Request :=
  match splitRequest? entry.toList with
  | none => .error (.malformed d.line (.untypedRequest entry d.label))
  | some (head, returns) =>
    match requestParts head with
    | [] => .error (.malformed d.line (.namelessRequest entry d.label))
    | name :: rest => do
      let arguments ← rest.mapM (argument table d name)
      let returns ← fieldType table d (String.ofList returns) (.returnType d.label name)
      return ⟨name, arguments, returns⟩

/-- A field of a named type. -/
def field (table : NameTable) (d : Definition) (entry : String) : Except Error Field :=
  if entry.toList.contains '(' then do
    let r ← request table d entry
    return ⟨r.name, r.returns⟩
  else match cutAt ':' entry.toList with
    | none => .error (.malformed d.line (.untypedField entry d.label))
    | some (label, signature) => do
      let label := String.ofList label
      let type ← fieldType table d (String.ofList signature) (.field d.label label)
      return ⟨label, type⟩

/-- The first name that also occurs before it, or in `seen`. -/
def firstRepeated? (seen : List String) : List String → Option String
  | [] => none
  | name :: rest => if name ∈ seen then some name else firstRepeated? (name :: seen) rest

/-- Adds the root operation of a definition. A block without requests leaves no trace. -/
def addRoot (table : NameTable) (roots : Roots) (d : Definition) : Except Error Roots :=
  match d.rootKind? with
  | none => .ok roots
  | some kind =>
    match roots.get? kind with
    | some _ => .error (.duplicate d.label)
    | none => do
      let requests ← d.entries.mapM (request table d)
      match firstRepeated? [] (requests.map Request.name) with
      | some name => .error (.duplicate (d.label ++ "." ++ name))
      | none => return if requests.isEmpty then roots else roots.insert kind ⟨kind, requests⟩

/-- What a definition of the given kind holds. -/
def body (table : NameTable) (d : Definition) : Kind → Except Error Body
  | .enum => return .members d.entries
  | .union => do
    let _ ← d.entries.mapM fun member => table.resolve member (.union d.label)
    return .members d.entries
  | _ => return .fields (← d.entries.mapM (field table d))

/-- The named type of a definition. -/
def typeDef (table : NameTable) (d : Definition) : Except Error TypeDef :=
  match table.kind? d.label with
  | none => .error (.malformed d.line (.unregistered d.label))
  | some kind => return ⟨kind, d.label, ← body table d kind⟩

/-- Adds the named type of a definition. -/
def addType (table : NameTable) (types : Catalog String TypeDef) (d : Definition) :
    Except Error (Catalog String TypeDef) := do
  let t ← typeDef table d
  return types.insert t.label t

end Resolve

/-- The schema of a document. -/
def Schema.ofDocument (doc : Document) : Except Error Schema :=
  if doc.isEmpty then .error .noDefinitions
  else do
    let table ← NameTable.ofDefinitions doc.types
    let roots ← doc.roots.foldlM (Resolve.addRoot table) {}
    let types ← doc.types.foldlM (Resolve.addType table) Catalog.empty
    return ⟨roots, types⟩

/-- The schema of a source. -/
def Schema.ofSource (source : String) : Except Error Schema :=
  Document.ofSource source >>= Schema.ofDocument

end SchemaTypegen
