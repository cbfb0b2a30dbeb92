import SchemaTypegen.Proofs.Grammar
import SchemaTypegen.Schema.Resolve

/-!
# The schema an abstract schema stands for

`roots` and `typeEntries` say what the tree means, declaration by declaration: a root block with
requests is a root operation, any other declaration a named type, and each type has the name inside
its brackets, resolved, together with its depth and whether it and the elements of its outermost
list may be absent. The arguments of a field of a named type are not kept, but `references` lists
them like every other name that has to be declared.

`references` is in the order in which names are looked up, and each name stands there with its
place.
-/

namespace SchemaTypegen.Grammar

/-! ## Names -/

/-- The declarations of root operations. -/
def rooted (items : List Item) : List Item := items.filter fun i => i.rootKind?.isSome

/-- The declarations of named types. -/
def named (items : List Item) : List Item := items.filter fun i => i.rootKind?.isNone

/-- The kind a label is declared with. -/
def kindOf? (items : List Item) (label : String) : Option Kind :=
  ((named items).find? fun i => i.label.text == label).map fun i => i.shape.keyword.kind

/-- A built-in scalar, or the label of a named type. -/
def Declared (items : List Item) (label : String) : Prop :=
  (Scalar.ofLabel? label).isSome ∨ ∃ i ∈ named items, i.label.text = label

instance (items : List Item) (label : String) : Decidable (Declared items label) :=
  inferInstanceAs (Decidable (_ ∨ _))

/-- What a declared name stands for. -/
def baseOf (items : List Item) (label : String) : Base :=
  match Scalar.ofLabel? label with
  | some scalar => .scalar scalar
  | none => .named ((kindOf? items label).getD .scalar) label

/-! ## Types and fields -/

/-- Whether the elements of the outermost list may be absent; false when there is no list. -/
def TypeExpr.elementOptional : TypeExpr → Bool
  | named _ _ => false
  | list element _ => !element.required

/-- The type a type expression stands for. -/
def TypeExpr.fieldType (items : List Item) (t : TypeExpr) : FieldType :=
  ⟨baseOf items t.base.text, !t.required, t.depth, t.elementOptional⟩

/-- The argument of a request. -/
def ArgumentDecl.field (items : List Item) (a : ArgumentDecl) : Field :=
  ⟨a.name.text, a.type.fieldType items⟩

/-- A field of a root block: a request. -/
def FieldDecl.request (items : List Item) (f : FieldDecl) : Request :=
  ⟨f.name.text, (f.arguments.getD []).map (ArgumentDecl.field items), f.type.fieldType items⟩

/-- A field of a named type, without its arguments. -/
def FieldDecl.field (items : List Item) (f : FieldDecl) : Field :=
  ⟨f.name.text, f.type.fieldType items⟩

/-! ## Declarations -/

/-- The requests of a root block, in order. -/
def Item.requests (items : List Item) (i : Item) : List Request :=
  (i.shape.fields?.getD []).map (FieldDecl.request items)

/-- The operation of a root: that of its block, unless there is none or it is empty. -/
def rootOperation? (items : List Item) (kind : RootKind) : Option RootOperation :=
  match ((rooted items).find? fun i => i.rootKind? == some kind).map (Item.requests items) with
  | none | some [] => none
  | some (r :: requests) => some ⟨kind, r :: requests⟩

/-- The root operations of a schema. -/
def roots (items : List Item) : Roots where
  query := rootOperation? items .query
  mutation := rootOperation? items .mutation
  subscription := rootOperation? items .subscription

/-- What a named type holds: its fields, or its members. -/
def Item.body (items : List Item) (i : Item) : Body :=
  match i.shape.fields? with
  | some fields => .fields (fields.map (FieldDecl.field items))
  | none => .members i.shape.entries

/-- The named type of a declaration. -/
def Item.typeDef (items : List Item) (i : Item) : TypeDef :=
  ⟨i.shape.keyword.kind, i.label.text, i.body items⟩

/-- The named types of a schema under their labels, in order. -/
def typeEntries (items : List Item) : List (String × TypeDef) :=
  (named items).map fun i => (i.label.text, i.typeDef items)

/-! ## References -/

/-- The names a request refers to: its arguments' types, then its own. -/
def FieldDecl.requestReferences (owner : String) (f : FieldDecl) : List (String × Place) :=
  (f.arguments.getD []).map
      (fun a => (a.type.base.text, .argument a.name.text owner f.name.text)) ++
    [(f.type.base.text, .returnType owner f.name.text)]

/-- The names a field of a named type refers to. With parentheses it is read like a request. -/
def FieldDecl.fieldReferences (owner : String) (f : FieldDecl) : List (String × Place) :=
  if f.arguments.isSome then f.requestReferences owner
  else [(f.type.base.text, .field owner f.name.text)]

/-- The names a root block refers to. -/
def Item.rootReferences (i : Item) : List (String × Place) :=
  (i.shape.fields?.getD []).flatMap (FieldDecl.requestReferences i.label.text)

/-- The names a named type refers to. The values of an enum are not types. -/
def Item.typeReferences (i : Item) : List (String × Place) :=
  match i.shape with
  | .type _ fields | .interface _ fields | .input fields =>
    fields.flatMap (FieldDecl.fieldReferences i.label.text)
  | .enum _ => []
  | .union first others => (first :: others).map fun n => (n.text, .union i.label.text)

/-- All names a schema refers to, root operations first. -/
def references (items : List Item) : List (String × Place) :=
  (rooted items).flatMap Item.rootReferences ++ (named items).flatMap Item.typeReferences

/-- What a schema has to keep to beyond its names being declared. -/
structure WellFormed (items : List Item) : Prop where
  /-- There is a declaration. -/
  nonempty : items ≠ []
  /-- No two named types have one label. -/
  labels : ((named items).map fun i => i.label.text).Nodup
  /-- No named type has the name of a built-in scalar. -/
  scalars : ∀ i ∈ named items, Scalar.ofLabel? i.label.text = none
  /-- No root is declared twice. -/
  rootKinds : ((rooted items).map Item.rootKind?).Nodup
  /-- A root is declared with a block of fields. -/
  rootFields : ∀ i ∈ rooted items, i.shape.fields?.isSome
  /-- No two requests of a root have one name. -/
  requests : ∀ i ∈ rooted items, ((i.shape.fields?.getD []).map fun f => f.name.text).Nodup

end SchemaTypegen.Grammar
