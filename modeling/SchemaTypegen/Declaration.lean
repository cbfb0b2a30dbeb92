import SchemaTypegen.Schema
import SchemaTypegen.Text.CaseMap
import SchemaTypegen.Text.Chars

/-!
# TypeScript declarations

A declaration is an exported interface, enum or type alias. Every named type of a schema becomes
one, and every request with arguments becomes the interface of its arguments. This module gives
their text.
-/

namespace SchemaTypegen

open Text

/-- The forms of a declaration. -/
inductive DeclarationKind where
  | interface
  | enum
  | typeAlias
  deriving DecidableEq, Repr

namespace DeclarationKind

/-- The form in which a type of a kind is declared. -/
def ofKind : Kind → DeclarationKind
  | .enum => enum
  | .union => typeAlias
  | .scalar | .input | .interface | .object => interface

/-- The keyword of a form. -/
def keyword : DeclarationKind → String
  | interface => "interface"
  | enum => "enum"
  | typeAlias => "type"

/-- A declaration around the text of its body. -/
def wrap (kind : DeclarationKind) (label body : String) : String :=
  match kind with
  | typeAlias => "export " ++ kind.keyword ++ " " ++ label ++ " = " ++ body ++ ";\n"
  | interface | enum => "export " ++ kind.keyword ++ " " ++ label ++ " \x7b\n" ++ body ++ "\x7d\n"

end DeclarationKind

/-- The built-in type that stands for a scalar. -/
def Scalar.typeText : Scalar → String
  | .int | .float => "number"
  | .string | .id => "string"
  | .boolean => "boolean"

/-- The name of a type without its list brackets. -/
def FieldType.baseText (t : FieldType) : String :=
  match t.base with
  | .scalar scalar => scalar.typeText
  | .named _ label => label

/-- The text of a type: its name, then a pair of brackets for each list. -/
def FieldType.text (t : FieldType) : String :=
  t.baseText ++ String.join (List.replicate t.depth "[]")

/-- The line of a field. -/
def Field.line (indent : String) (f : Field) : String :=
  indent ++ f.label ++ (if f.type.optional then "?" else "") ++ ": " ++ f.type.text ++ ";\n"

/-- The lines of fields. -/
def fieldLines (indent : String) (fields : List Field) : String :=
  String.join (fields.map (Field.line indent))

/-- The lines of enum values, each with its own name as value. -/
def enumLines (indent : String) (members : List String) : String :=
  String.join (members.map fun member => indent ++ member ++ " = '" ++ member ++ "',\n")

/-- The members of a union with bars between them. Every member is written with a bar after it, and
what is left of the last bar is taken off the end again. -/
def unionText (members : List String) : String :=
  if members.isEmpty then "never"
  else
    let joined := members.flatMap fun member => member.toList ++ [' ', '|', ' ']
    String.ofList (trimEnd (dropEndWhile (· == '|') (trimEnd joined)))

/-- A declaration. -/
structure Declaration where
  kind : DeclarationKind
  label : String
  body : Body
  deriving DecidableEq, Repr

namespace Declaration

/-- The declaration of a named type. -/
def ofType (t : TypeDef) : Declaration := ⟨.ofKind t.kind, t.label, t.body⟩

/-- The name of the interface of a request's arguments. -/
def argumentLabel (kind : RootKind) (r : Request) : String := camelJoin [r.name, kind.word, "ARGS"]

/-- The interface of a request's arguments. -/
def ofArguments (kind : RootKind) (r : Request) : Declaration :=
  ⟨.interface, argumentLabel kind r, .fields r.arguments⟩

/-- The text between the name of a declaration and its end. -/
def bodyText (indent : String) (d : Declaration) : String :=
  match d.body, d.kind with
  | .members members, .typeAlias => unionText members
  | .members members, _ => enumLines indent members
  | .fields fields, _ => fieldLines indent fields

/-- The text of a declaration. -/
def text (indent : String) (d : Declaration) : String := d.kind.wrap d.label (d.bodyText indent)

end Declaration

end SchemaTypegen
