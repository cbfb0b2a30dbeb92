import SchemaTypegen.Kinds

/-!
# Definitions

A definition is one declaration of a schema in flat form: its keyword, its label and its entries.
An entry is a field signature without white space, such as `posts(first:Int):[Post!]!`, or the name
of a member. A document is what a schema declares, its root operations apart from its named types.
-/

namespace SchemaTypegen

/-- One declaration, with the line of its keyword. The keyword keeps the letter case it had. -/
structure Definition where
  keyword : String
  label : String
  entries : List String
  line : Nat
  deriving DecidableEq, Repr

namespace Definition

/-- What stands between the parts of a definition in its flat text. -/
def delimiter : String := "::"

/-- Keyword, label and entries. -/
def parts (d : Definition) : List String := d.keyword :: d.label :: d.entries

/-- The flat text of a definition. -/
def flat (d : Definition) : String := delimiter.intercalate d.parts

/-- The root operation a definition declares, if it does. -/
def rootKind? (d : Definition) : Option RootKind := RootKind.ofLabel? d.label

end Definition

/-- The definitions of a schema: its root operations and its named types, each in source order. -/
structure Document where
  roots : List Definition
  types : List Definition
  deriving DecidableEq, Repr

namespace Document

/-- Sorts definitions by what their label declares. -/
def ofDefinitions (definitions : List Definition) : Document where
  roots := definitions.filter fun d => d.rootKind?.isSome
  types := definitions.filter fun d => d.rootKind?.isNone

/-- Whether nothing is declared. -/
def isEmpty (doc : Document) : Bool := doc.roots.isEmpty && doc.types.isEmpty

end Document

end SchemaTypegen
