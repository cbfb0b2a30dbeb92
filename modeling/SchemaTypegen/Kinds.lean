import SchemaTypegen.Text.Chars

/-!
# Kinds

The closed vocabularies of the schema language: declaration keywords, root operations, kinds of
named types and built-in scalars, each with the words that stand for its members.
-/

namespace SchemaTypegen

open Text

/-- The kinds of root operations, in the order their requests are written. -/
inductive RootKind where
  | query
  | mutation
  | subscription
  deriving DecidableEq, Repr

namespace RootKind

/-- All root operations, in order. -/
def all : List RootKind := [query, mutation, subscription]

/-- The word for a root operation. -/
def word : RootKind → String
  | query => "QUERY"
  | mutation => "MUTATION"
  | subscription => "SUBSCRIPTION"

/-- The root operation a label declares, in any case: `Query` as well as `query`. -/
def ofLabel? (label : String) : Option RootKind := all.find? fun kind => sameLetters kind.word label

end RootKind

/-- What a named type is. -/
inductive Kind where
  | scalar
  | enum
  | input
  | interface
  | object
  | union
  deriving DecidableEq, Repr

namespace Kind

/-- All kinds. -/
def all : List Kind := [scalar, enum, input, interface, object, union]

/-- The word for a kind. -/
def word : Kind → String
  | scalar => "SCALAR"
  | enum => "ENUM"
  | input => "INPUT"
  | interface => "INTERFACE"
  | object => "OBJECT"
  | union => "UNION"

end Kind

/-- The keywords that begin a declaration. -/
inductive Keyword where
  | type
  | input
  | enum
  | interface
  | union
  deriving DecidableEq, Repr

namespace Keyword

/-- All declaration keywords. -/
def all : List Keyword := [type, input, enum, interface, union]

/-- A keyword as it is usually written. -/
def word : Keyword → String
  | type => "type"
  | input => "input"
  | enum => "enum"
  | interface => "interface"
  | union => "union"

/-- The keyword a name spells, in any case. -/
def ofName? (name : String) : Option Keyword :=
  all.find? fun keyword => sameLetters keyword.word name

/-- The kind of type a keyword declares. -/
def kind : Keyword → Kind
  | type => .object
  | input => .input
  | enum => .enum
  | interface => .interface
  | union => .union

end Keyword

/-- The built-in scalars. Every other name has to be declared. -/
inductive Scalar where
  | int
  | float
  | string
  | id
  | boolean
  deriving DecidableEq, Repr

namespace Scalar

/-- All built-in scalars. -/
def all : List Scalar := [int, float, string, id, boolean]

/-- The name of a scalar in a schema. -/
def label : Scalar → String
  | int => "Int"
  | float => "Float"
  | string => "String"
  | id => "ID"
  | boolean => "Boolean"

/-- The scalar a label names, letter for letter. -/
def ofLabel? (label : String) : Option Scalar := all.find? (·.label == label)

end Scalar

end SchemaTypegen
