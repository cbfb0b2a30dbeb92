import SchemaTypegen.Definition.Reader

/-!
# Abstract schemas and their normal form

A schema as a tree: declarations with their labels, fields with their arguments, and types nested in
lists to any depth. The tree says nothing about layout. `Item.definition` is its normal form, the
definition that every layout of the declaration is read as: one entry for each field, without white
space, with a single comma between two arguments and none anywhere else.

Names carry the proof that they are names, so no statement about trees repeats it.
-/

namespace SchemaTypegen.Grammar

open Text

/-! ## Names -/

/-- Whether a text is a name: a letter or an underscore, then letters, digits and underscores. -/
def isName (text : String) : Bool :=
  match text.toList with
  | [] => false
  | c :: rest => isNameStart c && rest.all isNameChar

/-- A name. -/
structure Name where
  text : String
  valid : isName text = true
  deriving DecidableEq

/-- The name with a given text. -/
def Name.of (text : String) (valid : isName text = true := by decide) : Name := ⟨text, valid⟩

/-- A name that is not a declaration keyword. -/
structure PlainName extends Name where
  plain : isDeclarationKeyword text = false
  deriving DecidableEq

theorem isName_iff {text : String} :
    isName text = true ↔
      ∃ c rest, text.toList = c :: rest ∧ isNameStart c = true ∧
        ∀ d ∈ rest, isNameChar d = true := by
  unfold isName
  cases text.toList with
  | nil => simp
  | cons c rest =>
    rw [Bool.and_eq_true, List.all_eq_true]
    constructor
    · rintro ⟨hc, hrest⟩
      exact ⟨c, rest, rfl, hc, hrest⟩
    · rintro ⟨d, others, e, hd, hothers⟩
      obtain ⟨rfl, rfl⟩ := List.cons.inj e
      exact ⟨hd, hothers⟩

theorem Name.toList_ne_nil (n : Name) : n.text.toList ≠ [] := by
  obtain ⟨c, rest, h, -⟩ := isName_iff.mp n.valid
  rw [h]
  exact List.cons_ne_nil c rest

theorem Name.isNameChar_of_mem (n : Name) {c : Char} (hc : c ∈ n.text.toList) :
    isNameChar c = true := by
  obtain ⟨d, rest, h, hd, hrest⟩ := isName_iff.mp n.valid
  rw [h] at hc
  rcases List.mem_cons.mp hc with rfl | hc
  · exact isNameChar_of_isNameStart hd
  · exact hrest c hc

theorem isName_append {first second : String} (h : isName first = true)
    (h' : isName second = true) : isName (first ++ second) = true := by
  obtain ⟨c, rest, text, start, others⟩ := isName_iff.mp h
  refine isName_iff.mpr ⟨c, rest ++ second.toList, ?_, start, fun d hd => ?_⟩
  · rw [String.toList_append, text, List.cons_append]
  · rcases List.mem_append.mp hd with hd | hd
    · exact others d hd
    · exact Name.isNameChar_of_mem ⟨second, h'⟩ hd

/-! ## Types, fields and declarations -/

/-- A type: a name or a list of a type, at each level with or without a `!`. -/
inductive TypeExpr where
  | named (name : Name) (required : Bool)
  | list (element : TypeExpr) (required : Bool)
  deriving DecidableEq

/-- The mark of a required type. -/
def bang (required : Bool) : String := if required then "!" else ""

namespace TypeExpr

/-- The text of a type: `[Post!]!`. -/
def text : TypeExpr → String
  | named name required => name.text ++ bang required
  | list element required => "[" ++ element.text ++ "]" ++ bang required

/-- The name inside all brackets. -/
def base : TypeExpr → Name
  | named name _ => name
  | list element _ => element.base

/-- The number of brackets around the name. -/
def depth : TypeExpr → Nat
  | named _ _ => 0
  | list element _ => element.depth + 1

/-- Whether the outermost level has a `!`. -/
def required : TypeExpr → Bool
  | named _ required => required
  | list _ required => required

end TypeExpr

/-- An argument of a field. -/
structure ArgumentDecl where
  name : Name
  type : TypeExpr
  deriving DecidableEq

/-- The text of an argument: `first:Int!`. -/
def ArgumentDecl.text (a : ArgumentDecl) : String := a.name.text ++ ":" ++ a.type.text

/-- A field, with the arguments in its parentheses if it has parentheses. -/
structure FieldDecl where
  name : Name
  arguments : Option (List ArgumentDecl)
  type : TypeExpr
  deriving DecidableEq

namespace FieldDecl

/-- The text of the parentheses and what is in them. -/
def argumentsText (f : FieldDecl) : String :=
  match f.arguments with
  | none => ""
  | some arguments => "(" ++ ",".intercalate (arguments.map ArgumentDecl.text) ++ ")"

/-- The text of a field: `posts(first:Int!,after:ID):[Post!]!`. -/
def text (f : FieldDecl) : String := f.name.text ++ f.argumentsText ++ ":" ++ f.type.text

end FieldDecl

/-- What a declaration declares its label to be. -/
inductive Shape where
  /-- A type, with the names after `implements` if there is such a clause. -/
  | type (interfaces : Option (List PlainName)) (fields : List FieldDecl)
  /-- An interface, with the names after `implements` if there is such a clause. -/
  | interface (interfaces : Option (List PlainName)) (fields : List FieldDecl)
  | input (fields : List FieldDecl)
  | enum (members : List Name)
  /-- A union has at least one member. -/
  | union (first : Name) (others : List Name)
  deriving DecidableEq

namespace Shape

/-- The keyword of a declaration. -/
def keyword : Shape → Keyword
  | type _ _ => .type
  | interface _ _ => .interface
  | input _ => .input
  | enum _ => .enum
  | union _ _ => .union

/-- The fields, where a declaration has a block of fields. -/
def fields? : Shape → Option (List FieldDecl)
  | type _ fields | interface _ fields | input fields => some fields
  | enum _ | union _ _ => none

/-- One entry for each field or member. -/
def entries : Shape → List String
  | type _ fields | interface _ fields | input fields => fields.map FieldDecl.text
  | enum members => members.map Name.text
  | union first others => (first :: others).map Name.text

end Shape

/-- A declaration as it stands in a source: its label and shape, how its keyword is spelled, and the
line of that keyword. -/
structure Item where
  label : Name
  shape : Shape
  spelling : String
  line : Nat
  spelled : Keyword.ofName? spelling = some shape.keyword
  deriving DecidableEq

namespace Item

/-- The definition a declaration is read as. -/
def definition (i : Item) : Definition where
  keyword := i.spelling
  label := i.label.text
  entries := i.shape.entries
  line := i.line

/-- The root operation a declaration is for, if its label names one. -/
def rootKind? (i : Item) : Option RootKind := RootKind.ofLabel? i.label.text

end Item

/-- The normal form of a schema: root operations apart from named types, each in source order. -/
def document (items : List Item) : Document where
  roots := (items.filter fun i => i.rootKind?.isSome).map Item.definition
  types := (items.filter fun i => i.rootKind?.isNone).map Item.definition

theorem ofDefinitions_map_definition (items : List Item) :
    Document.ofDefinitions (items.map Item.definition) = document items := by
  unfold Document.ofDefinitions document
  rw [List.filter_map, List.filter_map]
  rfl

end SchemaTypegen.Grammar
