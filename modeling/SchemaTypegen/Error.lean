import SchemaTypegen.Files.Failure

/-!
# Errors

Everything that can be wrong with a schema or with the files around it, as causes. The wording is
in `Fault.message`, `Place.text` and `Error.message` and nowhere else.
-/

namespace SchemaTypegen

open Files

/-- What is wrong with the text of a definition. -/
inductive Fault where
  /-- A character that begins no lexeme. -/
  | strayCharacter (c : Char)
  /-- A declaration keyword that is followed by a mark. -/
  | labelExpected (keyword : String)
  /-- The text ends after a declaration keyword. -/
  | labelMissing (keyword : String)
  /-- A union's label that is not followed by `=`. -/
  | equalsExpected (label : String)
  /-- A label, or a list of interfaces, that is not followed by a block. -/
  | blockExpected (label : String)
  | unexpectedInEnum (mark : Char) (label : String)
  | unexpectedInUnion (mark : Char) (label : String)
  /-- Two bars with nothing between them. -/
  | emptyMember (label : String)
  /-- A bar or `=` that no member follows. -/
  | memberExpected (label : String)
  /-- Two members with no bar between them. -/
  | barExpected (member label : String)
  /-- A lexeme that cannot stand where it does in a block of fields. -/
  | unexpectedInBlock (lexeme label : String)
  | untypedField (field label : String)
  /-- The text ends inside a definition. -/
  | unterminated (label : String)
  | unknownKeyword (keyword : String)
  | unregistered (label : String)
  | untypedRequest (entry label : String)
  | namelessRequest (entry label : String)
  | untypedArgument (argument request : String)
  | invalidSignature (signature label : String)
  deriving DecidableEq, Repr

/-- The wording of a fault. -/
def Fault.message : Fault → String
  | .strayCharacter c => "unexpected character `" ++ c.toString ++ "`"
  | .labelExpected keyword => "expected a name after `" ++ keyword ++ "`"
  | .labelMissing keyword => "`" ++ keyword ++ "` is missing its name"
  | .equalsExpected label => "expected `=` after union `" ++ label ++ "`"
  | .blockExpected label => "expected `\x7b` to open `" ++ label ++ "`"
  | .unexpectedInEnum mark label =>
    "unexpected `" ++ mark.toString ++ "` in enum `" ++ label ++ "`"
  | .unexpectedInUnion mark label =>
    "unexpected `" ++ mark.toString ++ "` in union `" ++ label ++ "`"
  | .emptyMember label => "empty member in union `" ++ label ++ "`"
  | .memberExpected label => "union `" ++ label ++ "` is missing a member"
  | .barExpected member label =>
    "expected `|` before `" ++ member ++ "` in union `" ++ label ++ "`"
  | .unexpectedInBlock lexeme label => "unexpected `" ++ lexeme ++ "` in `" ++ label ++ "`"
  | .untypedField field label => "field `" ++ field ++ "` in `" ++ label ++ "` has no type"
  | .unterminated label => "definition `" ++ label ++ "` is not terminated"
  | .unknownKeyword keyword => "unknown declaration keyword `" ++ keyword ++ "`"
  | .unregistered label => "`" ++ label ++ "` was not registered"
  | .untypedRequest entry label => "`" ++ entry ++ "` in `" ++ label ++ "` has no return type"
  | .namelessRequest entry label => "`" ++ entry ++ "` in `" ++ label ++ "` has no name"
  | .untypedArgument argument request =>
    "argument `" ++ argument ++ "` of `" ++ request ++ "` has no type"
  | .invalidSignature signature label =>
    "invalid type signature `" ++ signature ++ "` in `" ++ label ++ "`"

/-- Where a type is referred to. -/
inductive Place where
  | argument (label owner request : String)
  | returnType (owner request : String)
  | field (owner label : String)
  | union (label : String)
  /-- A place in the words of whoever asks. -/
  | words (phrase : String)
  deriving DecidableEq, Repr

/-- The wording of a place. -/
def Place.text : Place → String
  | .argument label owner request =>
    "argument `" ++ label ++ "` of `" ++ owner ++ "." ++ request ++ "`"
  | .returnType owner request => "return type of `" ++ owner ++ "." ++ request ++ "`"
  | .field owner label => "field `" ++ owner ++ "." ++ label ++ "`"
  | .union label => "union `" ++ label ++ "`"
  | .words phrase => phrase

/-- Why a schema could not be turned into declarations. -/
inductive Error where
  /-- The schema's path does not end in `.graphql`. -/
  | schemaFormat (path : String)
  | schemaRead (path : String) (cause : Failure)
  | noDefinitions
  /-- A name that is neither a built-in scalar nor declared. -/
  | unresolved (label : String) (place : Place)
  /-- The output's path does not end in `.ts`. -/
  | outputFormat (path : String)
  | outputWrite (path : String) (failure : WriteFailure)
  | malformed (line : Nat) (fault : Fault)
  | duplicate (label : String)
  deriving DecidableEq, Repr

namespace Error

/-- The name of the kind of an error, whatever it carries. -/
def kind : Error → String
  | schemaFormat _ => "SchemaFormat"
  | schemaRead _ _ => "SchemaRead"
  | noDefinitions => "NoDefinitionsFound"
  | unresolved _ _ => "UnresolvedType"
  | outputFormat _ => "OutputFormat"
  | outputWrite _ _ => "OutputWrite"
  | malformed _ _ => "MalformedDefinition"
  | duplicate _ => "DuplicateDefinition"

/-- What went wrong, without the system's reason. -/
def summary : Error → String
  | schemaFormat path => "Schema file must be a graphql file: " ++ path
  | schemaRead path _ => "Failed to read the input schema file " ++ path
  | noDefinitions => "No type definitions found in the schema file!"
  | unresolved label place => "Unresolved type `" ++ label ++ "` referenced by " ++ place.text
  | outputFormat path => "Output file must be a TypeScript (.ts) file: " ++ path
  | outputWrite path _ => "Failed to write the output file " ++ path
  | malformed line fault =>
    "Malformed definition at line " ++ toString line ++ ": " ++ fault.message
  | duplicate label => "`" ++ label ++ "` is defined more than once"

/-- The system's reason, for the errors that have one. -/
def cause? : Error → Option Failure
  | schemaRead _ cause => some cause
  | outputWrite _ failure => some failure.cause
  | _ => none

/-- The full text of an error: what went wrong and, where there is one, the system's reason. -/
def message (e : Error) : String :=
  match e.cause? with
  | some cause => e.summary ++ ": " ++ cause.text
  | none => e.summary

/-- The text of an error with its chain of causes. The reason of a failed read, or of a failed
replacement, is named a second time as the cause. -/
def report (e : Error) : String :=
  match e with
  | schemaRead _ cause => e.message ++ ": " ++ cause.text
  | outputWrite _ ⟨.replace, cause⟩ => e.message ++ ": " ++ cause.text
  | _ => e.message

end Error

end SchemaTypegen
