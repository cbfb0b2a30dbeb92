import SchemaTypegen.Declaration.Emission
import SchemaTypegen.Header
import SchemaTypegen.Schema.Resolve

/-!
# From a schema to its declarations

The whole way from the text of a schema to the text of its TypeScript declarations. The header and
the declarations stand one blank line apart.
-/

namespace SchemaTypegen

/-- A text of declarations, and how many there are. -/
structure Output where
  text : String
  declarations : Nat
  deriving DecidableEq, Repr

/-- The header the options ask for, if they ask for one. -/
def Options.headerText? (options : Options) (now : Moment) : Option String :=
  if options.header then some (headerText (if options.timestamp then some now else none)) else none

/-- The output for a schema, made at a given time. -/
def Schema.typegen (schema : Schema) (options : Options) (now : Moment) : Output :=
  let declarations := schema.declarations options.order
  { text := "\n".intercalate
      ((options.headerText? now).toList ++ declarations.map (Declaration.text options.indent))
    declarations := declarations.length }

/-- The output for the text of a schema, made at a given time. -/
def typegen (source : String) (options : Options) (now : Moment) : Except Error Output :=
  (Schema.ofSource source).map fun schema => schema.typegen options now

end SchemaTypegen
