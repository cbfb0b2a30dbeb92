/-!
# Options

What a caller can choose about the output.
-/

namespace SchemaTypegen

/-- The order in which named types are written. -/
inductive Order where
  /-- As they are declared. -/
  | declaration
  /-- Types that are pointed at first, depth first from the root operations. -/
  | dependencies
  deriving DecidableEq, Repr

namespace Order

/-- The word for an order. -/
def word : Order → String
  | declaration => "declaration"
  | dependencies => "dependencies"

/-- The order a word names, letter for letter. -/
def ofWord? (word : String) : Option Order :=
  [declaration, dependencies].find? fun order => order.word == word

end Order

/-- What the output looks like. -/
structure Options where
  /-- Whether the output begins with a comment that says it is generated. -/
  header : Bool := true
  /-- Whether that comment gives the time. -/
  timestamp : Bool := true
  order : Order := .declaration
  /-- What stands before each field and each enum value. -/
  indent : String := "  "
  deriving DecidableEq, Repr

/-- Options under which equal schemas have equal outputs: there is no header. -/
def Options.bare : Options := { header := false, timestamp := false }

end SchemaTypegen
