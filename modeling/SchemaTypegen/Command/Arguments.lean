import SchemaTypegen.Command

/-!
# Arguments

The arguments of the program, read from left to right. An option takes its value from the same
argument (`--name=value`, `-nvalue`, `-n=value`) or from the next one, which must then not begin
with a dash. Short names may stand together. No option and no flag may be given twice to one
command. The first mistake, request for help or request for the version decides.
-/

namespace SchemaTypegen

/-- What the arguments ask for. -/
inductive Invocation where
  | command (verbose : Bool) (command : Command)
  | help
  | version
  | usage
  deriving DecidableEq, Repr

namespace Arguments

/-- Switches without a value. -/
inductive Flag where
  | verbose
  | noHeader
  | noTimestamp
  deriving DecidableEq, Repr

/-- Switches with a value. -/
inductive Setting where
  | input
  | out
  | order
  | indent
  deriving DecidableEq, Repr

/-- What a name after dashes stands for. -/
inductive Switch where
  | help
  | version
  | flag (flag : Flag)
  | setting (setting : Setting)
  deriving DecidableEq, Repr

/-- The switches that a command knows, each with its long name and, if it has one, its short
name. -/
abbrev Grammar := List (Switch × String × Option Char)

/-- The switches before a command. -/
def topLevel : Grammar :=
  [(.flag .verbose, "verbose", some 'v'), (.help, "help", some 'h'),
    (.version, "version", some 'V')]

/-- The switches that every command has. -/
def shared : Grammar :=
  [(.setting .input, "input", some 'i'), (.flag .verbose, "verbose", some 'v'),
    (.help, "help", some 'h')]

/-- The switch for the output file. -/
def outSwitch : Grammar := [(.setting .out, "out", some 'o')]

/-- The switches that only making declarations has. -/
def layout : Grammar :=
  [(.flag .noHeader, "no-header", none), (.flag .noTimestamp, "no-timestamp", none),
    (.setting .order, "order", none), (.setting .indent, "indent", none)]

/-- The switch with a long name. -/
def long? (grammar : Grammar) (name : String) : Option Switch :=
  (grammar.find? (·.2.1 == name)).map Prod.fst

/-- The switch with a short name. -/
def short? (grammar : Grammar) (name : Char) : Option Switch :=
  (grammar.find? (·.2.2 == some name)).map Prod.fst

/-- The switches that have been given. -/
structure Given where
  flags : List Flag := []
  values : List (Setting × String) := []
  deriving DecidableEq, Repr

/-- Whether a setting takes a value: a path must not be empty, and an order must be one. -/
def Setting.accepts : Setting → String → Bool
  | input, value | out, value => value != ""
  | order, value => (Order.ofWord? value).isSome
  | indent, _ => true

namespace Given

/-- The value of a setting. -/
def value? (g : Given) (setting : Setting) : Option String :=
  (g.values.find? (·.1 == setting)).map Prod.snd

/-- One more flag. -/
def addFlag (g : Given) (flag : Flag) : Except Invocation Given :=
  if flag ∈ g.flags then .error .usage else .ok { g with flags := flag :: g.flags }

/-- One more value. -/
def addValue (g : Given) (setting : Setting) (value : String) : Except Invocation Given :=
  if (g.value? setting).isSome ∨ ¬ setting.accepts value then .error .usage
  else .ok { g with values := (setting, value) :: g.values }

end Given

/-- Where reading has come to: the switches given, and the setting that waits for its value. -/
abbrev Progress := Given × Option Setting

/-- A switch by its long name, with the value after `=` if there is one. -/
def readLong (grammar : Grammar) (g : Given) (name : String) (value : Option String) :
    Except Invocation Progress :=
  match long? grammar name, value with
  | some (.setting setting), some value => do return (← g.addValue setting value, none)
  | some (.setting setting), none => .ok (g, some setting)
  | some (.flag flag), none => do return (← g.addFlag flag, none)
  | some .help, none => .error .help
  | some .version, none => .error .version
  | _, _ => .error .usage

/-- Switches by their short names; the first setting takes the rest as its value. -/
def readShort (grammar : Grammar) (g : Given) : List Char → Except Invocation Progress
  | [] => .ok (g, none)
  | name :: rest =>
    match short? grammar name with
    | some (.setting setting) =>
      match rest with
      | [] => .ok (g, some setting)
      | '=' :: value => do return (← g.addValue setting (String.ofList value), none)
      | value => do return (← g.addValue setting (String.ofList value), none)
    | some (.flag flag) => do readShort grammar (← g.addFlag flag) rest
    | some .help => .error .help
    | some .version => .error .version
    | none => .error .usage

/-- How the reading of one command's switches ends. -/
inductive Ending where
  /-- The arguments are used up. -/
  | all (g : Given)
  /-- An argument is neither a switch nor a value. -/
  | word (g : Given) (word : String) (rest : List String)

/-- Reads switches. Two dashes alone end them, and nothing may follow. -/
def readSwitches (grammar : Grammar) (g : Given) :
    Option Setting → List String → Except Invocation Ending
  | some _, [] => .error .usage
  | none, [] => .ok (.all g)
  | some setting, arg :: rest =>
    match arg.toList with
    | '-' :: _ :: _ => .error .usage
    | _ => do readSwitches grammar (← g.addValue setting arg) none rest
  | none, arg :: rest =>
    match arg.toList with
    | ['-', '-'] => if rest.isEmpty then .ok (.all g) else .error .usage
    | '-' :: '-' :: cs => do
      let (g, waiting) ← match Text.cutAt '=' cs with
        | some (name, value) => readLong grammar g (String.ofList name) (some (String.ofList value))
        | none => readLong grammar g (String.ofList cs) none
      readSwitches grammar g waiting rest
    | '-' :: c :: cs => do
      let (g, waiting) ← readShort grammar g (c :: cs)
      readSwitches grammar g waiting rest
    | _ => .ok (.word g arg rest)

/-- The switches of one command, to the end of the arguments. -/
def readAll (grammar : Grammar) (args : List String) : Except Invocation Given := do
  match ← readSwitches grammar {} none args with
  | .all g => return g
  | .word _ _ _ => throw .usage

/-- The input file, which every command needs. -/
def Given.input (g : Given) : Except Invocation String :=
  match g.value? .input with
  | some path => .ok path
  | none => .error .usage

/-- The options that the switches choose. -/
def Given.options (g : Given) : Options where
  header := .noHeader ∉ g.flags
  timestamp := .noTimestamp ∉ g.flags
  order := ((g.value? .order).bind Order.ofWord?).getD .declaration
  indent := (g.value? .indent).getD "  "

/-- The command of a name, with its arguments. -/
def readCommand (verbose : Bool) (name : String) (args : List String) :
    Except Invocation Invocation :=
  match name with
  | "transpile" => do
    let g ← readAll (shared ++ outSwitch ++ layout) args
    return .command (verbose || .verbose ∈ g.flags)
      (.transpile (← g.input) (g.value? .out) g.options)
  | "tokens" => do
    let g ← readAll shared args
    return .command (verbose || .verbose ∈ g.flags) (.tokens (← g.input))
  | "model" => do
    let g ← readAll (shared ++ outSwitch) args
    return .command (verbose || .verbose ∈ g.flags) (.model (← g.input) (g.value? .out))
  | "help" =>
    match args with
    | [] | ["transpile"] | ["tokens"] | ["model"] | ["help"] => .ok .help
    | _ => .error .usage
  | _ => .error .usage

/-- All arguments. -/
def readTop (args : List String) : Except Invocation Invocation := do
  match ← readSwitches topLevel {} none args with
  | .all _ => throw .usage
  | .word g name rest => readCommand (.verbose ∈ g.flags) name rest

end Arguments

open Files

/-- What the arguments ask for. -/
def Invocation.ofArguments (args : List String) : Invocation :=
  match Arguments.readTop args with
  | .ok invocation | .error invocation => invocation

/-- How the program is called. -/
def usageText : String :=
  "Usage: gql-tg [-v] <COMMAND>\n\n" ++
  "  transpile -i <INPUT> [-o <OUT>] [--no-header] [--no-timestamp]\n" ++
  "            [--order declaration|dependencies] [--indent <INDENT>]\n" ++
  "  tokens    -i <INPUT>\n" ++
  "  model     -i <INPUT> [-o <OUT>]\n" ++
  "  help      [COMMAND]\n"

/-- Does what is asked for, at a given time. -/
def Invocation.run (t : Tree) (now : Moment) : Invocation → Report × Tree
  | .command _ asked => asked.run t now
  | .help => ({ stdout := usageText }, t)
  | .version => ({ stdout := "gql-tg 0.1.0\n" }, t)
  | .usage => ({ code := 2, stderr := usageText }, t)

end SchemaTypegen
