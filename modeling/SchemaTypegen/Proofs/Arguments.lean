import SchemaTypegen.Command.Arguments
import SchemaTypegen.Proofs.Success
import SchemaTypegen.Proofs.Text

/-!
# The commands that arguments ask for

Arguments that ask for a command give it paths that are not empty, whichever way the switches are
written. Conversely every command with such paths is asked for by some arguments.

* `ne_empty_of_ofArguments`: the paths of a command are not empty.
* **`ofArguments_arguments`**: the arguments of a command ask for it.
-/

namespace SchemaTypegen

open Text

/-- The paths that a command is given. -/
def Command.paths : Command → List String
  | transpile input out _ | model input out => input :: out.toList
  | tokens input => [input]

/-- The command that an invocation runs. -/
def Invocation.command? : Invocation → Option Command
  | command _ c => some c
  | help | version | usage => none

namespace Arguments

/-! ## Values are accepted -/

/-- A reading that stops early runs no command, and what it comes to otherwise satisfies `P`. -/
def Yields {α : Type} (P : α → Prop) : Except Invocation α → Prop
  | .ok a => P a
  | .error stopped => stopped.command? = none

theorem Yields.bind {α β : Type} {P : α → Prop} {Q : β → Prop} {x : Except Invocation α}
    {f : α → Except Invocation β} (h : Yields P x) (next : ∀ a, P a → Yields Q (f a)) :
    Yields Q (x >>= f) := by
  cases x with
  | error stopped => exact h
  | ok a => exact next a h

namespace Given

/-- Every value is one that its setting takes. -/
def Accepted (g : Given) : Prop := ∀ v ∈ g.values, v.1.accepts v.2 = true

variable {g : Given} (h : g.Accepted)

include h

theorem Accepted.addFlag (flag : Flag) : Yields Accepted (g.addFlag flag) := by
  unfold Given.addFlag
  split
  · rfl
  · exact h

theorem Accepted.addValue (setting : Setting) (value : String) :
    Yields Accepted (g.addValue setting value) := by
  unfold Given.addValue
  split
  · rfl
  · rename_i taken
    have accepted : setting.accepts value = true := by
      rw [not_or, not_not] at taken
      exact taken.2
    exact List.forall_mem_cons.mpr ⟨accepted, h⟩

theorem Accepted.accepts {setting : Setting} {value : String}
    (found : g.value? setting = some value) : setting.accepts value = true := by
  obtain ⟨v, mem, rfl⟩ := Option.map_eq_some_iff.mp found
  have own : v.1 = setting := by simpa using List.find?_some mem
  exact own ▸ h v (List.mem_of_find?_eq_some mem)

end Given

section Reading

variable (grammar : Grammar) {g : Given} (h : g.Accepted)

include h

theorem accepted_of_readLong (name : String) (value : Option String) :
    Yields (fun p => p.1.Accepted) (readLong grammar g name value) := by
  unfold readLong
  split
  · exact (h.addValue _ _).bind fun _ h' => h'
  · exact h
  · exact (h.addFlag _).bind fun _ h' => h'
  · rfl
  · rfl
  · rfl

theorem accepted_of_readShort (names : List Char) :
    Yields (fun p => p.1.Accepted) (readShort grammar g names) := by
  induction names generalizing g with
  | nil => exact h
  | cons name rest ih =>
    unfold readShort
    split
    · split
      · exact h
      · exact (h.addValue _ _).bind fun _ h' => h'
      · exact (h.addValue _ _).bind fun _ h' => h'
    · exact (h.addFlag _).bind fun _ h' => ih h'
    · rfl
    · rfl
    · rfl

end Reading

/-- The switches read when reading ends. -/
def Ending.given : Ending → Given
  | all g | word g _ _ => g

theorem accepted_of_readSwitches (grammar : Grammar) {g : Given} (h : g.Accepted)
    (waiting : Option Setting) (args : List String) :
    Yields (fun ending => ending.given.Accepted) (readSwitches grammar g waiting args) := by
  induction args generalizing g waiting with
  | nil =>
    cases waiting with
    | none => exact h
    | some _ => rfl
  | cons arg rest ih =>
    cases waiting with
    | some setting =>
      unfold readSwitches
      split
      · rfl
      · exact (h.addValue setting arg).bind fun _ h' => ih h' none
    | none =>
      unfold readSwitches
      split
      · split
        · exact h
        · rfl
      · dsimp only
        split
        · exact (accepted_of_readLong grammar h _ _).bind fun p h' => ih h' p.2
        · exact (accepted_of_readLong grammar h _ _).bind fun p h' => ih h' p.2
      · exact (accepted_of_readShort grammar h _).bind fun p h' => ih h' p.2
      · exact h

theorem accepted_of_readAll (grammar : Grammar) (args : List String) :
    Yields Given.Accepted (readAll grammar args) := by
  have none : Given.Accepted {} := fun _ no => absurd no List.not_mem_nil
  refine (accepted_of_readSwitches grammar none Option.none args).bind fun ending h => ?_
  cases ending with
  | all g => exact h
  | word g word rest => rfl

/-- Paths that have been accepted are not empty. -/
theorem Given.Accepted.notMem_paths {g : Given} (h : g.Accepted) {input : String}
    (read : g.input = .ok input) : "" ∉ input :: (g.value? .out).toList := by
  have filled : ∀ path, g.value? .input = some path ∨ g.value? .out = some path → path ≠ "" := by
    rintro path (found | found)
    · simpa [Setting.accepts] using h.accepts found
    · simpa [Setting.accepts] using h.accepts found
  rw [List.mem_cons, not_or]
  refine ⟨fun no => ?_, fun mem => filled "" (Or.inr (Option.mem_toList.mp mem)) rfl⟩
  unfold Given.input at read
  split at read
  · rename_i path found
    exact filled path (Or.inl found) (no ▸ Except.ok.inj read)
  · exact absurd read (by simp)

/-- An invocation whose command, if it runs one, is not given an empty path. -/
def HasPaths (invocation : Invocation) : Prop := ∀ c ∈ invocation.command?, "" ∉ c.paths

theorem hasPaths_of_readCommand (verbose : Bool) (name : String) (args : List String) :
    Yields HasPaths (readCommand verbose name args) := by
  have input : ∀ {g : Given}, Yields (fun input => g.input = .ok input) g.input := by
    intro g
    unfold Given.input
    split
    · rfl
    · rfl
  have help : HasPaths .help := by simp [HasPaths, Invocation.command?]
  unfold readCommand
  split
  · refine (accepted_of_readAll _ args).bind fun g h => input.bind fun path read => ?_
    rintro c ⟨⟩
    exact h.notMem_paths read
  · refine (accepted_of_readAll _ args).bind fun g h => input.bind fun path read => ?_
    rintro c ⟨⟩
    have filled := h.notMem_paths read
    rw [List.mem_cons, not_or] at filled
    simpa [Command.paths] using filled.1
  · refine (accepted_of_readAll _ args).bind fun g h => input.bind fun path read => ?_
    rintro c ⟨⟩
    exact h.notMem_paths read
  · split
    · exact help
    · exact help
    · exact help
    · exact help
    · exact help
    · rfl
  · rfl

end Arguments

/-- **The paths of a command that arguments ask for are not empty.** -/
theorem Invocation.ne_empty_of_ofArguments {args : List String} {c : Command}
    (h : c ∈ (Invocation.ofArguments args).command?) : "" ∉ c.paths := by
  have read : Arguments.Yields Arguments.HasPaths (Arguments.readTop args) := by
    refine (Arguments.accepted_of_readSwitches _ (fun _ no => absurd no List.not_mem_nil) none
      args).bind fun ending _ => ?_
    cases ending with
    | all g => rfl
    | word g word rest => exact Arguments.hasPaths_of_readCommand _ _ _
  unfold Invocation.ofArguments at h
  split at h
  · rename_i invocation found
    rw [found] at read
    exact read c h
  · rename_i invocation found
    rw [found] at read
    exact absurd h (by rw [read]; simp)

/-! ## Commands are asked for -/

/-- A setting and its value in one argument. -/
def settingWord (name value : String) : String := "--" ++ name ++ "=" ++ value

/-- A flag. -/
def flagWord (name : String) : String := "--" ++ name

/-- The switches that ask for options. -/
def Options.switches (options : Options) : List String :=
  (if options.header then [] else [flagWord "no-header"]) ++
    (if options.timestamp then [] else [flagWord "no-timestamp"]) ++
    [settingWord "order" options.order.word, settingWord "indent" options.indent]

/-- Arguments that ask for a command. -/
def Command.arguments : Command → List String
  | transpile input out options =>
    "transpile" :: settingWord "input" input ::
      (out.toList.map (settingWord "out") ++ options.switches)
  | tokens input => ["tokens", settingWord "input" input]
  | model input out => "model" :: settingWord "input" input :: out.toList.map (settingWord "out")

theorem Order.ofWord?_word (order : Order) : ofWord? order.word = some order := by
  cases order <;> decide

namespace Arguments

section Switches

variable {grammar : Grammar} {g : Given} {name : String} (plain : '=' ∉ name.toList)
  (rest : List String)

include plain

theorem readSwitches_setting {setting : Setting}
    (known : long? grammar name = some (.setting setting))
    (fresh : g.value? setting = none) {value : String} (accepted : setting.accepts value = true) :
    readSwitches grammar g none (settingWord name value :: rest) =
      readSwitches grammar { g with values := (setting, value) :: g.values } none rest := by
  have shape : (settingWord name value).toList =
      '-' :: '-' :: (name.toList ++ '=' :: value.toList) := by simp [settingWord]
  have cut := cutAt_append plain value.toList
  have added : g.addValue setting value =
      .ok { g with values := (setting, value) :: g.values } := by
    rw [Given.addValue, if_neg (by simp [fresh, accepted])]
  -- The part after the dashes is not empty, so the dashes do not end the switches.
  obtain ⟨c, cs, filled⟩ : ∃ c cs, name.toList ++ '=' :: value.toList = c :: cs :=
    List.exists_cons_of_ne_nil (by simp)
  rw [filled] at shape cut
  rw [readSwitches, shape]
  simp only [cut, String.ofList_toList, readLong, known, added]
  rfl

theorem readSwitches_flag {flag : Flag} (known : long? grammar name = some (.flag flag))
    (named : name.toList ≠ []) (fresh : flag ∉ g.flags) :
    readSwitches grammar g none (flagWord name :: rest) =
      readSwitches grammar { g with flags := flag :: g.flags } none rest := by
  have shape : (flagWord name).toList = '-' :: '-' :: name.toList := by simp [flagWord]
  have cut := cutAt_eq_none plain
  have added : g.addFlag flag = .ok { g with flags := flag :: g.flags } := by
    rw [Given.addFlag, if_neg fresh]
  have whole : String.ofList name.toList = name := String.ofList_toList
  obtain ⟨c, cs, filled⟩ := List.exists_cons_of_ne_nil named
  rw [filled] at shape cut whole
  rw [readSwitches, shape]
  simp only [cut, whole, readLong, known, added]
  rfl

end Switches

/-- The values of the settings for paths. -/
def pathValues (input : String) (out : Option String) : List (Setting × String) :=
  out.toList.map (Setting.out, ·) ++ [(.input, input)]

theorem readSwitches_paths {grammar : Grammar}
    (inputs : long? grammar "input" = some (.setting .input))
    (outs : long? grammar "out" = some (.setting .out)) {input : String} {out : Option String}
    (filled : "" ∉ input :: out.toList) (rest : List String) :
    readSwitches grammar {} none
        (settingWord "input" input :: (out.toList.map (settingWord "out") ++ rest)) =
      readSwitches grammar { values := pathValues input out } none rest := by
  rw [List.mem_cons, not_or] at filled
  have first : Setting.input.accepts input = true := by
    simpa [Setting.accepts] using Ne.symm filled.1
  rw [readSwitches_setting (by decide) _ inputs rfl first]
  cases out with
  | none => rfl
  | some out =>
    have second : Setting.out.accepts out = true := by
      simpa [Setting.accepts] using fun no => filled.2 (by rw [no]; exact List.mem_cons_self)
    exact readSwitches_setting (by decide) _ outs rfl second

/-- The flags of options, the last one read first. -/
def optionFlags (options : Options) : List Flag :=
  (if options.timestamp then [] else [.noTimestamp]) ++ (if options.header then [] else [.noHeader])

/-- The settings of options after those for paths, the last one read first. -/
def optionValues (options : Options) (input : String) (out : Option String) :
    List (Setting × String) :=
  (.indent, options.indent) :: (.order, options.order.word) :: pathValues input out

theorem readSwitches_options (options : Options) (input : String) (out : Option String) :
    readSwitches (shared ++ outSwitch ++ layout) { values := pathValues input out } none
        options.switches =
      .ok (.all ⟨optionFlags options, optionValues options input out⟩) := by
  have orders : long? (shared ++ outSwitch ++ layout) "order" = some (.setting .order) := by decide
  have indents : long? (shared ++ outSwitch ++ layout) "indent" = some (.setting .indent) := by
    decide
  have headers : long? (shared ++ outSwitch ++ layout) "no-header" = some (.flag .noHeader) := by
    decide
  have timestamps : long? (shared ++ outSwitch ++ layout) "no-timestamp" =
      some (.flag .noTimestamp) := by decide
  have order : Setting.order.accepts options.order.word = true := by
    rw [Setting.accepts, Order.ofWord?_word]
    rfl
  have settings : ∀ flags, readSwitches (shared ++ outSwitch ++ layout)
      ⟨flags, pathValues input out⟩ none
      [settingWord "order" options.order.word, settingWord "indent" options.indent] =
        .ok (.all ⟨flags, optionValues options input out⟩) := by
    intro flags
    rw [readSwitches_setting (by decide) _ orders (by cases out <;> rfl) order,
      readSwitches_setting (by decide) _ indents (by cases out <;> rfl) rfl]
    rfl
  unfold Options.switches optionFlags
  cases options.header <;> cases options.timestamp <;>
    simp only [if_true, if_false, Bool.false_eq_true, List.nil_append, List.cons_append,
      List.append_nil]
  · rw [readSwitches_flag (by decide) _ headers (by decide) List.not_mem_nil,
      readSwitches_flag (by decide) _ timestamps (by decide) (by simp), settings]
  · rw [readSwitches_flag (by decide) _ headers (by decide) List.not_mem_nil, settings]
  · rw [readSwitches_flag (by decide) _ timestamps (by decide) List.not_mem_nil, settings]
  · exact settings []

theorem options_of_switches (options : Options) (input : String) (out : Option String) :
    Given.options ⟨optionFlags options, optionValues options input out⟩ = options := by
  obtain ⟨header, timestamp, order, indent⟩ := options
  have word := Order.ofWord?_word order
  cases header <;> cases timestamp <;>
    simp [Given.options, optionFlags, optionValues, Given.value?, word]

theorem readAll_eq_ok {grammar : Grammar} {args : List String} {g : Given}
    (h : readSwitches grammar {} none args = .ok (.all g)) : readAll grammar args = .ok g := by
  rw [readAll, h]
  rfl

theorem readSwitches_word {grammar : Grammar} {g : Given} {name : String}
    (begins : name.toList.head? ≠ some '-') (rest : List String) :
    readSwitches grammar g none (name :: rest) = .ok (.word g name rest) := by
  unfold readSwitches
  split
  · rename_i dashes
    exact absurd (by rw [dashes]; rfl) begins
  · rename_i dashes
    exact absurd (by rw [dashes]; rfl) begins
  · rename_i dash
    exact absurd (by rw [dash]; rfl) begins
  · rfl

/-- A command is read from its arguments. -/
theorem readCommand_arguments {c : Command} (filled : "" ∉ c.paths) (verbose : Bool) :
    ∃ name args, c.arguments = name :: args ∧ name.toList.head? ≠ some '-' ∧
      readCommand verbose name args = .ok (.command verbose c) := by
  cases c with
  | transpile input out options =>
    refine ⟨"transpile", _, rfl, by decide, ?_⟩
    have read := readAll_eq_ok ((readSwitches_paths (by decide) (by decide) filled
      options.switches).trans (readSwitches_options options input out))
    have quiet : Flag.verbose ∉ optionFlags options := by
      unfold optionFlags
      cases options.timestamp <;> cases options.header <;> decide
    have inputs : Given.input ⟨optionFlags options, optionValues options input out⟩ =
        .ok input := by cases out <;> rfl
    have outs : Given.value? ⟨optionFlags options, optionValues options input out⟩ .out = out := by
      cases out <;> rfl
    simp only [readCommand]
    refine Success.bind_eq_ok.mpr ⟨_, read, Success.bind_eq_ok.mpr ⟨input, inputs, ?_⟩⟩
    rw [outs, options_of_switches]
    simp [quiet, pure, Except.pure]
  | tokens input =>
    refine ⟨"tokens", _, rfl, by decide, ?_⟩
    have known : long? shared "input" = some (.setting .input) := by decide
    have named : input ≠ "" := by
      rintro rfl
      exact filled List.mem_cons_self
    have accepted : Setting.input.accepts input = true := by simpa [Setting.accepts] using named
    have read := readAll_eq_ok ((readSwitches_setting (by decide) [] known rfl accepted).trans rfl)
    simp only [readCommand]
    refine Success.bind_eq_ok.mpr ⟨_, read, Success.bind_eq_ok.mpr ⟨input, rfl, ?_⟩⟩
    simp [pure, Except.pure]
  | model input out =>
    refine ⟨"model", _, rfl, by decide, ?_⟩
    have read := readAll_eq_ok ((@readSwitches_paths (shared ++ outSwitch) (by decide) (by decide)
      input out filled []).trans rfl)
    rw [List.append_nil] at read
    have inputs : Given.input { values := pathValues input out } = .ok input := by
      cases out <;> rfl
    have outs : Given.value? { values := pathValues input out } .out = out := by
      cases out <;> rfl
    simp only [readCommand]
    refine Success.bind_eq_ok.mpr ⟨_, read, Success.bind_eq_ok.mpr ⟨input, inputs, ?_⟩⟩
    rw [outs]
    simp [pure, Except.pure]

end Arguments

/-- The arguments of a command, with the flag that asks for more messages if it is wanted. -/
def Invocation.arguments (verbose : Bool) (c : Command) : List String :=
  (if verbose then [flagWord "verbose"] else []) ++ c.arguments

/-- **Every command can be asked for.** -/
theorem Invocation.ofArguments_arguments {c : Command} (filled : "" ∉ c.paths) (verbose : Bool) :
    Invocation.ofArguments (Invocation.arguments verbose c) = .command verbose c := by
  obtain ⟨name, args, shape, begins, read⟩ := Arguments.readCommand_arguments filled verbose
  have top : Arguments.readTop (Invocation.arguments verbose c) = .ok (.command verbose c) := by
    rw [Arguments.readTop, Invocation.arguments, shape]
    have known : Arguments.long? Arguments.topLevel "verbose" = some (.flag .verbose) := by decide
    cases verbose with
    | false =>
      exact Success.bind_eq_ok.mpr ⟨_, Arguments.readSwitches_word begins args, read⟩
    | true =>
      have switched : Arguments.readSwitches Arguments.topLevel {} none
          (flagWord "verbose" :: name :: args) = .ok (.word { flags := [.verbose] } name args) :=
        (Arguments.readSwitches_flag (by decide) _ known (by decide) List.not_mem_nil).trans
          (Arguments.readSwitches_word begins args)
      exact Success.bind_eq_ok.mpr ⟨_, switched, read⟩
  rw [Invocation.ofArguments, top]

end SchemaTypegen
