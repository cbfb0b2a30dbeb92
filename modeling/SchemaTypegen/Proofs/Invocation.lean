import SchemaTypegen.Proofs.Arguments
import SchemaTypegen.Proofs.Division
import SchemaTypegen.Proofs.Files.Actions

/-!
# What a run does to the files

A run reads at most one file and writes at most one. What a failed run leaves is what its steps have
left by then. Every step before the write keeps the tree, nothing can fail after it, and the write
itself fails without a trace.

* `exists_typegen_eq`: the time shows in the header of an output and nowhere else.
* `Command.atomic_action`: a command that fails leaves the tree as it was.
* `Command.outcome`: a command fails, prints, or writes what it would print without a file.
* **`run_changes_only_out`**: what follows for the tree, whatever the arguments are.
-/

namespace SchemaTypegen

open Files Grammar

/-! ## The header and the rest -/

/-- The time an output is made at shows in its header only. -/
theorem Schema.exists_typegen_eq (schema : Schema) (options : Options) :
    ∃ body, ∀ now, (schema.typegen options now).text =
      (options.headerText? now).getD "" ++ body := by
  have joined : ∀ (header : String) (parts : List String),
      "\n".intercalate (header :: parts) = header ++ "\n".intercalate ("" :: parts) := by
    intro header parts
    rw [← String.intercalate_cons_append, String.append_empty]
  cases headed : options.header with
  | false =>
    refine ⟨"\n".intercalate ((schema.declarations options.order).map
      (Declaration.text options.indent)), fun now => ?_⟩
    simp [Schema.typegen, Options.headerText?, headed]
  | true =>
    refine ⟨"\n".intercalate ("" :: (schema.declarations options.order).map
      (Declaration.text options.indent)), fun now => ?_⟩
    simp only [Schema.typegen, Options.headerText?, headed, if_true, Option.toList_some,
      Option.getD_some, List.cons_append, List.nil_append]
    exact joined _ _

/-! ## Commands -/

namespace Files.Action

theorem atomic_writeOutput (path text : String) : (writeOutput path text).Atomic :=
  (keeps_ofExcept _).bind_atomic fun _ => (atomic_write path text).adaptExcept _

theorem atomic_typegenFile (input out : String) (options : Options) (now : Moment) :
    (typegenFile input out options now).Atomic :=
  (keeps_ofExcept _).bind_atomic fun _ => (keeps_ask _).bind_atomic fun _ =>
    (keeps_ofExcept _).bind_atomic fun _ => (atomic_writeOutput out _).bind_pure _

variable {t t' : Tree} {input out source : String} {options : Options} {now : Moment}
  {output : Output}

theorem run_writeOutput (accepted : checkOutput out = .ok ()) (text : String) :
    (writeOutput out text).run t = ((write out text).adaptExcept (.outputWrite out)).run t :=
  run_bind_of_ok (ofExcept_eq_ok.mpr ⟨accepted, rfl⟩) _

/-- Up to the write the tree is as it was. -/
theorem run_typegenFile (accepted : checkOutput out = .ok ())
    (read : readSchema t input = .ok source) (typed : typegen source options now = .ok output) :
    (typegenFile input out options now).run t =
      (writeOutput out output.text >>= fun _ => pure output).run t := by
  refine (run_bind_of_ok (ofExcept_eq_ok.mpr ⟨accepted, rfl⟩) _).trans ?_
  refine (run_bind_of_ok (ask_eq_ok.mpr ⟨read, rfl⟩) _).trans ?_
  exact run_bind_of_ok (ofExcept_eq_ok.mpr ⟨typed, rfl⟩) _

theorem typegenFile_eq_ok (h : (typegenFile input out options now).run t = .ok output t') :
    ∃ source, readSchema t input = .ok source ∧ typegen source options now = .ok output ∧
      (write out output.text).run t = .ok () t' := by
  obtain ⟨_, _, checked, h⟩ := bind_eq_ok.mp h
  obtain ⟨-, rfl⟩ := ofExcept_eq_ok.mp checked
  obtain ⟨source, _, asked, h⟩ := bind_eq_ok.mp h
  obtain ⟨read, rfl⟩ := ask_eq_ok.mp asked
  obtain ⟨result, _, made, h⟩ := bind_eq_ok.mp h
  obtain ⟨typed, rfl⟩ := ofExcept_eq_ok.mp made
  obtain ⟨_, _, wrote, same⟩ := bind_eq_ok.mp h
  obtain ⟨rfl, rfl⟩ := EStateM.Result.ok.inj same
  obtain ⟨_, _, checked, wrote⟩ := bind_eq_ok.mp wrote
  obtain ⟨-, rfl⟩ := ofExcept_eq_ok.mp checked
  exact ⟨source, read, typed, adaptExcept_eq_ok.mp wrote⟩

end Files.Action

namespace Command

/-- The file that a command writes. -/
def out? : Command → Option String
  | transpile _ out _ | model _ out => out
  | tokens _ => none

/-- The same command without a file to write. -/
def withoutOut : Command → Command
  | transpile input _ options => transpile input none options
  | model input _ => model input none
  | tokens input => tokens input

/-- What a command prints without a file, compared with what it writes with one: declarations are
the same but for their headers, each with its own time, and a resolved schema gets a line end. -/
def Prints (now now' : Moment) (written printed : String) : Command → Prop
  | transpile _ _ options => ∃ body, written = (options.headerText? now).getD "" ++ body ∧
      printed = (options.headerText? now').getD "" ++ body
  | model _ _ => printed = written ++ "\n"
  | tokens _ => False

/-- What a run of a command comes to. -/
inductive Outcome (t : Tree) (now : Moment) (c : Command) : Prop where
  | fails (message : String) (run : c.run t now = (.failure message, t))
  | prints (printed : String) (file : c.out? = none)
      (run : c.run t now = ({ stdout := printed }, t))
  | writes {out written note : String} {t' : Tree} (file : c.out? = some out)
      (run : c.run t now = ({ stderr := note }, t'))
      (write : (Action.write out written).run t = .ok () t')
      (alike : ∀ now', ∃ printed, c.withoutOut.run t now' = ({ stdout := printed }, t) ∧
        c.Prints now now' written printed)

/-- **A command that fails leaves the tree as it was.** -/
theorem atomic_action (now : Moment) (c : Command) : (c.action now).Atomic := by
  cases c with
  | transpile input out options =>
    cases out with
    | none =>
      exact ((Action.keeps_ask _).bind_atomic fun _ =>
        (Action.keeps_ofExcept _).atomic.bind_pure _).adaptExcept _
    | some out =>
      exact ((Action.atomic_typegenFile input out options now).adaptExcept _).bind_pure _
  | tokens input => exact ((Action.keeps_ask _).atomic.bind_pure _).adaptExcept _
  | model input out =>
    refine ((Action.keeps_ask _).adaptExcept _).bind_atomic fun schema => ?_
    cases out with
    | none => exact (Action.keeps_pure _).atomic
    | some out => exact ((Action.atomic_write out _).adaptExcept _).bind_pure _

variable {t t' : Tree} {now : Moment}

theorem run_of_ok {c : Command} {report : Report} (h : (c.action now).run t = .ok report t') :
    c.run t now = (report, t') := by
  rw [run, h]

theorem run_of_error {c : Command} {message : String}
    (h : (c.action now).run t = .error message t') : c.run t now = (.failure message, t) := by
  rw [run, h, atomic_action now c h]

/-- Declarations that can be made are printed. -/
theorem run_transpile {input source : String} {options : Options} {output : Output}
    (read : readSchema t input = .ok source) (typed : typegen source options now = .ok output) :
    (transpile input none options).run t now = ({ stdout := output.text }, t) := by
  refine run_of_ok (Action.adaptExcept_eq_ok.mpr (Action.bind_eq_ok.mpr ⟨source, t, ?_, ?_⟩))
  · exact Action.ask_eq_ok.mpr ⟨read, rfl⟩
  · exact Action.bind_eq_ok.mpr ⟨output, t, Action.ofExcept_eq_ok.mpr ⟨typed, rfl⟩, rfl⟩

/-- A schema that can be resolved is printed. -/
theorem run_model {input : String} {schema : Schema} (read : readModel t input = .ok schema) :
    (model input none).run t now = ({ stdout := schema.toJson.pretty ++ "\n" }, t) := by
  refine run_of_ok (Action.bind_eq_ok.mpr ⟨schema, t, Action.adaptExcept_eq_ok.mpr ?_, rfl⟩)
  exact Action.ask_eq_ok.mpr ⟨read, rfl⟩

/-- Declarations that can be written are written, and how many there are is noted. -/
theorem run_transpile_out {input out : String} {options : Options} {output : Output}
    (made : (Action.typegenFile input out options now).run t = .ok output t') :
    ∃ note, (transpile input (some out) options).run t now = ({ stderr := note }, t') :=
  ⟨_, run_of_ok (Action.bind_eq_ok.mpr ⟨output, t', Action.adaptExcept_eq_ok.mpr made, rfl⟩)⟩

theorem run_transpile_out_of_error {input out : String} {options : Options} {e : Error}
    (made : (Action.typegenFile input out options now).run t = .error e t') :
    (transpile input (some out) options).run t now = (.failure e.report, t) :=
  run_of_error (Action.bind_eq_error.mpr (Or.inl (Action.adaptExcept_eq_error.mpr ⟨e, made, rfl⟩)))

theorem outcome_transpile {input : String} {out : Option String} {options : Options}
    {report : Report} (h : ((transpile input out options).action now).run t = .ok report t') :
    Outcome t now (transpile input out options) := by
  cases out with
  | none =>
    obtain ⟨source, _, asked, h⟩ := Action.bind_eq_ok.mp (Action.adaptExcept_eq_ok.mp h)
    obtain ⟨read, rfl⟩ := Action.ask_eq_ok.mp asked
    obtain ⟨output, _, made, -⟩ := Action.bind_eq_ok.mp h
    obtain ⟨typed, rfl⟩ := Action.ofExcept_eq_ok.mp made
    exact .prints output.text rfl (run_transpile read typed)
  | some out =>
    obtain ⟨output, _, made, -⟩ := Action.bind_eq_ok.mp h
    rw [Action.adaptExcept_eq_ok] at made
    obtain ⟨note, ran⟩ := run_transpile_out made
    obtain ⟨source, read, typed, wrote⟩ := Action.typegenFile_eq_ok made
    obtain ⟨schema, resolved, rfl⟩ := Success.map_eq_ok.mp typed
    obtain ⟨body, headed⟩ := schema.exists_typegen_eq options
    refine .writes rfl ran wrote fun now' => ?_
    have again : typegen source options now' = .ok (schema.typegen options now') := by
      rw [typegen, resolved]
      rfl
    exact ⟨_, run_transpile read again, body, headed now, headed now'⟩

theorem outcome_tokens {input : String} {report : Report}
    (h : ((tokens input).action now).run t = .ok report t') : Outcome t now (tokens input) := by
  have ran := run_of_ok h
  obtain ⟨definitions, _, asked, same⟩ := Action.bind_eq_ok.mp (Action.adaptExcept_eq_ok.mp h)
  obtain ⟨-, rfl⟩ := Action.ask_eq_ok.mp asked
  obtain ⟨rfl, rfl⟩ := EStateM.Result.ok.inj same
  exact .prints _ rfl ran

theorem outcome_model {input : String} {out : Option String} {report : Report}
    (h : ((model input out).action now).run t = .ok report t') :
    Outcome t now (model input out) := by
  have ran := run_of_ok h
  obtain ⟨schema, _, asked, h⟩ := Action.bind_eq_ok.mp h
  obtain ⟨read, rfl⟩ := Action.ask_eq_ok.mp (Action.adaptExcept_eq_ok.mp asked)
  cases out with
  | none => exact .prints _ rfl (run_model read)
  | some out =>
    obtain ⟨_, _, wrote, same⟩ := Action.bind_eq_ok.mp h
    obtain ⟨rfl, rfl⟩ := EStateM.Result.ok.inj same
    exact .writes rfl ran (Action.adaptExcept_eq_ok.mp wrote) fun _ => ⟨_, run_model read, rfl⟩

/-- **What a command can do**: fail, print or write. -/
theorem outcome (t : Tree) (now : Moment) (c : Command) : Outcome t now c := by
  cases ran : (c.action now).run t with
  | error message t' => exact .fails message (run_of_error ran)
  | ok report t' =>
    cases c with
    | transpile input out options => exact outcome_transpile ran
    | tokens input => exact outcome_tokens ran
    | model input out => exact outcome_model ran

end Command

/-! ## Invocations -/

namespace Invocation

/-- The file that an invocation writes. -/
def out? (asked : Invocation) : Option String := asked.command?.bind Command.out?

/-- The same invocation without a file to write. -/
def withoutOut : Invocation → Invocation
  | command verbose c => command verbose c.withoutOut
  | help => help
  | version => version
  | usage => usage

/-- The same command can be asked for without a file to write. -/
theorem ofArguments_withoutOut {args : List String} {verbose : Bool} {c : Command}
    (h : ofArguments args = .command verbose c) :
    ofArguments (arguments verbose c.withoutOut) = .command verbose c.withoutOut := by
  have asked : c ∈ (ofArguments args).command? := by rw [h]; rfl
  have filled := ne_empty_of_ofArguments asked
  refine ofArguments_arguments (fun no => filled ?_) verbose
  cases c with
  | transpile input out options => exact List.mem_cons.mpr (Or.inl (List.mem_singleton.mp no))
  | tokens input => exact no
  | model input out => exact List.mem_cons.mpr (Or.inl (List.mem_singleton.mp no))

end Invocation

/-- **A run changes its output file or nothing.** Whatever the arguments and the tree are, a run
that fails or has no file to write leaves the tree as it was. A run that writes a file changes the
node at one location, the target of the file's path. What the path then holds is what some arguments
that ask for the same without a file make the program print, at any time and from the tree before
the run, up to the time in the header of declarations and the line end after a resolved schema. -/
theorem run_changes_only_out {args : List String} {t after : Tree} {now : Moment} {report : Report}
    (h : (Invocation.ofArguments args).run t now = (report, after)) :
    (report.code ≠ 0 ∨ (Invocation.ofArguments args).out? = none → after = t) ∧
      ∀ out, (Invocation.ofArguments args).out? = some out → report.code = 0 →
        ∃ c ∈ (Invocation.ofArguments args).command?, ∃ location written,
          t.target out = .ok location ∧ after.cwd = t.cwd ∧
          after.get? location = some (.file (.text written)) ∧
          (∀ other ≠ location, after.get? other = t.get? other) ∧ after.read out = .ok written ∧
          ∃ args', Invocation.ofArguments args' = (Invocation.ofArguments args).withoutOut ∧
            ∀ now', ∃ printed,
              (Invocation.ofArguments args').run t now' = ({ stdout := printed }, t) ∧
                c.Prints now now' written printed := by
  cases asked : Invocation.ofArguments args with
  | help | version | usage =>
    rw [asked] at h
    obtain ⟨rfl, rfl⟩ := Prod.mk.inj h
    exact ⟨fun _ => rfl, fun out no => absurd no (by simp [Invocation.out?, Invocation.command?])⟩
  | command verbose c =>
    have run : c.run t now = (report, after) := by rw [← h, asked, Invocation.run]
    cases c.outcome t now with
    | fails message failed =>
      obtain ⟨rfl, rfl⟩ := Prod.mk.inj (failed.symm.trans run)
      exact ⟨fun _ => rfl, fun _ _ no => absurd no Nat.one_ne_zero⟩
    | prints printed file printing =>
      obtain ⟨rfl, rfl⟩ := Prod.mk.inj (printing.symm.trans run)
      refine ⟨fun _ => rfl, fun out no _ => ?_⟩
      exact absurd (file.symm.trans no) (by simp)
    | writes file writing wrote alike =>
      obtain ⟨rfl, rfl⟩ := Prod.mk.inj (writing.symm.trans run)
      constructor
      · rintro (failed | noFile)
        · exact absurd rfl failed
        · exact absurd (file.symm.trans noFile) (by simp)
      · intro out same _
        obtain rfl := Option.some.inj (file.symm.trans same)
        obtain ⟨location, target, cwd, found, others, read⟩ := Action.read_of_write wrote
        have again := Invocation.ofArguments_withoutOut asked
        refine ⟨c, rfl, location, _, target, cwd, found, others, read, _, again, fun now' => ?_⟩
        rw [again]
        exact alike now'

/-! ### A run that writes a file, and one that cannot -/

/-- An enum. -/
def noteSource : String := "enum Note\x7bDO RE\x7d"

/-- A working directory with a schema in it. -/
def noteTree : Tree where
  cwd := ["work"]
  nodes := ⟨[(["work"], .directory), (["work", "a.graphql"], .file (.text noteSource))], by decide⟩

/-- The same, with a directory in the place of the output. -/
def blockedTree : Tree := noteTree.set ["work", "out.ts"] .directory

/-- Arguments for declarations of the schema in `noteTree`. -/
def noteArguments : List String :=
  ["-v", "transpile", "-oout.ts", "--no-header", "-i", "./a.graphql"]

theorem Source.definitions_noteSource : Source.definitions noteSource =
    .ok [⟨"enum", "Note", ["DO", "RE"], 1⟩] :=
  Source.definitions_of_sweep (onLine 1
    [.name "enum", .name "Note", .mark .openBrace, .name "DO", .name "RE", .mark .closeBrace])
    (by decide) (by rfl)

/-- What `noteArguments` ask for. -/
def noteCommand : Command := .transpile "./a.graphql" (some "out.ts") { header := false }

theorem Invocation.ofArguments_noteArguments :
    Invocation.ofArguments noteArguments = .command true noteCommand := by
  decide

/-- The schema of `noteSource`. -/
def noteSchema : Schema where
  roots := {}
  types := ⟨[("Note", ⟨.enum, "Note", .members ["DO", "RE"]⟩)], by decide⟩

theorem Schema.ofSource_noteSource : Schema.ofSource noteSource = .ok noteSchema := by
  rw [Schema.ofSource, Document.ofSource, Source.definitions_noteSource]
  rfl

/-- With the schema in the tree, the run comes down to the write. -/
theorem Files.Action.run_typegenFile_note {t : Tree} (now : Moment)
    (read : readSchema t "./a.graphql" = .ok noteSource) :
    (typegenFile "./a.graphql" "out.ts" { header := false } now).run t =
      (writeOutput "out.ts" (noteSchema.typegen { header := false } now).text >>= fun _ =>
        pure (noteSchema.typegen { header := false } now)).run t := by
  refine run_typegenFile (by rfl) read ?_
  rw [typegen, Schema.ofSource_noteSource]
  rfl

/-- The declarations are written beside the schema. -/
theorem Files.Action.run_typegenFile_noteTree (now : Moment) :
    (typegenFile "./a.graphql" "out.ts" { header := false } now).run noteTree =
      .ok (noteSchema.typegen { header := false } now) (noteTree.set ["work", "out.ts"]
        (.file (.text (noteSchema.typegen { header := false } now).text))) := by
  have staged : noteTree.stage "out.ts" = .ok ["work"] := by rfl
  have found : noteTree.target "out.ts" = .ok ["work", "out.ts"] := by rfl
  rw [run_typegenFile_note now (by rfl)]
  refine bind_eq_ok.mpr ⟨(), _, (run_writeOutput (by rfl) _).trans ?_, rfl⟩
  exact adaptExcept_eq_ok.mpr (run_write _ staged found)

/-- The new file is there before it turns out that it cannot take the place of the directory. -/
theorem Files.Action.run_typegenFile_blockedTree (now : Moment) :
    (typegenFile "./a.graphql" "out.ts" { header := false } now).run blockedTree =
      .error (.outputWrite "out.ts" ⟨.replace, .isADirectory⟩) blockedTree := by
  have staged : blockedTree.stage "out.ts" = .ok ["work"] := by rfl
  have refused : blockedTree.target "out.ts" = .error .isADirectory := by rfl
  rw [run_typegenFile_note now (by rfl)]
  refine bind_eq_error.mpr (Or.inl ((run_writeOutput (by rfl) _).trans ?_))
  exact adaptExcept_eq_error.mpr ⟨_, run_write_of_target _ staged refused, rfl⟩

theorem run_changes_only_out_noteTree :
    (∃ report after written,
      (Invocation.ofArguments noteArguments).run noteTree ⟨2024, 2, 29, 9, 5, 0⟩ = (report, after) ∧
        report.code = 0 ∧ after.read "out.ts" = .ok written ∧
        ∃ args', ∀ now', (Invocation.ofArguments args').run noteTree now' =
          ({ stdout := written }, noteTree)) ∧
    ∃ report after,
      (Invocation.ofArguments noteArguments).run blockedTree ⟨2024, 2, 29, 9, 5, 0⟩ =
        (report, after) ∧ report.code = 1 ∧ after = blockedTree := by
  have asks := Invocation.ofArguments_noteArguments
  have file : (Invocation.ofArguments noteArguments).out? = some "out.ts" := by
    rw [asks]
    rfl
  constructor
  · obtain ⟨note, ran⟩ := Command.run_transpile_out
      (Action.run_typegenFile_noteTree ⟨2024, 2, 29, 9, 5, 0⟩)
    have ran := (congrArg (Invocation.run noteTree ⟨2024, 2, 29, 9, 5, 0⟩) asks).trans ran
    obtain ⟨-, writes⟩ := run_changes_only_out ran
    obtain ⟨c, asked, location, written, -, -, -, -, read, args', -, alike⟩ :=
      writes "out.ts" file rfl
    rw [asks] at asked
    obtain rfl := Option.some.inj asked
    refine ⟨_, _, written, ran, rfl, read, args', fun now' => ?_⟩
    -- There is no header, so the printed text does not depend on the time.
    have headless : ∀ m, ({ header := false } : Options).headerText? m = none := fun _ => rfl
    obtain ⟨printed, run, body, same, same'⟩ := alike now'
    rw [headless] at same same'
    rw [run, same, same']
  · have ran := Command.run_transpile_out_of_error
      (Action.run_typegenFile_blockedTree ⟨2024, 2, 29, 9, 5, 0⟩)
    have ran := (congrArg (Invocation.run blockedTree ⟨2024, 2, 29, 9, 5, 0⟩) asks).trans ran
    obtain ⟨unchanged, -⟩ := run_changes_only_out ran
    exact ⟨_, _, ran, rfl, unchanged (Or.inl Nat.one_ne_zero)⟩

end SchemaTypegen
