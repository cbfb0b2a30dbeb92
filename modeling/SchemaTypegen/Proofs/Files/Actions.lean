import SchemaTypegen.Files.Action
import SchemaTypegen.Proofs.Files

/-!
# Actions that fail without a trace

An action leaves a tree behind when it fails, and nothing in its type says which. `Atomic` says that
it is the tree before. Looking something up keeps the tree, so whatever follows may still fail
without a trace; once the tree has been changed, a failure has to be undone. A write changes the
tree before it can fail for the last time: the new file stands in the target's directory while the
target is looked up. It has a new name, so the target is found as if it were not there, and the tree
without it is the tree before.

* `bind_eq_ok`, `ask_eq_ok`, `adaptExcept_eq_ok`: what a success says about the parts of an action.
* `Keeps.bind_atomic`: a change may come last.
* `run_write_of_stage`, `run_write_of_target`, `run_write`: the three ends of a write, which
  `write_cases` puts together.
* **`atomic_write`**, **`read_of_write`**: a write that fails leaves no trace, and what is written
  to a path is read from it.
-/

namespace SchemaTypegen.Files

open MonadExcept (ofExcept)
open SchemaTypegen.Files.Path

namespace Action

variable {ε ε' α β : Type} {t t' : Tree}

/-! ## Parts of an action -/

theorem run_bind (a : Action ε α) (f : α → Action ε β) (t : Tree) :
    (a >>= f).run t = match a.run t with
      | .ok x between => (f x).run between
      | .error e between => .error e between := by
  have unfolded : (a >>= f).run t = EStateM.bind a f t := rfl
  rw [unfolded, EStateM.bind, EStateM.run]
  cases a t <;> rfl

theorem bind_eq_ok {a : Action ε α} {f : α → Action ε β} {y : β} :
    (a >>= f).run t = .ok y t' ↔ ∃ x between, a.run t = .ok x between ∧
      (f x).run between = .ok y t' := by
  rw [run_bind]
  cases a.run t <;> simp

theorem bind_eq_error {a : Action ε α} {f : α → Action ε β} {e : ε} :
    (a >>= f).run t = .error e t' ↔ a.run t = .error e t' ∨
      ∃ x between, a.run t = .ok x between ∧ (f x).run between = .error e t' := by
  rw [run_bind]
  cases a.run t <;> simp

theorem run_bind_of_ok {a : Action ε α} {x : α} (first : a.run t = .ok x t') (f : α → Action ε β) :
    (a >>= f).run t = (f x).run t' := by
  rw [run_bind, first]

theorem adaptExcept_eq_ok {a : Action ε α} {g : ε → ε'} {x : α} :
    (a.adaptExcept g).run t = .ok x t' ↔ a.run t = .ok x t' := by
  cases first : a t <;> simp [EStateM.adaptExcept, EStateM.run, first]

theorem adaptExcept_eq_error {a : Action ε α} {g : ε → ε'} {e : ε'} :
    (a.adaptExcept g).run t = .error e t' ↔ ∃ cause, a.run t = .error cause t' ∧ g cause = e := by
  cases first : a t <;> simp [EStateM.adaptExcept, EStateM.run, first, and_comm]

theorem tryCatch_of_ok {a : Action ε α} (h : ε → Action ε α) {x : α} (first : a.run t = .ok x t') :
    (tryCatch a h).run t = .ok x t' := by
  have unfolded : (tryCatch a h).run t = EStateM.tryCatch a h t := rfl
  have first : a t = .ok x t' := first
  rw [unfolded, EStateM.tryCatch, first]

theorem tryCatch_of_error {a : Action ε α} (h : ε → Action ε α) {e : ε}
    (first : a.run t = .error e t') : (tryCatch a h).run t = (h e).run t' := by
  have unfolded : (tryCatch a h).run t = EStateM.tryCatch a h t := rfl
  have first : a t = .error e t' := first
  rw [unfolded, EStateM.tryCatch, first]
  rfl

theorem run_ofExcept_ok (x : α) : (ofExcept (.ok x) : Action ε α).run t = .ok x t := rfl

theorem run_ofExcept_error (e : ε) : (ofExcept (.error e) : Action ε α).run t = .error e t := rfl

theorem ofExcept_eq_ok {r : Except ε α} {x : α} :
    (ofExcept r : Action ε α).run t = .ok x t' ↔ r = .ok x ∧ t = t' := by
  cases r with
  | ok y => simp [run_ofExcept_ok]
  | error e => simp [run_ofExcept_error]

theorem ofExcept_eq_error {r : Except ε α} {e : ε} :
    (ofExcept r : Action ε α).run t = .error e t' ↔ r = .error e ∧ t = t' := by
  cases r with
  | ok y => simp [run_ofExcept_ok]
  | error e => simp [run_ofExcept_error]

theorem ask_eq_ok {f : Tree → Except ε α} {x : α} :
    (ask f).run t = .ok x t' ↔ f t = .ok x ∧ t = t' :=
  ofExcept_eq_ok (r := f t)

theorem ask_eq_error {f : Tree → Except ε α} {e : ε} :
    (ask f).run t = .error e t' ↔ f t = .error e ∧ t = t' :=
  ofExcept_eq_error (r := f t)

/-! ## Failing without a trace -/

/-- The action leaves the tree as it was, whether it succeeds or fails. -/
structure Keeps (a : Action ε α) : Prop where
  ok : ∀ {t t' : Tree} {x : α}, a.run t = .ok x t' → t' = t
  error : ∀ {t t' : Tree} {e : ε}, a.run t = .error e t' → t' = t

/-- When the action fails, it leaves the tree as it was. -/
def Atomic (a : Action ε α) : Prop :=
  ∀ ⦃t t' : Tree⦄ ⦃e : ε⦄, a.run t = .error e t' → t' = t

theorem Keeps.atomic {a : Action ε α} (h : a.Keeps) : a.Atomic := fun _ _ _ => h.error

theorem keeps_ofExcept (r : Except ε α) : Keeps (ofExcept r : Action ε α) where
  ok h := (ofExcept_eq_ok.mp h).2.symm
  error h := (ofExcept_eq_error.mp h).2.symm

theorem keeps_ask (f : Tree → Except ε α) : (ask f).Keeps where
  ok h := (ask_eq_ok.mp h).2.symm
  error h := (ask_eq_error.mp h).2.symm

theorem keeps_pure (x : α) : Keeps (pure x : Action ε α) where
  ok h := by cases h; rfl
  error h := by cases h

/-- Whatever follows an action that keeps the tree may change it, if it undoes that when it
fails. -/
theorem Keeps.bind_atomic {a : Action ε α} (h : a.Keeps) {f : α → Action ε β}
    (later : ∀ x, (f x).Atomic) : (a >>= f).Atomic := by
  intro t t' e failed
  rcases bind_eq_error.mp failed with first | ⟨x, between, first, second⟩
  · exact h.error first
  · exact (later x second).trans (h.ok first)

/-- Nothing that can fail follows. -/
theorem Atomic.bind_pure {a : Action ε α} (h : a.Atomic) (f : α → β) :
    (a >>= fun x => pure (f x)).Atomic := by
  intro t t' e failed
  rcases bind_eq_error.mp failed with first | ⟨x, between, -, second⟩
  · exact h first
  · cases second

theorem Atomic.adaptExcept {a : Action ε α} (h : a.Atomic) (g : ε → ε') :
    Atomic (a.adaptExcept g) := by
  intro t t' e failed
  obtain ⟨cause, first, -⟩ := adaptExcept_eq_error.mp failed
  exact h first

theorem Keeps.adaptExcept {a : Action ε α} (h : a.Keeps) (g : ε → ε') :
    Keeps (a.adaptExcept g) where
  ok succeeded := h.ok (adaptExcept_eq_ok.mp succeeded)
  error failed := h.atomic.adaptExcept g failed

/-! ## Writing -/

section Write

variable {path : String} {directory location : Location} {cause : Failure}

/-- Where the text for a path is staged, in a directory. -/
def stagedAt (t : Tree) (path : String) (directory : Location) : Location :=
  directory ++ [Tree.freshName (t.names ++ steps path)]

theorem stagedAt_notMem_keys (t : Tree) (path : String) (directory : Location) :
    stagedAt t path directory ∉ t.nodes.keys :=
  Tree.notMem_keys_of_notMem (fun mem => Tree.freshName_notMem _ (List.mem_append_left _ mem)) _

/-- The new file is not in the way of the target. -/
theorem target_set_stagedAt (t : Tree) (path : String) (directory : Location) (node : Node) :
    (t.set (stagedAt t path directory) node).target path = t.target path := by
  have fresh := Tree.freshName_notMem (t.names ++ steps path)
  refine Tree.target_set_of_notMem node (fun mem => fresh ?_) fun mem => fresh ?_
  · exact List.mem_append_left _ (List.mem_append_left _ mem)
  · exact List.mem_append_right _ mem

theorem run_create (staged : t.stage path = .ok directory) :
    (create path).run t = .ok (stagedAt t path directory)
      (t.set (stagedAt t path directory) (.file (.text ""))) :=
  bind_eq_ok.mpr ⟨directory, t, ask_eq_ok.mpr ⟨staged, rfl⟩, rfl⟩

theorem run_rename (source : Location) (found : t.target path = .ok location) :
    (rename source path).run t = .ok () (t.move source location) :=
  bind_eq_ok.mpr ⟨location, t, ask_eq_ok.mpr ⟨found, rfl⟩, rfl⟩

theorem run_rename_of_target (source : Location) (refused : t.target path = .error cause) :
    (rename source path).run t = .error cause t :=
  bind_eq_error.mpr (Or.inl (ask_eq_error.mpr ⟨refused, rfl⟩))

theorem run_fill (t : Tree) (location : Location) (node : Node) (text : String) :
    (fill location text : Action ε Unit).run (t.set location node) =
      .ok () (t.set location (.file (.text text))) :=
  congrArg (EStateM.Result.ok ()) (t.set_set location node _)

/-- What is staged ends at the target, and nothing of it is left where it was. -/
theorem move_set_stagedAt (t : Tree) (path : String) (directory location : Location) (node : Node) :
    (t.set (stagedAt t path directory) node).move (stagedAt t path directory) location =
      t.set location node := by
  have somewhere : stagedAt t path directory ≠ [] := List.append_ne_nil_of_right_ne_nil _ (by simp)
  rw [Tree.move, Tree.get?_set_self node somewhere]
  dsimp only
  rw [Tree.erase_set (stagedAt_notMem_keys t path directory)]

/-- A write that finds no place for the new file has made nothing. -/
theorem run_write_of_stage (text : String) (refused : t.stage path = .error cause) :
    (write path text).run t = .error ⟨.stage, cause⟩ t := by
  have first : (create path).run t = .error cause t :=
    bind_eq_error.mpr (Or.inl (ask_eq_error.mpr ⟨refused, rfl⟩))
  exact bind_eq_error.mpr (Or.inl (adaptExcept_eq_error.mpr ⟨cause, first, rfl⟩))

/-- **A write that cannot replace the target removes the new file.** -/
theorem run_write_of_target (text : String) (staged : t.stage path = .ok directory)
    (refused : t.target path = .error cause) :
    (write path text).run t = .error ⟨.replace, cause⟩ t := by
  have still := (target_set_stagedAt t path directory (.file (.text text))).trans refused
  have stuck : EStateM.run (do
        fill (stagedAt t path directory) text
        (rename (stagedAt t path directory) path).adaptExcept (WriteFailure.mk .replace))
      (t.set (stagedAt t path directory) (.file (.text ""))) =
        .error ⟨.replace, cause⟩ (t.set (stagedAt t path directory) (.file (.text text))) :=
    bind_eq_error.mpr (Or.inr ⟨(), _, run_fill t _ _ text,
      adaptExcept_eq_error.mpr ⟨cause, run_rename_of_target _ still, rfl⟩⟩)
  refine bind_eq_error.mpr (Or.inr ⟨_, _, adaptExcept_eq_ok.mpr (run_create staged), ?_⟩)
  refine (tryCatch_of_error _ stuck).trans ?_
  exact congrArg (EStateM.Result.error _) (Tree.erase_set (stagedAt_notMem_keys t path directory) _)

/-- **A write puts the text at the target of its path**, and nothing else is left of it. -/
theorem run_write (text : String) (staged : t.stage path = .ok directory)
    (found : t.target path = .ok location) :
    (write path text).run t = .ok () (t.set location (.file (.text text))) := by
  have still := (target_set_stagedAt t path directory (.file (.text text))).trans found
  have moved : (rename (stagedAt t path directory) path).run
      (t.set (stagedAt t path directory) (.file (.text text))) =
        .ok () (t.set location (.file (.text text))) := by
    rw [run_rename _ still, move_set_stagedAt]
  refine bind_eq_ok.mpr ⟨_, _, adaptExcept_eq_ok.mpr (run_create staged), tryCatch_of_ok _ ?_⟩
  exact bind_eq_ok.mpr ⟨(), _, run_fill t _ _ text, adaptExcept_eq_ok.mpr moved⟩

end Write

/-- **What a write can do**: fail and leave the tree as it was, although the new file may have been
in it, or put the text at the target of its path. -/
theorem write_cases (t : Tree) (path text : String) :
    (∃ failure, (write path text).run t = .error failure t) ∨
      ∃ location, t.target path = .ok location ∧
        (write path text).run t = .ok () (t.set location (.file (.text text))) := by
  cases staged : t.stage path with
  | error cause => exact Or.inl ⟨_, run_write_of_stage text staged⟩
  | ok directory =>
    cases found : t.target path with
    | error cause => exact Or.inl ⟨_, run_write_of_target text staged found⟩
    | ok location => exact Or.inr ⟨location, rfl, run_write text staged found⟩

/-- **A write that fails leaves no trace.** -/
theorem atomic_write (path text : String) : (write path text).Atomic := by
  intro t t' e failed
  rcases write_cases t path text with ⟨failure, run⟩ | ⟨location, -, run⟩
  · exact (EStateM.Result.error.inj (run.symm.trans failed)).2.symm
  · exact absurd (run.symm.trans failed) (by simp)

/-- A write that succeeds puts the text at its target and does nothing else. -/
theorem write_eq_ok {path text : String} (h : (write path text).run t = .ok () t') :
    ∃ location, t.target path = .ok location ∧ t' = t.set location (.file (.text text)) := by
  rcases write_cases t path text with ⟨failure, run⟩ | ⟨location, target, run⟩
  · exact absurd (run.symm.trans h) (by simp)
  · exact ⟨location, target, (EStateM.Result.ok.inj (run.symm.trans h)).2.symm⟩

/-- **What is written to a path is read from it.** The write puts the text at one location and
leaves everything else as it is. -/
theorem read_of_write {path text : String} (h : (write path text).run t = .ok () t') :
    ∃ location, t.target path = .ok location ∧ t'.cwd = t.cwd ∧
      t'.get? location = some (.file (.text text)) ∧
      (∀ other ≠ location, t'.get? other = t.get? other) ∧ t'.read path = .ok text := by
  obtain ⟨location, target, rfl⟩ := write_eq_ok h
  obtain ⟨above, name, parent, replaceable, rfl⟩ := Tree.target_eq_ok target
  refine ⟨_, target, rfl, ?_, fun other apart => Tree.get?_set _ (Ne.symm apart), ?_⟩
  · exact Tree.get?_set_self _ (Tree.ne_nil_of_free replaceable.free)
  · exact replaceable.read_set text

end Action

end SchemaTypegen.Files
