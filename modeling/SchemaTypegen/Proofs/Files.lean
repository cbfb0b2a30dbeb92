import SchemaTypegen.Files.Tree
import SchemaTypegen.Proofs.Success

/-!
# What a new file changes for paths

A file that takes a place where no directory is does not get in the way. Only directories are walked
through, so a path that could be followed before leads to the same location afterwards, and the path
of the target leads to the new file. A file whose name is not on the way at all changes nothing for
a path, whether or not it can be followed.

* `walk_set`: a file in a place without a directory is in nobody's way.
* `target_eq_ok`: the target's path is the path of a directory and a name.
* `Replaceable.read_set`: what is put at the target of a path is read from it.
* `freshName_notMem`, **`target_set_of_notMem`**: a new name is not taken, and a file of a name that
  does not occur in a path leaves its target alone.
-/

namespace SchemaTypegen.Files.Tree

open SchemaTypegen.Files.Path

variable {t : Tree} {location : Location}

/-! ## Walking -/

theorem walk_append (start : Location) (first rest : List String) :
    t.walk start (first ++ rest) = t.walk start first >>= fun last => t.walk last rest := by
  induction first generalizing start with
  | nil => rfl
  | cons step first ih =>
    rw [List.cons_append, walk, walk]
    cases t.get? start with
    | none => rfl
    | some node =>
      cases node with
      | file _ => rfl
      | directory =>
        dsimp only
        split
        · exact ih start
        split
        · exact ih start.dropLast
        split
        · rfl
        cases t.get? (start ++ [step]) with
        | none => rfl
        | some _ => exact ih (start ++ [step])

/-- Steps are taken in directories only. -/
theorem get?_of_walk_cons {start last : Location} {step : String} {rest : List String}
    (h : t.walk start (step :: rest) = .ok last) : t.get? start = some .directory := by
  rw [walk] at h
  split at h
  · exact absurd h (by simp)
  · exact absurd h (by simp)
  · assumption

theorem get?_set_self (node : Node) (h : location ≠ []) :
    (t.set location node).get? location = some node := by
  unfold get?
  split
  · exact absurd rfl h
  · simp [set, Catalog.get?_insert]

section Set

variable (free : t.get? location ≠ some .directory)

include free

theorem ne_nil_of_free : location ≠ [] := by
  rintro rfl
  exact free rfl

theorem get?_set_of_directory (node : Node) {other : Location}
    (h : t.get? other = some .directory) :
    (t.set location node).get? other = some .directory := by
  rw [get?_set node, h]
  rintro rfl
  exact free h

theorem exists_get?_set (node : Node) {other : Location} {found : Node}
    (h : t.get? other = some found) : ∃ found', (t.set location node).get? other = some found' := by
  by_cases same : location = other
  · exact ⟨node, same ▸ get?_set_self node (ne_nil_of_free free)⟩
  · exact ⟨found, (get?_set node same).trans h⟩

/-- **A file in a place without a directory is in nobody's way.** -/
theorem walk_set (node : Node) {start last : Location} {steps : List String}
    (h : t.walk start steps = .ok last) : (t.set location node).walk start steps = .ok last := by
  induction steps generalizing start with
  | nil => exact h
  | cons step rest ih =>
    have here := get?_of_walk_cons h
    have there := get?_set_of_directory free node here
    rw [walk, here] at h
    rw [walk, there]
    dsimp only at h ⊢
    by_cases still : isStill step = true
    · rw [if_pos still] at h ⊢
      exact ih h
    rw [if_neg still] at h ⊢
    by_cases up : step = ".."
    · rw [if_pos up] at h ⊢
      exact ih h
    rw [if_neg up] at h ⊢
    by_cases long : maxNameBytes < step.utf8ByteSize
    · rw [if_pos long] at h
      exact absurd h (by simp)
    rw [if_neg long] at h ⊢
    cases found : t.get? (start ++ [step]) with
    | none =>
      rw [found] at h
      exact absurd h (by simp)
    | some below =>
      obtain ⟨below', found'⟩ := exists_get?_set free node found
      rw [found] at h
      rw [found']
      exact ih h

end Set

/-! ## Targets -/

theorem directory_eq_ok {steps : List String} (h : t.directory steps = .ok location) :
    t.resolve steps = .ok location ∧ t.get? location = some .directory := by
  obtain ⟨found, walked, checked⟩ := Success.bind_eq_ok.mp h
  split at checked
  · rename_i here
    obtain rfl := Except.ok.inj checked
    exact ⟨walked, here⟩
  · exact absurd checked Success.throw_ne_ok
  · exact absurd checked Success.throw_ne_ok

/-- The location of a file that can be replaced. -/
structure Replaceable (t : Tree) (path : String) (above : List String) (name : String)
    (parent : Location) : Prop where
  accepted : refusal? path = none
  shape : steps path = above ++ [name]
  above : t.directory above = .ok parent
  named : isStill name = false ∧ name ≠ ".." ∧ ¬ maxNameBytes < name.utf8ByteSize
  free : t.get? (parent ++ [name]) ≠ some .directory

/-- **What a target is**: a name in a directory, and not the name of a directory there. -/
theorem target_eq_ok {path : String} (h : t.target path = .ok location) :
    ∃ above name parent, t.Replaceable path above name parent ∧ location = parent ++ [name] := by
  unfold target at h
  split at h
  · exact absurd h (by simp)
  rename_i accepted
  split at h
  · exact absurd h (by simp)
  rename_i name above cut
  obtain ⟨parent, found, h⟩ := Success.bind_eq_ok.mp h
  obtain ⟨proper, h⟩ := Success.guard_eq_ok.mp h
  obtain ⟨short, h⟩ := Success.guard_eq_ok.mp h
  obtain ⟨ends, h⟩ := Success.guard_eq_ok.mp h
  -- The path does not end in a slash, so no step has been dropped from its end.
  have whole : (steps path).reverse = name :: above ∧ name ≠ "" := by
    rw [List.getLast?_eq_head?_reverse] at ends
    cases reversed : (steps path).reverse with
    | nil => rw [reversed] at cut; exact absurd cut (by simp)
    | cons last rest =>
      have filled : last ≠ "" := by
        rintro rfl
        exact ends (by rw [reversed]; rfl)
      rw [reversed, List.dropWhile_cons_of_neg (by simpa using filled)] at cut
      exact ⟨cut, (List.cons.inj cut).1 ▸ filled⟩
  have free : t.get? (parent ++ [name]) ≠ some .directory := by
    intro directory
    simp only [directory] at h
    exact absurd h Success.throw_ne_ok
  have made : location = parent ++ [name] := by
    split at h
    · exact absurd h Success.throw_ne_ok
    · exact (Except.ok.inj h).symm
  rw [not_or] at proper
  refine ⟨above.reverse, name, parent, ?_, made⟩
  exact {
    accepted := accepted
    shape := by rw [← List.reverse_cons, ← whole.1, List.reverse_reverse]
    above := found
    named := ⟨by simp [isStill, whole.2, proper.1], proper.2, short⟩
    free := free }

/-! ## Reading what was written -/

/-- From its start to a directory and then to a name there. -/
theorem Replaceable.resolve_set {path : String} {above : List String} {name : String}
    {parent : Location} (h : t.Replaceable path above name parent) (node : Node) :
    (t.set (parent ++ [name]) node).resolve (steps path) = .ok (parent ++ [name]) := by
  obtain ⟨walked, directory⟩ := directory_eq_ok h.above
  obtain ⟨moves, down, short⟩ := h.named
  have begins : (steps path).head? = some "" ↔ above.head? = some "" := by
    rw [h.shape]
    cases above with
    | nil =>
      have filled : name ≠ "" := by
        rintro rfl
        exact absurd moves (by decide)
      simp [filled]
    | cons step above => simp
  have there := get?_set_of_directory h.free node directory
  have found := get?_set_self (t := t) node (ne_nil_of_free h.free)
  have last : (t.set (parent ++ [name]) node).walk parent [name] = .ok (parent ++ [name]) := by
    simp only [walk, there, moves, down, short, found, if_false, Bool.false_eq_true]
  rw [resolve] at walked ⊢
  simp only [begins]
  rw [h.shape, walk_append, Success.bind_eq_ok]
  exact ⟨parent, walk_set h.free node walked, last⟩

/-- What is put at the target of a path is read from it. -/
theorem Replaceable.read_set {path : String} {above : List String} {name : String}
    {parent : Location} (h : t.Replaceable path above name parent) (text : String) :
    (t.set (parent ++ [name]) (.file (.text text))).read path = .ok text := by
  have found := get?_set_self (t := t) (.file (.text text)) (ne_nil_of_free h.free)
  rw [read, h.accepted]
  dsimp only
  rw [h.resolve_set, Success.bind_eq_ok]
  exact ⟨_, rfl, by rw [found]; rfl⟩

/-! ## New names -/

theorem freshName_notMem (taken : List String) : freshName taken ∉ taken := by
  rw [freshName]
  split
  · -- It is longer than every name that is taken.
    intro mem
    have part := List.sublist_flatten_of_mem (List.mem_map_of_mem (f := String.toList) mem)
    have short := part.length_le
    have long : stagedName.toList.length = 10 := rfl
    rw [String.toList_append, List.length_append, String.toList_ofList, List.length_replicate, long,
      List.flatMap] at short
    omega
  · assumption

theorem notMem_keys_of_notMem {name : String} (h : name ∉ t.names) (directory : Location) :
    directory ++ [name] ∉ t.nodes.keys := by
  intro mem
  refine h (List.mem_append_right _ (List.mem_flatten_of_mem mem ?_))
  exact List.mem_append_right _ (List.mem_singleton.mpr rfl)

/-- A walk leads to names of its start and of its steps. -/
theorem mem_of_walk {start last : Location} {steps : List String}
    (h : t.walk start steps = .ok last) {name : String} (mem : name ∈ last) :
    name ∈ start ∨ name ∈ steps := by
  induction steps generalizing start with
  | nil => exact Or.inl (Except.ok.inj h ▸ mem)
  | cons step rest ih =>
    rw [walk, get?_of_walk_cons h] at h
    dsimp only at h
    split at h
    · exact (ih h).imp_right (List.mem_cons_of_mem step)
    split at h
    · exact (ih h).imp (List.dropLast_subset start ·) (List.mem_cons_of_mem step)
    split at h
    · exact absurd h (by simp)
    split at h
    · exact absurd h (by simp)
    · rcases ih h with old | new
      · rcases List.mem_append.mp old with old | here
        · exact Or.inl old
        · exact Or.inr (List.mem_singleton.mp here ▸ List.mem_cons_self)
      · exact Or.inr (List.mem_cons_of_mem step new)

section Unmentioned

variable {directory : Location} {name : String} (node : Node)

theorem get?_set_of_notMem {other : Location} (h : name ∉ other) :
    (t.set (directory ++ [name]) node).get? other = t.get? other := by
  refine get?_set node ?_
  rintro rfl
  exact h (List.mem_append_right _ (List.mem_singleton.mpr rfl))

theorem walk_set_of_notMem {start : Location} {steps : List String} (hstart : name ∉ start)
    (hsteps : name ∉ steps) :
    (t.set (directory ++ [name]) node).walk start steps = t.walk start steps := by
  induction steps generalizing start with
  | nil => rfl
  | cons step rest ih =>
    rw [List.mem_cons, not_or] at hsteps
    have below : name ∉ start ++ [step] := by simp [hstart, hsteps.1]
    rw [walk, walk, get?_set_of_notMem node hstart]
    cases t.get? start with
    | none => rfl
    | some found =>
      cases found with
      | file _ => rfl
      | directory =>
        dsimp only
        rw [get?_set_of_notMem node below, ih hstart hsteps.2, ih below hsteps.2,
          ih (fun mem => hstart (List.dropLast_subset start mem)) hsteps.2]

theorem resolve_set_of_notMem {steps : List String} (hcwd : name ∉ t.cwd)
    (hsteps : name ∉ steps) :
    (t.set (directory ++ [name]) node).resolve steps = t.resolve steps := by
  refine walk_set_of_notMem node ?_ hsteps
  split
  · exact List.not_mem_nil
  · exact hcwd

theorem notMem_of_resolve {steps : List String} {last : Location} (hcwd : name ∉ t.cwd)
    (hsteps : name ∉ steps) (h : t.resolve steps = .ok last) : name ∉ last := by
  intro mem
  rcases mem_of_walk h mem with start | step
  · split at start
    · exact absurd start List.not_mem_nil
    · exact hcwd start
  · exact hsteps step

theorem directory_set_of_notMem {steps : List String} (hcwd : name ∉ t.cwd)
    (hsteps : name ∉ steps) :
    (t.set (directory ++ [name]) node).directory steps = t.directory steps := by
  rw [Tree.directory, Tree.directory, resolve_set_of_notMem node hcwd hsteps]
  cases found : t.resolve steps with
  | error _ => rfl
  | ok last =>
    have apart := notMem_of_resolve hcwd hsteps found
    simp only [bind, Except.bind, get?_set_of_notMem node apart]

/-- **A file whose name does not occur in a path leaves the target of the path alone.** -/
theorem target_set_of_notMem {path : String} (hcwd : name ∉ t.cwd) (hsteps : name ∉ steps path) :
    (t.set (directory ++ [name]) node).target path = t.target path := by
  rw [target, target]
  split
  · rfl
  split
  · rfl
  rename_i last above cut
  have mentioned : ∀ step ∈ last :: above, step ∈ steps path := fun step mem =>
    List.mem_reverse.mp ((List.dropWhile_suffix _).subset (cut ▸ mem))
  have habove : name ∉ above.reverse := fun mem =>
    hsteps (mentioned name (List.mem_cons_of_mem last (List.mem_reverse.mp mem)))
  rw [directory_set_of_notMem node hcwd habove]
  cases found : t.directory above.reverse with
  | error _ => rfl
  | ok parent =>
    have apart : name ∉ parent ++ [last] := by
      have walked := notMem_of_resolve hcwd habove (directory_eq_ok found).1
      have other : name ≠ last := fun same => hsteps (mentioned name (same ▸ List.mem_cons_self))
      simp [walked, other]
    simp only [bind, Except.bind, get?_set_of_notMem node apart]

end Unmentioned

end SchemaTypegen.Files.Tree
