import Mathlib.Data.List.Forall2

/-!
# What a success says about its parts

A computation that may fail succeeds only if its parts do. These lemmas take a success apart, for
one step, for a list of independent steps, and for a fold.
-/

namespace SchemaTypegen.Success

variable {ε α β : Type}

theorem map_eq_ok {f : α → β} {x : Except ε α} {b : β} :
    x.map f = .ok b ↔ ∃ a, x = .ok a ∧ f a = b := by
  cases x <;> simp [Except.map]

theorem bind_eq_ok {f : α → Except ε β} {x : Except ε α} {b : β} :
    x >>= f = .ok b ↔ ∃ a, x = .ok a ∧ f a = .ok b := by
  cases x <;> simp [bind, Except.bind]

theorem bind_pure_eq_ok {x : Except ε α} {f : α → β} {b : β} :
    (x >>= fun a => pure (f a)) = .ok b ↔ ∃ a, x = .ok a ∧ f a = b :=
  bind_eq_ok.trans
    ⟨fun ⟨a, ha, h⟩ => ⟨a, ha, Except.ok.inj h⟩, fun ⟨a, ha, h⟩ => ⟨a, ha, congrArg Except.ok h⟩⟩

theorem throw_ne_ok {e : ε} {a : α} : (throw e : Except ε α) ≠ .ok a := by
  simp [throw, throwThe, MonadExceptOf.throw]

/-- What follows a check is reached only if nothing is wrong. -/
theorem guard_eq_ok {wrong : Prop} [Decidable wrong] {e : ε} {next : Unit → Except ε α} {a : α} :
    (if wrong then throw e >>= next else next ()) = .ok a ↔ ¬ wrong ∧ next () = .ok a := by
  split
  · rename_i bad
    exact ⟨fun h => absurd h throw_ne_ok, fun h => absurd bad h.1⟩
  · rename_i good
    exact ⟨fun h => ⟨good, h⟩, fun h => h.2⟩

theorem mapM_eq_ok {f : α → Except ε β} {xs : List α} {ys : List β} :
    xs.mapM f = .ok ys ↔ List.Forall₂ (fun x y => f x = .ok y) xs ys := by
  induction xs generalizing ys with
  | nil =>
    rw [List.mapM_nil, List.forall₂_nil_left_iff]
    exact ⟨fun h => (Except.ok.inj h).symm, fun h => h ▸ rfl⟩
  | cons x xs ih =>
    rw [List.mapM_cons, bind_eq_ok, List.forall₂_cons_left_iff]
    constructor
    · rintro ⟨y, hy, h⟩
      obtain ⟨zs, hzs, h⟩ := bind_eq_ok.mp h
      exact ⟨y, zs, hy, ih.mp hzs, (Except.ok.inj h).symm⟩
    · rintro ⟨y, zs, hy, hzs, rfl⟩
      exact ⟨y, hy, bind_eq_ok.mpr ⟨zs, ih.mpr hzs, rfl⟩⟩

/-- Everything that comes of a list of steps comes of one of them. -/
theorem exists_of_mapM {f : α → Except ε β} {xs : List α} {ys : List β} (h : xs.mapM f = .ok ys)
    {y : β} (hy : y ∈ ys) : ∃ x ∈ xs, f x = .ok y := by
  rw [mapM_eq_ok] at h
  induction h with
  | nil => exact absurd hy List.not_mem_nil
  | @cons x z xs zs first _ ih =>
    rcases List.mem_cons.mp hy with rfl | hy
    · exact ⟨x, List.mem_cons_self, first⟩
    · obtain ⟨w, hw, h⟩ := ih hy
      exact ⟨w, List.mem_cons_of_mem x hw, h⟩

/-- Everything that one of a list of steps gives is there. -/
theorem mem_of_mapM {f : α → Except ε β} {xs : List α} {ys : List β} (h : xs.mapM f = .ok ys)
    {x : α} (hx : x ∈ xs) {y : β} (hy : f x = .ok y) : y ∈ ys := by
  rw [mapM_eq_ok] at h
  induction h with
  | nil => exact absurd hx List.not_mem_nil
  | @cons w z xs ys first _ ih =>
    rcases List.mem_cons.mp hx with rfl | hx
    · obtain rfl := Except.ok.inj (first.symm.trans hy)
      exact List.mem_cons_self
    · exact List.mem_cons_of_mem z (ih hx)

/-- Every one of a list of steps succeeds. -/
theorem succeeds_of_mapM {f : α → Except ε β} {xs : List α} {ys : List β} (h : xs.mapM f = .ok ys)
    {x : α} (hx : x ∈ xs) : ∃ y, f x = .ok y := by
  rw [mapM_eq_ok] at h
  induction h with
  | nil => exact absurd hx List.not_mem_nil
  | @cons w y xs ys first _ ih =>
    rcases List.mem_cons.mp hx with rfl | hx
    · exact ⟨y, first⟩
    · exact ih hx

/-- A list of steps succeeds exactly if every one of them does. -/
theorem exists_mapM_iff {f : α → Except ε β} {xs : List α} :
    (∃ ys, xs.mapM f = .ok ys) ↔ ∀ x ∈ xs, ∃ y, f x = .ok y := by
  refine ⟨fun ⟨ys, h⟩ x hx => succeeds_of_mapM h hx, fun h => ?_⟩
  simp only [mapM_eq_ok]
  induction xs with
  | nil => exact ⟨[], .nil⟩
  | cons x xs ih =>
    obtain ⟨y, hy⟩ := h x List.mem_cons_self
    obtain ⟨ys, hys⟩ := ih fun z hz => h z (List.mem_cons_of_mem x hz)
    exact ⟨y :: ys, .cons hy hys⟩

/-- What every step of a fold keeps holds at its end. -/
theorem foldlM_induction {f : β → α → Except ε β} {P : β → Prop} {xs : List α} {b b' : β}
    (h : xs.foldlM f b = .ok b') (start : P b)
    (step : ∀ c x c', x ∈ xs → P c → f c x = .ok c' → P c') : P b' := by
  induction xs generalizing b with
  | nil => exact Except.ok.inj h ▸ start
  | cons x xs ih =>
    rw [List.foldlM_cons, bind_eq_ok] at h
    obtain ⟨c, first, rest⟩ := h
    refine ih rest (step b x c List.mem_cons_self start first) ?_
    exact fun c y c' hy => step c y c' (List.mem_cons_of_mem x hy)

end SchemaTypegen.Success
