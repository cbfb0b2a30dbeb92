/-!
# Catalogs

A catalog is a finite map that remembers in which order its keys first came. Inserting under a key
that is already there replaces the value and keeps the key's place.

* `keys_insert`: the keys after an insertion.
* `get?_insert`: what is found after an insertion.
* `insert_insert`, `erase_insert`: an insertion is replaced by the next, or taken back.
* `lookup_of_mem`, `mem_of_lookup`: a key is found with the value it stands with.
* `entries_foldl_insert`: the entries after inserting under new keys.
-/

namespace SchemaTypegen

/-- Values under distinct keys, in the order the keys were first inserted. -/
@[ext]
structure Catalog (κ α : Type) where
  entries : List (κ × α)
  nodup : (entries.map Prod.fst).Nodup
  deriving DecidableEq, Repr

namespace Catalog

variable {κ α : Type}

/-- The catalog without entries. -/
def empty : Catalog κ α := ⟨[], List.nodup_nil⟩

/-- The keys, in order. -/
def keys (c : Catalog κ α) : List κ := c.entries.map Prod.fst

/-- The values, in the order of their keys. -/
def values (c : Catalog κ α) : List α := c.entries.map Prod.snd

/-- The number of entries. -/
def size (c : Catalog κ α) : Nat := c.entries.length

variable [DecidableEq κ]

/-- The value under a key in a list of entries. -/
def lookup (key : κ) : List (κ × α) → Option α
  | [] => none
  | (k, a) :: rest => if k = key then some a else lookup key rest

/-- Replaces the value under a key, or adds the pair at the end. -/
def put (key : κ) (value : α) : List (κ × α) → List (κ × α)
  | [] => [(key, value)]
  | (k, a) :: rest => if k = key then (k, value) :: rest else (k, a) :: put key value rest

theorem map_fst_put (key : κ) (value : α) (l : List (κ × α)) :
    (put key value l).map Prod.fst =
      if key ∈ l.map Prod.fst then l.map Prod.fst else l.map Prod.fst ++ [key] := by
  induction l with
  | nil => simp [put]
  | cons e rest ih =>
    obtain ⟨k, a⟩ := e
    by_cases h : k = key
    · simp [put, h]
    · have h' : key ≠ k := fun e => h e.symm
      simp only [put, if_neg h, List.map_cons, ih, List.mem_cons, h', false_or]
      split <;> rfl

theorem nodup_map_fst_put (key : κ) (value : α) {l : List (κ × α)}
    (h : (l.map Prod.fst).Nodup) : ((put key value l).map Prod.fst).Nodup := by
  rw [map_fst_put]
  split
  · exact h
  · rename_i hkey
    refine List.nodup_append.mpr ⟨h, by simp, fun a ha b hb => ?_⟩
    rw [List.mem_singleton.mp hb]
    exact fun e => hkey (e ▸ ha)

/-- The value under a key. -/
def get? (c : Catalog κ α) (key : κ) : Option α := lookup key c.entries

/-- Inserts a value under a key. -/
def insert (c : Catalog κ α) (key : κ) (value : α) : Catalog κ α :=
  ⟨put key value c.entries, nodup_map_fst_put key value c.nodup⟩

/-- Takes out what is under a key. -/
def erase (c : Catalog κ α) (key : κ) : Catalog κ α :=
  ⟨c.entries.filter (·.1 ≠ key), c.nodup.sublist (List.filter_sublist.map Prod.fst)⟩

/-- A catalog of pairs inserted one after another. -/
def ofList (pairs : List (κ × α)) : Catalog κ α :=
  pairs.foldl (fun c (key, value) => c.insert key value) empty

theorem put_of_notMem {key : κ} {value : α} {l : List (κ × α)} (fresh : key ∉ l.map Prod.fst) :
    put key value l = l ++ [(key, value)] := by
  induction l with
  | nil => rfl
  | cons e l ih =>
    rw [List.map_cons, List.mem_cons, not_or] at fresh
    rw [put, if_neg fun h => fresh.1 h.symm, ih fresh.2]
    rfl

theorem put_put (key : κ) (value value' : α) (l : List (κ × α)) :
    put key value' (put key value l) = put key value' l := by
  induction l with
  | nil => simp [put]
  | cons e l ih =>
    obtain ⟨k, a⟩ := e
    by_cases h : k = key <;> simp [put, h, ih]

theorem insert_insert (c : Catalog κ α) (key : κ) (value value' : α) :
    (c.insert key value).insert key value' = c.insert key value' :=
  Catalog.ext (put_put key value value' c.entries)

/-- What was inserted under a new key is taken out without a trace. -/
theorem erase_insert {c : Catalog κ α} {key : κ} (fresh : key ∉ c.keys) (value : α) :
    (c.insert key value).erase key = c := by
  have others : c.entries.filter (·.1 ≠ key) = c.entries := by
    refine List.filter_eq_self.mpr fun e he => ?_
    have apart : e.1 ≠ key := fun same => fresh (same ▸ List.mem_map_of_mem he)
    simpa using apart
  have added : (c.insert key value).entries = c.entries ++ [(key, value)] := put_of_notMem fresh
  have taken : (c.insert key value).entries.filter (·.1 ≠ key) = c.entries := by
    rw [added, List.filter_append, others]
    simp
  exact Catalog.ext taken

theorem keys_insert (c : Catalog κ α) (key : κ) (value : α) :
    (c.insert key value).keys = if key ∈ c.keys then c.keys else c.keys ++ [key] :=
  map_fst_put key value c.entries

theorem lookup_put (key key' : κ) (value : α) (l : List (κ × α)) :
    lookup key' (put key value l) = if key = key' then some value else lookup key' l := by
  induction l with
  | nil => simp [put, lookup]
  | cons e rest ih =>
    obtain ⟨k, a⟩ := e
    by_cases h : k = key
    · subst h
      by_cases h' : k = key' <;> simp [put, lookup, h']
    · by_cases h' : k = key'
      · subst h'
        have : key ≠ k := fun e => h e.symm
        simp [put, lookup, h, this]
      · simp [put, lookup, h, h', ih]

theorem get?_insert (c : Catalog κ α) (key key' : κ) (value : α) :
    (c.insert key value).get? key' = if key = key' then some value else c.get? key' :=
  lookup_put key key' value c.entries

theorem mem_of_lookup {key : κ} {value : α} {l : List (κ × α)} (h : lookup key l = some value) :
    (key, value) ∈ l := by
  induction l with
  | nil => simp [lookup] at h
  | cons e rest ih =>
    obtain ⟨k, a⟩ := e
    simp only [lookup] at h
    split at h
    · rename_i hk
      simp_all
    · exact List.mem_cons_of_mem _ (ih h)

theorem lookup_of_mem {key : κ} {value : α} {l : List (κ × α)} (distinct : (l.map Prod.fst).Nodup)
    (h : (key, value) ∈ l) : lookup key l = some value := by
  induction l with
  | nil => exact absurd h List.not_mem_nil
  | cons e l ih =>
    rw [List.map_cons, List.nodup_cons] at distinct
    rcases List.mem_cons.mp h with rfl | h
    · exact if_pos rfl
    · have apart : e.1 ≠ key := fun same => distinct.1 (same ▸ List.mem_map_of_mem h)
      rw [lookup, if_neg apart, ih distinct.2 h]

/-- Values under distinct new keys, inserted one after another, stand at the end. -/
theorem entries_foldl_insert {β : Type} (key : β → κ) (value : β → α) (l : List β) :
    ∀ c : Catalog κ α, (l.map key).Nodup → (∀ b ∈ l, key b ∉ c.keys) →
      (l.foldl (fun c b => c.insert (key b) (value b)) c).entries =
        c.entries ++ l.map fun b => (key b, value b) := by
  induction l with
  | nil => exact fun c _ _ => (List.append_nil c.entries).symm
  | cons b l ih =>
    intro c distinct fresh
    rw [List.map_cons, List.nodup_cons] at distinct
    have added : (c.insert (key b) (value b)).entries = c.entries ++ [(key b, value b)] :=
      put_of_notMem (fresh b List.mem_cons_self)
    rw [List.foldl_cons, ih _ distinct.2, added, List.append_assoc]
    · rfl
    · intro d hd
      rw [keys, added, List.map_append, List.mem_append, not_or]
      refine ⟨fresh d (List.mem_cons_of_mem b hd), fun e => ?_⟩
      have same : key d = key b := by simpa using e
      exact distinct.1 (same ▸ List.mem_map_of_mem hd)

theorem mem_values_of_get? {c : Catalog κ α} {key : κ} {value : α} (h : c.get? key = some value) :
    value ∈ c.values :=
  List.mem_map_of_mem (mem_of_lookup h)

end Catalog

end SchemaTypegen
