import SchemaTypegen.Proofs.Resolution.Entries

/-!
# The normal form of a schema is resolved to what it stands for

Once entries are taken apart, resolving is looking names up, and `checked` says all there is to
that: the value, unless one of the references is not in the table, and then the first such reference
is the error. It is closed under binding, mapping and folding, so each function of the resolver has
one equation with `checked` on its right side, from a single type up to the whole document.

* `ofDefinitions_named`: the table knows exactly the built-in scalars and the labels of named types.
* **`ofDocument_document`**: with every name declared the result is the schema the tree stands for;
  otherwise it is the first undeclared name, with its place.
-/

namespace SchemaTypegen

open Text Grammar

/-! ## References that are looked up in order -/

namespace NameTable

variable {α β : Type} (table : NameTable)

/-- The value, or the first of the references that is not in the table. -/
def checked (references : List (String × Place)) (value : α) : Except Error α :=
  match references.find? fun r => (table.kind? r.1).isNone with
  | some r => .error (.unresolved r.1 r.2)
  | none => .ok value

theorem checked_bind {f : α → Except Error β} {refs refs' : List (String × Place)} {a : α} {b : β}
    (h : f a = table.checked refs' b) :
    (table.checked refs a >>= f) = table.checked (refs ++ refs') b := by
  rw [checked, checked, List.find?_append]
  cases refs.find? fun r => (table.kind? r.1).isNone with
  | some r => rfl
  | none => exact h

theorem checked_then {f : α → Except Error β} {refs : List (String × Place)} {a : α} {b : β}
    (h : f a = .ok b) : (table.checked refs a >>= f) = table.checked refs b :=
  (table.checked_bind (h.trans rfl)).trans (congrArg (table.checked · b) (List.append_nil refs))

theorem mapM_checked {f : α → Except Error β} {refs : α → List (String × Place)} {g : α → β} :
    ∀ xs : List α, (∀ x ∈ xs, f x = table.checked (refs x) (g x)) →
      xs.mapM f = table.checked (xs.flatMap refs) (xs.map g)
  | [], _ => rfl
  | x :: xs, h => by
    have first := h x List.mem_cons_self
    have rest := mapM_checked xs fun y hy => h y (List.mem_cons_of_mem x hy)
    rw [List.mapM_cons, first, rest, List.flatMap_cons, List.map_cons]
    exact table.checked_bind (table.checked_then rfl)

/-- Folding, with an invariant of what is there and what is still to come. -/
theorem foldlM_checked {f : β → α → Except Error β} {refs : α → List (String × Place)}
    {g : β → α → β} (inv : β → List α → Prop)
    (step : ∀ b x xs, inv b (x :: xs) → f b x = table.checked (refs x) (g b x) ∧ inv (g b x) xs) :
    ∀ (xs : List α) (b : β), inv b xs →
      xs.foldlM f b = table.checked (xs.flatMap refs) (xs.foldl g b)
  | [], _, _ => rfl
  | x :: xs, b, h => by
    obtain ⟨first, h'⟩ := step b x xs h
    rw [List.foldlM_cons, first, List.flatMap_cons, List.foldl_cons]
    exact table.checked_bind (foldlM_checked inv step xs (g b x) h')

end NameTable

/-! ## The table -/

theorem Scalar.label_of_ofLabel? {label : String} {s : Scalar} (h : ofLabel? label = some s) :
    s.label = label := by
  simpa using List.find?_some h

theorem Scalar.label_ne_of_ofLabel? {label : String} (h : ofLabel? label = none) (s : Scalar) :
    s.label ≠ label := by
  have absent := List.find?_eq_none.mp h s (by cases s <;> decide)
  simpa using absent

namespace NameTable

theorem kind?_builtin (label : String) :
    builtin.kind? label = (Scalar.ofLabel? label).map fun _ => .scalar := by
  cases h : Scalar.ofLabel? label with
  | some s =>
    obtain rfl := Scalar.label_of_ofLabel? h
    cases s <;> decide
  | none =>
    have absent := Scalar.label_ne_of_ofLabel? h
    simp only [builtin, kind?, Scalar.all, List.map_cons, List.map_nil, Catalog.ofList,
      List.foldl_cons, List.foldl_nil, Catalog.get?_insert, absent, if_false]
    rfl

theorem add_definition {table : NameTable} {i : Item} (fresh : table.kind? i.label.text = none) :
    table.add i.definition =
      .ok ⟨table.kinds.insert i.label.text i.shape.keyword.kind⟩ := by
  simp only [add, Item.definition, i.spelled, fresh]

/-- Adding declarations with new labels, one after another. -/
theorem foldlM_add (items : List Item) : ∀ table : NameTable,
    (items.map fun i => i.label.text).Nodup → (∀ i ∈ items, table.kind? i.label.text = none) →
    ∃ table', (items.map Item.definition).foldlM add table = .ok table' ∧ ∀ label,
      table'.kind? label = (table.kind? label).or
        ((items.find? fun i => i.label.text == label).map fun i => i.shape.keyword.kind) := by
  induction items with
  | nil =>
    intro table _ _
    refine ⟨table, rfl, fun label => ?_⟩
    rw [List.find?_nil, Option.map_none, Option.or_none]
  | cons i items ih =>
    intro table distinct fresh
    rw [List.map_cons, List.nodup_cons] at distinct
    have added := add_definition (fresh i List.mem_cons_self)
    have kind : ∀ label, kind? ⟨table.kinds.insert i.label.text i.shape.keyword.kind⟩ label =
        if i.label.text = label then some i.shape.keyword.kind else table.kind? label :=
      fun label => Catalog.get?_insert table.kinds i.label.text label _
    have fresh' : ∀ j ∈ items,
        kind? ⟨table.kinds.insert i.label.text i.shape.keyword.kind⟩ j.label.text = none := by
      intro j hj
      have apart : i.label.text ≠ j.label.text :=
        fun e => distinct.1 (e ▸ List.mem_map_of_mem hj)
      rw [kind, if_neg apart, fresh j (List.mem_cons_of_mem i hj)]
    obtain ⟨table', run, known⟩ := ih _ distinct.2 fresh'
    refine ⟨table', ?_, fun label => ?_⟩
    · rw [List.map_cons, List.foldlM_cons, added]
      exact run
    · rw [known, kind]
      by_cases h : i.label.text = label
      · have found : (i :: items).find? (fun j => j.label.text == label) = some i :=
          List.find?_cons_of_pos (by simpa using h)
        rw [if_pos h, found, ← h, fresh i List.mem_cons_self]
        rfl
      · rw [if_neg h, List.find?_cons_of_neg (by simpa using h)]

/-- What the table of a schema knows: the built-in scalars and the named types. -/
def Knows (table : NameTable) (items : List Item) : Prop :=
  ∀ label, table.kind? label =
    ((Scalar.ofLabel? label).map fun _ => Kind.scalar).or (kindOf? items label)

theorem ofDefinitions_named {items : List Item} (h : WellFormed items) :
    ∃ table, ofDefinitions (document items).types = .ok table ∧ table.Knows items := by
  have fresh : ∀ i ∈ named items, builtin.kind? i.label.text = none := by
    intro i hi
    rw [kind?_builtin, h.scalars i hi]
    rfl
  obtain ⟨table, run, known⟩ := foldlM_add (named items) builtin h.labels fresh
  refine ⟨table, run, fun label => ?_⟩
  rw [known, kind?_builtin]
  rfl

end NameTable

/-! ## Looking declarations up -/

theorem kindOf?_of_mem {items : List Item} (h : WellFormed items) {i : Item}
    (hi : i ∈ named items) : kindOf? items i.label.text = some i.shape.keyword.kind := by
  have found : ∀ l : List Item, (l.map fun j => j.label.text).Nodup → i ∈ l →
      l.find? (fun j => j.label.text == i.label.text) = some i := by
    intro l
    induction l with
    | nil => exact fun _ hi => absurd hi List.not_mem_nil
    | cons j l ih =>
      intro distinct hi
      rw [List.map_cons, List.nodup_cons] at distinct
      rcases List.mem_cons.mp hi with rfl | hi
      · exact List.find?_cons_of_pos (by simp)
      · have apart : j.label.text ≠ i.label.text :=
          fun e => distinct.1 (e ▸ List.mem_map_of_mem hi)
        rw [List.find?_cons_of_neg (by simpa using apart)]
        exact ih distinct.2 hi
  rw [kindOf?, found _ h.labels hi]
  rfl

theorem Grammar.Shape.entries_of_fields? {fields : List FieldDecl} :
    ∀ s : Shape, s.fields? = some fields → s.entries = fields.map FieldDecl.text
  | .type _ _, h | .interface _ _, h | .input _, h => by
    obtain rfl := Option.some.inj h
    rfl

theorem Resolve.firstRepeated?_eq_none (names : List String) : ∀ seen : List String,
    names.Nodup → (∀ name ∈ names, name ∉ seen) → firstRepeated? seen names = none := by
  induction names with
  | nil => exact fun _ _ _ => rfl
  | cons name names ih =>
    intro seen distinct fresh
    rw [List.nodup_cons] at distinct
    rw [firstRepeated?, if_neg (fresh name List.mem_cons_self)]
    refine ih (name :: seen) distinct.2 fun other ho => ?_
    rw [List.mem_cons, not_or]
    exact ⟨fun e => distinct.1 (e ▸ ho), fresh other (List.mem_cons_of_mem name ho)⟩

/-! ## Collecting declarations -/

theorem Roots.get?_insert (roots : Roots) (key kind : RootKind) (operation : RootOperation) :
    (roots.insert key operation).get? kind =
      if key = kind then some operation else roots.get? kind := by
  cases key <;> cases kind <;> rfl

theorem Roots.eq_of_get? {roots roots' : Roots} (h : ∀ kind, roots.get? kind = roots'.get? kind) :
    roots = roots' := by
  cases roots
  cases roots'
  exact congr (congr (congrArg Roots.mk (h .query)) (h .mutation)) (h .subscription)

variable {items : List Item}

/-- Stores the operation of a root block that has requests. -/
def Grammar.Item.store (items : List Item) (roots : Roots) (i : Item) : Roots :=
  match i.rootKind? with
  | none => roots
  | some kind =>
    if (i.requests items).isEmpty then roots else roots.insert kind ⟨kind, i.requests items⟩

theorem Grammar.Item.get?_store_of_ne {roots : Roots} {i : Item} {kind : RootKind}
    (apart : i.rootKind? ≠ some kind) : (i.store items roots).get? kind = roots.get? kind := by
  unfold store
  split
  · rfl
  · rename_i other hother
    have ne : other ≠ kind := fun e => apart (hother.trans (congrArg some e))
    split
    · rfl
    · rw [Roots.get?_insert, if_neg ne]

/-- The blocks of distinct roots, stored one after another. -/
theorem get?_foldl_store {kind : RootKind} (l : List Item) : ∀ roots : Roots,
    (l.map Item.rootKind?).Nodup → (l.foldl (Item.store items) roots).get? kind =
      match (l.find? fun i => i.rootKind? == some kind).map (Item.requests items) with
      | none | some [] => roots.get? kind
      | some (r :: requests) => some ⟨kind, r :: requests⟩ := by
  induction l with
  | nil => exact fun _ _ => rfl
  | cons i l ih =>
    intro roots distinct
    rw [List.map_cons, List.nodup_cons] at distinct
    rw [List.foldl_cons, ih _ distinct.2]
    by_cases h : i.rootKind? = some kind
    · have others : l.find? (fun j => j.rootKind? == some kind) = none := by
        rw [List.find?_eq_none]
        intro j hj e
        exact distinct.1 (h.trans (beq_iff_eq.mp e).symm ▸ List.mem_map_of_mem hj)
      rw [others, List.find?_cons_of_pos (by simpa using h), Option.map_some, Item.store, h]
      cases i.requests items with
      | nil => rfl
      | cons r requests => exact (Roots.get?_insert ..).trans (if_pos rfl)
    · rw [Item.get?_store_of_ne h, List.find?_cons_of_neg (by simpa using h)]

theorem foldl_store (h : ((rooted items).map Item.rootKind?).Nodup) :
    (rooted items).foldl (Item.store items) {} = Grammar.roots items := by
  refine Roots.eq_of_get? fun kind => ?_
  rw [get?_foldl_store _ _ h]
  cases kind <;> rfl

theorem isEmpty_document (h : items ≠ []) : (document items).isEmpty = false := by
  obtain ⟨i, l, rfl⟩ := List.exists_cons_of_ne_nil h
  unfold Document.isEmpty document
  cases hk : i.rootKind? with
  | none => simp [hk]
  | some kind => simp [hk]

/-! ## Names, types and fields -/

theorem ne_scalar_of_kindOf? {items : List Item} {label : String} {kind : Kind}
    (h : kindOf? items label = some kind) : kind ≠ .scalar := by
  obtain ⟨i, -, rfl⟩ := Option.map_eq_some_iff.mp h
  cases i.shape.keyword <;> decide

section Resolving

variable {table : NameTable} {items : List Item} (known : table.Knows items)

include known

theorem NameTable.isNone_kind?_iff (label : String) :
    (table.kind? label).isNone = true ↔ ¬ Declared items label := by
  rw [known label, Declared, kindOf?]
  cases Scalar.ofLabel? label with
  | some s => simp
  | none => simp

theorem NameTable.resolve_eq (label : String) (place : Place) :
    table.resolve label place = table.checked [(label, place)] (baseOf items label) := by
  have kind := known label
  rw [resolve, checked, List.find?_singleton, baseOf]
  cases hs : Scalar.ofLabel? label with
  | some s =>
    rw [hs] at kind
    simp [kind]
  | none =>
    rw [hs, Option.map_none, Option.none_or] at kind
    cases hk : kindOf? items label with
    | none => simp [kind, hk]
    | some k =>
      have notScalar : k ≠ .scalar := ne_scalar_of_kindOf? hk
      rw [hk] at kind
      cases k <;> simp_all

namespace Resolve

theorem fieldType_text (d : Definition) (t : TypeExpr) (place : Place) :
    fieldType table d t.text place = table.checked [(t.base.text, place)] (t.fieldType items) := by
  rw [fieldType, t.ofText?_text]
  exact (congrArg (· >>= _) (table.resolve_eq known _ place)).trans (table.checked_then rfl)

theorem argument_text (d : Definition) (name : String) (a : ArgumentDecl) :
    argument table d name a.text =
      table.checked [(a.type.base.text, .argument a.name.text d.label name)] (a.field items) := by
  rw [argument, a.cutAt_text]
  simp only [String.ofList_toList, fieldType_text known]
  exact table.checked_then rfl

theorem mapM_argument_text (d : Definition) (name : String) (arguments : List ArgumentDecl) :
    (arguments.map ArgumentDecl.text).mapM (argument table d name) =
      table.checked
        (arguments.map fun a => (a.type.base.text, .argument a.name.text d.label name))
        (arguments.map (ArgumentDecl.field items)) := by
  rw [List.mapM_map, List.map_eq_flatMap]
  exact table.mapM_checked _ fun a _ => argument_text known d name a

theorem request_text (d : Definition) (f : FieldDecl) :
    request table d f.text = table.checked (f.requestReferences d.label) (f.request items) := by
  rw [request, f.splitRequest?_text]
  simp only [f.requestParts_head, mapM_argument_text known, String.ofList_toList,
    fieldType_text known]
  exact table.checked_bind (table.checked_then rfl)

theorem field_text (d : Definition) (f : FieldDecl) :
    field table d f.text = table.checked (f.fieldReferences d.label) (f.field items) := by
  rw [field, f.contains_openParen, FieldDecl.fieldReferences]
  cases h : f.arguments with
  | some arguments =>
    simp only [Option.isSome_some, if_true, request_text known]
    exact table.checked_then rfl
  | none =>
    simp only [Option.isSome_none, Bool.false_eq_true, if_false]
    rw [f.toList_text, FieldDecl.head_of_none h, cutAt_append f.name.colon_notMem]
    simp only [String.ofList_toList, fieldType_text known]
    exact table.checked_then rfl

theorem mapM_request_text (d : Definition) (fields : List FieldDecl) :
    (fields.map FieldDecl.text).mapM (request table d) =
      table.checked (fields.flatMap (FieldDecl.requestReferences d.label))
        (fields.map (FieldDecl.request items)) := by
  rw [List.mapM_map]
  exact table.mapM_checked _ fun f _ => request_text known d f

theorem mapM_field_text (d : Definition) (fields : List FieldDecl) :
    (fields.map FieldDecl.text).mapM (field table d) =
      table.checked (fields.flatMap (FieldDecl.fieldReferences d.label))
        (fields.map (FieldDecl.field items)) := by
  rw [List.mapM_map]
  exact table.mapM_checked _ fun f _ => field_text known d f

theorem mapM_resolve_text (place : Place) (names : List Name) :
    ((names.map Name.text).mapM fun member => table.resolve member place) =
      table.checked (names.map fun n => (n.text, place))
        (names.map fun n => baseOf items n.text) := by
  rw [List.mapM_map, List.map_eq_flatMap]
  exact table.mapM_checked _ fun n _ => table.resolve_eq known n.text place

/-! ## Declarations -/

theorem body_definition (i : Item) :
    body table i.definition i.shape.keyword.kind =
      table.checked i.typeReferences (i.body items) := by
  obtain ⟨label, shape, spelling, line, spelled⟩ := i
  cases shape with
  | type _ fields | interface _ fields | input fields =>
    have read :=
      mapM_field_text known ⟨spelling, label.text, fields.map FieldDecl.text, line⟩ fields
    exact (congrArg (· >>= _) read).trans (table.checked_then rfl)
  | enum names => rfl
  | union first others =>
    have read := mapM_resolve_text known (.union label.text) (first :: others)
    exact (congrArg (· >>= _) read).trans (table.checked_then rfl)

theorem typeDef_definition (h : WellFormed items) {i : Item} (hi : i ∈ named items) :
    typeDef table i.definition = table.checked i.typeReferences (i.typeDef items) := by
  have kind : table.kind? i.definition.label = some i.shape.keyword.kind := by
    have found := kindOf?_of_mem h hi
    rw [known, Item.definition, h.scalars i hi, found]
    rfl
  rw [typeDef, kind]
  exact (congrArg (· >>= _) (body_definition known i)).trans (table.checked_then rfl)

theorem foldlM_addType (h : WellFormed items) (types : Catalog String TypeDef) :
    ((named items).map Item.definition).foldlM (addType table) types =
      table.checked ((named items).flatMap Item.typeReferences)
        ((named items).foldl (fun c i => c.insert i.label.text (i.typeDef items)) types) := by
  rw [List.foldlM_map]
  refine table.foldlM_checked (fun _ l => ∀ i ∈ l, i ∈ named items) ?_ _ types fun _ hi => hi
  intro types i l mem
  refine ⟨?_, fun j hj => mem j (List.mem_cons_of_mem i hj)⟩
  have read := typeDef_definition known h (mem i List.mem_cons_self)
  exact (congrArg (· >>= _) read).trans (table.checked_then rfl)

theorem addRoot_definition (h : WellFormed items) {i : Item} (hi : i ∈ rooted items)
    {roots : Roots} (free : ∀ kind, i.rootKind? = some kind → roots.get? kind = none) :
    addRoot table roots i.definition = table.checked i.rootReferences (i.store items roots) := by
  obtain ⟨fields, hfields⟩ := Option.isSome_iff_exists.mp (h.rootFields i hi)
  obtain ⟨kind, hkind⟩ := Option.isSome_iff_exists.mp (List.mem_filter.mp hi).2
  have requests : i.requests items = fields.map (FieldDecl.request items) := by
    rw [Item.requests, hfields]
    rfl
  have entries : i.definition.entries = fields.map FieldDecl.text :=
    i.shape.entries_of_fields? hfields
  have refs :
      i.rootReferences = fields.flatMap (FieldDecl.requestReferences i.definition.label) := by
    rw [Item.rootReferences, hfields]
    rfl
  have distinct : firstRepeated? [] ((i.requests items).map Request.name) = none := by
    have names := h.requests i hi
    rw [hfields] at names
    rw [requests, List.map_map]
    exact firstRepeated?_eq_none _ [] names fun _ _ => List.not_mem_nil
  have root : i.definition.rootKind? = some kind := hkind
  simp only [addRoot, root, free kind hkind, entries, mapM_request_text known, ← requests, ← refs]
  refine table.checked_then ?_
  simp only [distinct, Item.store, hkind]
  rfl

theorem foldlM_addRoot (h : WellFormed items) :
    ((rooted items).map Item.definition).foldlM (addRoot table) {} =
      table.checked ((rooted items).flatMap Item.rootReferences)
        ((rooted items).foldl (Item.store items) {}) := by
  rw [List.foldlM_map]
  -- What is still to come has its root free, and no two of it have the same root.
  refine table.foldlM_checked (fun (roots : Roots) l => (l.map Item.rootKind?).Nodup ∧ ∀ i ∈ l,
    i ∈ rooted items ∧ ∀ kind, i.rootKind? = some kind → roots.get? kind = none) ?_ _ _ ?_
  · rintro roots i l ⟨distinct, mem⟩
    rw [List.map_cons, List.nodup_cons] at distinct
    obtain ⟨hi, free⟩ := mem i List.mem_cons_self
    refine ⟨addRoot_definition known h hi free, distinct.2, fun j hj => ?_⟩
    obtain ⟨hj', free'⟩ := mem j (List.mem_cons_of_mem i hj)
    refine ⟨hj', fun kind hkind => ?_⟩
    have apart : i.rootKind? ≠ some kind :=
      fun e => distinct.1 (e.trans hkind.symm ▸ List.mem_map_of_mem hj)
    rw [Item.get?_store_of_ne apart, free' kind hkind]
  · exact ⟨h.rootKinds, fun i hi => ⟨hi, fun kind _ => by cases kind <;> rfl⟩⟩

end Resolve

theorem Schema.ofDocument_eq_checked (h : WellFormed items)
    (built : NameTable.ofDefinitions (document items).types = .ok table) :
    ∃ m : Schema, Schema.ofDocument (document items) = table.checked (references items) m ∧
      m.roots = Grammar.roots items ∧ m.types.entries = typeEntries items := by
  have entries := Catalog.entries_foldl_insert (fun i => i.label.text) (Item.typeDef items)
    (named items) Catalog.empty h.labels fun _ _ => List.not_mem_nil
  refine ⟨⟨_, _⟩, ?_, foldl_store h.rootKinds, entries⟩
  have rootsRead := Resolve.foldlM_addRoot known h
  have typesRead := Resolve.foldlM_addType known h Catalog.empty
  rw [ofDocument, isEmpty_document h.nonempty, if_neg Bool.false_ne_true, built]
  show (((rooted items).map Item.definition).foldlM (Resolve.addRoot table) {} >>= fun roots =>
    ((named items).map Item.definition).foldlM (Resolve.addType table) Catalog.empty >>=
      fun types => pure (Schema.mk roots types)) = _
  rw [rootsRead, typesRead]
  exact table.checked_bind (table.checked_then rfl)

end Resolving

/-- **The normal form of a schema is resolved to what it stands for.** If every name is declared,
the result has the root blocks with requests and the named types, in order and in full; otherwise it
is the first name that is not declared, with its place. -/
theorem Schema.ofDocument_document {items : List Item} (h : WellFormed items) :
    ((∀ r ∈ references items, Declared items r.1) →
      ∃ m : Schema, Schema.ofDocument (document items) = .ok m ∧
        m.roots = Grammar.roots items ∧ m.types.entries = typeEntries items) ∧
    ∀ pre r post, references items = pre ++ r :: post → (∀ q ∈ pre, Declared items q.1) →
      ¬ Declared items r.1 →
      Schema.ofDocument (document items) = .error (.unresolved r.1 r.2) := by
  obtain ⟨table, built, known⟩ := NameTable.ofDefinitions_named h
  obtain ⟨m, result, roots, types⟩ := Schema.ofDocument_eq_checked known h built
  have passed : ∀ refs : List (String × Place), (∀ r ∈ refs, Declared items r.1) →
      refs.find? (fun r => (table.kind? r.1).isNone) = none := by
    intro refs declared
    rw [List.find?_eq_none]
    exact fun r hr missing => (table.isNone_kind?_iff known r.1).mp missing (declared r hr)
  rw [result, NameTable.checked]
  constructor
  · intro declared
    rw [passed _ declared]
    exact ⟨m, rfl, roots, types⟩
  · intro pre r post split declared missing
    have stops : (r :: post).find? (fun r => (table.kind? r.1).isNone) = some r :=
      List.find?_cons_of_pos ((table.isNone_kind?_iff known r.1).mpr missing)
    rw [split, List.find?_append, passed pre declared, stops]
    rfl

/-- Types that refer to each other. The last one is referred to by an argument that is not kept. -/
def sampleItems : List Item :=
  [⟨.of "Post", .type none
      [⟨.of "replies", some [⟨.of "by", .named (.of "Filter") false⟩],
        .list (.list (.named (.of "Post") true) false) true⟩], "type", 1, by decide⟩,
    ⟨.of "query", .type none
      [⟨.of "find", some [⟨.of "first", .named (.of "Int") true⟩],
        .list (.named (.of "Found") false) true⟩], "type", 2, by decide⟩,
    ⟨.of "Found", .union (.of "Post") [], "union", 3, by decide⟩,
    ⟨.of "Filter", .input [], "input", 4, by decide⟩]

theorem Schema.ofDocument_sampleItems :
    (∃ m : Schema, Schema.ofDocument (document sampleItems) = .ok m ∧
      m.roots =
        { query := some ⟨.query, [⟨"find", [⟨"first", ⟨.scalar .int, false, 0, false⟩⟩],
          ⟨.named .union "Found", false, 1, true⟩⟩]⟩ } ∧
      m.types.entries =
        [("Post", ⟨.object, "Post",
            .fields [⟨"replies", ⟨.named .object "Post", false, 2, true⟩⟩]⟩),
          ("Found", ⟨.union, "Found", .members ["Post"]⟩),
          ("Filter", ⟨.input, "Filter", .fields []⟩)]) ∧
    Schema.ofDocument (document sampleItems.dropLast) =
      .error (.unresolved "Filter" (.argument "by" "Post" "replies")) := by
  have whole : WellFormed sampleItems :=
    ⟨by decide, by decide, by decide, by decide, by decide, by decide⟩
  have shortened : WellFormed sampleItems.dropLast :=
    ⟨by decide, by decide, by decide, by decide, by decide, by decide⟩
  exact ⟨(Schema.ofDocument_document whole).1 (by decide),
    (Schema.ofDocument_document shortened).2
      [("Int", .argument "first" "query" "find"), ("Found", .returnType "query" "find")] _ _ rfl
      (by decide) (by decide)⟩

end SchemaTypegen
