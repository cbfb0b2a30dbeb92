import SchemaTypegen.Proofs.Resolution.Acceptance
import SchemaTypegen.Proofs.Resolution.Names

/-!
# Repeated declarations

A label may be declared once, and no label may be a scalar's; a request may be declared once in its
block. Both are refused, wherever the repetition stands. The blocks of a root are different: a block
is looked up among the operations that are stored, and a block without requests is not stored. So
a block is refused for an earlier one of its root exactly if the earlier one has entries, and any
number of empty blocks may come before.

* `map_name_of_mapM`: requests have the names that their entries begin with.
* `exists_ofDocument_iff_alone`: when blocks that are resolved one by one are resolved together.
* **`repeats_refused`**: which repetitions a source is refused for.
* `empty_root_repeated`: a source that declares a root twice and is accepted.
-/

namespace SchemaTypegen

open Text Grammar

/-! ## The names of requests -/

/-- The name that an entry begins with. -/
def entryName (entry : String) : String := String.ofList (entry.toList.takeWhile isNameChar)

/-- The names of the requests in a block. -/
def Definition.requestNames (d : Definition) : List String := d.entries.map entryName

theorem entryName_eq {name : Name} {rest : List Char} {entry : String}
    (text : entry.toList = name.text.toList ++ rest)
    (begins : ∀ c ∈ rest.head?, c = ':' ∨ c = '(') : entryName entry = name.text := by
  have ends : rest.takeWhile isNameChar = [] := by
    cases rest with
    | nil => rfl
    | cons c rest =>
      refine List.takeWhile_cons_of_neg ?_
      rcases begins c rfl with rfl | rfl <;> decide
  rw [entryName, text, List.takeWhile_append_of_pos fun _ hc => name.isNameChar_of_mem hc, ends,
    List.append_nil, String.ofList_toList]

theorem Resolve.map_name_of_mapM {table : NameTable} {d : Definition} {entries : List String}
    {requests : List Request} (written : ∀ entry ∈ entries, IsEntry entry)
    (h : entries.mapM (request table d) = .ok requests) :
    requests.map Request.name = entries.map entryName := by
  rw [Success.mapM_eq_ok] at h
  induction h with
  | nil => rfl
  | @cons entry r entries requests first _ ih =>
    obtain ⟨name, rest, text, begins, -⟩ := written entry List.mem_cons_self
    rw [List.map_cons, List.map_cons, ih fun e he => written e (List.mem_cons_of_mem entry he),
      entryName_eq text begins, (request_of_entry text begins first).1]

/-! ## Blocks together and alone -/

/-- **Blocks are resolved together exactly if each is resolved alone and gives way to the later
ones.** -/
theorem Schema.exists_ofDocument_iff_alone {roots types : List Definition} (filled : roots ≠ []) :
    (∃ schema, Schema.ofDocument ⟨roots, types⟩ = .ok schema) ↔
      (∀ d ∈ roots, ∃ schema, Schema.ofDocument ⟨[d], types⟩ = .ok schema) ∧
        roots.Pairwise Definition.GivesWay := by
  have nonempty : ∀ {blocks : List Definition}, blocks ≠ [] →
      Document.isEmpty ⟨blocks, types⟩ = false := by
    intro blocks some
    simp [Document.isEmpty, some]
  simp only [exists_ofDocument_iff]
  constructor
  · rintro ⟨-, table, made, readable, pairwise, typed⟩
    refine ⟨fun d hd => ⟨nonempty (by simp), table, made, ?_, by simp, typed⟩, pairwise⟩
    intro e he
    obtain rfl := List.mem_singleton.mp he
    exact readable e hd
  · rintro ⟨alone, pairwise⟩
    obtain ⟨d, hd⟩ := List.exists_mem_of_ne_nil roots filled
    obtain ⟨-, table, made, -, -, typed⟩ := alone d hd
    refine ⟨nonempty filled, table, made, fun e he => ?_, pairwise, typed⟩
    obtain ⟨-, table', made', readable, -⟩ := alone e he
    obtain rfl := Except.ok.inj (made.symm.trans made')
    exact readable e List.mem_cons_self

/-- What cannot be repeated in a document, blocks of a root apart. -/
structure Document.Unrepeated (doc : Document) : Prop where
  /-- No two named types have one label. -/
  labels : (doc.types.map Definition.label).Nodup
  /-- No named type is called like a built-in scalar. -/
  scalars : ∀ d ∈ doc.types, Scalar.ofLabel? d.label = none
  /-- No two requests of a block have one name. -/
  requests : ∀ d ∈ doc.roots, d.requestNames.Nodup

theorem Document.rootKind?_of_mem_roots {source : String} {doc : Document}
    (h : Document.ofSource source = .ok doc) {d : Definition} (hd : d ∈ doc.roots) :
    ∃ kind, d.rootKind? = some kind := by
  obtain ⟨ds, -, rfl⟩ := Success.map_eq_ok.mp h
  exact Option.isSome_iff_exists.mp (List.mem_filter.mp hd).2

theorem Document.unrepeated_of_ofDocument {source : String} {doc : Document}
    (h : Document.ofSource source = .ok doc)
    (resolved : ∃ schema, Schema.ofDocument doc = .ok schema) : doc.Unrepeated := by
  obtain ⟨-, table, made, readable, -⟩ := Schema.exists_ofDocument_iff.mp resolved
  have listable := NameTable.exists_ofDefinitions_iff.mp ⟨table, made⟩
  refine ⟨listable.distinct, listable.scalars, fun d hd => ?_⟩
  obtain ⟨kind, root⟩ := Document.rootKind?_of_mem_roots h hd
  obtain ⟨requests, read, distinct⟩ := readable d hd kind root
  rwa [Resolve.map_name_of_mapM ((Document.written_of_ofSource h).1 d hd).entries read] at distinct

/-- **Which repetitions are refused.** A source with two types of one label, with a type called like
a scalar, or with two requests of one name in a block is refused. Of the blocks of the roots, if
each of them alone is accepted with the types of the source, all together are accepted exactly if no
block with entries is followed by another block of its root. -/
theorem Document.repeats_refused {source : String} {doc : Document}
    (h : Document.ofSource source = .ok doc) :
    ((∃ schema, Schema.ofDocument doc = .ok schema) → doc.Unrepeated) ∧
    (doc.roots ≠ [] →
      ((∃ schema, Schema.ofDocument doc = .ok schema) ↔
        (∀ d ∈ doc.roots, ∃ schema, Schema.ofDocument ⟨[d], doc.types⟩ = .ok schema) ∧
          doc.roots.Pairwise fun d d' => d.rootKind? = d'.rootKind? → d.entries = [])) := by
  refine ⟨Document.unrepeated_of_ofDocument h, fun filled => ?_⟩
  rw [Schema.exists_ofDocument_iff_alone filled]
  refine and_congr_right fun _ => List.Pairwise.iff_of_mem fun {d d'} hd _ => ?_
  -- Every root definition of a source has a root, so blocks of equal roots are blocks of one root.
  obtain ⟨kind, root⟩ := Document.rootKind?_of_mem_roots h hd
  constructor
  · exact fun gives same => gives kind root (same ▸ root)
  · exact fun empty other own root' => empty (own.trans root'.symm)

/-! ### A root declared twice -/

/-- Two blocks of one root, the first of them empty. -/
def twiceSource : String := "type Query\x7b\x7dtype query\x7ba:Int\x7d"

/-- The document of `twiceSource`. -/
def twiceDocument : Document where
  roots := [⟨"type", "Query", [], 1⟩, ⟨"type", "query", ["a:Int"], 1⟩]
  types := []

/-- The schema of `twiceSource`. -/
def twiceSchema : Schema where
  roots := { query := some ⟨.query, [⟨"a", [], .scalar .int, true, 0, false⟩]⟩ }
  types := Catalog.empty

theorem Source.definitions_twiceSource : Source.definitions twiceSource =
    .ok [⟨"type", "Query", [], 1⟩, ⟨"type", "query", ["a:Int"], 1⟩] :=
  Source.definitions_of_sweep (onLine 1
    [.name "type", .name "Query", .mark .openBrace, .mark .closeBrace, .name "type", .name "query",
      .mark .openBrace, .name "a", .mark .colon, .name "Int", .mark .closeBrace])
    (by decide) (by rfl)

theorem Document.ofSource_twiceSource : Document.ofSource twiceSource = .ok twiceDocument := by
  rw [Document.ofSource, Source.definitions_twiceSource]
  rfl

theorem Document.repeats_refused_twiceSource :
    Document.ofSource twiceSource = .ok twiceDocument ∧ twiceDocument.Unrepeated ∧
      (∀ d ∈ twiceDocument.roots,
        ∃ schema, Schema.ofDocument ⟨[d], twiceDocument.types⟩ = .ok schema) ∧
      twiceDocument.roots.Pairwise fun d d' => d.rootKind? = d'.rootKind? → d.entries = [] := by
  have accepted : ∃ schema, Schema.ofDocument twiceDocument = .ok schema := ⟨twiceSchema, by rfl⟩
  obtain ⟨unrepeated, blocks⟩ := Document.repeats_refused Document.ofSource_twiceSource
  exact ⟨Document.ofSource_twiceSource, unrepeated accepted,
    (blocks (List.cons_ne_nil _ _)).mp accepted⟩

/-- **A root may be declared twice**: a source is accepted though both of its definitions are blocks
of one root. -/
theorem Document.empty_root_repeated :
    Document.ofSource twiceSource = .ok twiceDocument ∧
      twiceDocument.roots.map Definition.rootKind? = [some .query, some .query] ∧
      Schema.ofDocument twiceDocument = .ok twiceSchema :=
  ⟨Document.ofSource_twiceSource, by decide, by rfl⟩

end SchemaTypegen
