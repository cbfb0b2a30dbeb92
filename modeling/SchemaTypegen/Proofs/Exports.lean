import SchemaTypegen.Golden.Verdict
import SchemaTypegen.Proofs.Lines

/-!
# When every label is exported once

The labels of types are distinct, and so are the names of the requests of a root. The labels of
argument interfaces are made of names by changing their letter case, and they share one namespace
with the types. Nothing checks them, so they may clash with each other and with a type.

The exported labels are read from the text, line by line. In the text of a schema that comes from a
source the only lines that begin with `export` are the first lines of declarations, because all
other lines are indented or a closing brace and no name goes over a line end.

* `exportedLabels_typegen`: the labels read from the text are those of the declarations.
* `nodup_labels_iff`: when they are distinct.
* **`exports_once_iff`**: the check of exports accepts an output exactly if no two requests of a
  root with arguments make the same word and no argument interface is called like a type.
* `exports_clash`: there are sources with other outputs.
-/

namespace SchemaTypegen

open Text Grammar

/-! ## The label a line exports -/

namespace Golden

theorem afterWord?_append (word rest : List Char) : afterWord? word (word ++ rest) = some rest := by
  rw [afterWord?, if_pos (List.isPrefixOf_iff_prefix.mpr (List.prefix_append word rest)),
    List.drop_left]

/-- The first line of a declaration exports its label. -/
theorem exportedLabel?_heading (kind : DeclarationKind) {label : String}
    (named : isName label = true) {c : Char} (hc : isNameChar c = false) (rest : List Char) :
    exportedLabel? (("export " ++ kind.keyword ++ " " ++ label).toList ++ c :: rest) =
      some label := by
  have found : ["interface ", "enum ", "type "].findSome? (fun word =>
      afterWord? word.toList ((kind.keyword ++ " ").toList ++ (label.toList ++ c :: rest))) =
        some (label.toList ++ c :: rest) := by
    have own := afterWord?_append (kind.keyword ++ " ").toList (label.toList ++ c :: rest)
    cases kind with
    | interface =>
      have word : DeclarationKind.interface.keyword ++ " " = "interface " := by decide
      rw [word] at own ⊢
      rw [List.findSome?_cons, own]
    | enum => exact own
    | typeAlias => exact own
  have taken : (label.toList ++ c :: rest).takeWhile isNameChar = label.toList := by
    rw [List.takeWhile_append_of_pos fun _ hd => Name.isNameChar_of_mem ⟨label, named⟩ hd,
      List.takeWhile_cons_of_neg (by simp [hc]), List.append_nil]
  have filled : label.toList.isEmpty = false := by
    simpa using Name.toList_ne_nil ⟨label, named⟩
  have split : ("export " ++ kind.keyword ++ " " ++ label).toList ++ c :: rest =
      "export ".toList ++ ((kind.keyword ++ " ").toList ++ (label.toList ++ c :: rest)) := by
    simp only [String.toList_append, List.append_assoc]
  rw [split, exportedLabel?, afterWord?_append, Option.bind_eq_bind, Option.bind_some, found]
  simp only [Option.bind_some, taken, filled, String.ofList_toList, Bool.false_eq_true, if_false]

/-- The labels that a line exports. -/
def lineLabels (line : String) : List String := (exportedLabel? line.toList).toList

theorem exportedLabels_eq (text : String) :
    exportedLabels text = (lines text).flatMap lineLabels := by
  rw [exportedLabels, lines, List.flatMap_map, List.filterMap_eq_flatMap_toList]
  simp only [lineLabels, String.toList_ofList]

theorem lineLabels_heading {d : Declaration} (named : isName d.label = true) {rest : String}
    {c : Char} (begins : rest.toList.head? = some c) (hc : isNameChar c = false) :
    lineLabels (d.heading ++ rest) = [d.label] := by
  obtain ⟨tail, shape⟩ := List.head?_eq_some_iff.mp begins
  have first : exportedLabel? (d.heading.toList ++ c :: tail) = some d.label :=
    exportedLabel?_heading d.kind named hc tail
  rw [lineLabels, String.toList_append, shape, first]
  rfl

theorem lineLabels_of_head {line : String} {c : Char} (begins : line.toList.head? = some c)
    (other : c ≠ 'e') : lineLabels line = [] := by
  obtain ⟨rest, shape⟩ := List.head?_eq_some_iff.mp begins
  have unlike : afterWord? "export ".toList (c :: rest) = none :=
    if_neg (by simp [Ne.symm other])
  rw [lineLabels, shape, exportedLabel?, unlike]
  rfl

/-- Indented lines export nothing. -/
theorem lineLabels_bodyLines (body : Body) {indent : String} {c : Char}
    (begins : indent.toList.head? = some c) (other : c ≠ 'e') :
    ∀ l ∈ body.lines indent, lineLabels l = [] := by
  have indented : ∀ text : String, lineLabels (indent ++ text) = [] := fun text =>
    lineLabels_of_head (by rw [String.toList_append, List.head?_append, begins]; rfl) other
  intro l hl
  cases body with
  | fields fields =>
    obtain ⟨f, -, rfl⟩ := List.mem_map.mp hl
    simp only [Field.statement, String.append_assoc, indented]
  | members members =>
    obtain ⟨member, -, rfl⟩ := List.mem_map.mp hl
    simp only [memberLine, String.append_assoc, indented]

theorem lineLabels_headerLines (made : Option Moment) :
    ∀ l ∈ headerLines made, lineLabels l = [] := by
  intro l hl
  have begins : l.toList.head? = some '/' ∨ l.toList.head? = some '*' := by
    revert l
    simp [headerLines]
  rcases begins with begins | begins
  · exact lineLabels_of_head begins (by decide)
  · exact lineLabels_of_head begins (by decide)

/-- **A declaration exports its label and nothing else.** -/
theorem flatMap_lineLabels {d : Declaration} (plain : d.Plain) {indent : String} {c : Char}
    (begins : indent.toList.head? = some c) (other : c ≠ 'e') :
    (d.lines indent).flatMap lineLabels = [d.label] := by
  have block : ((d.heading ++ " \x7b") :: (d.body.lines indent ++ ["\x7d"])).flatMap lineLabels =
      [d.label] := by
    rw [List.flatMap_cons, List.flatMap_append,
      List.flatMap_eq_nil_iff.mpr (lineLabels_bodyLines d.body begins other),
      lineLabels_heading plain.label rfl (by decide)]
    rfl
  cases kind : d.kind with
  | interface => simpa only [Declaration.lines, kind] using block
  | enum => simpa only [Declaration.lines, kind] using block
  | typeAlias =>
    obtain ⟨members, -, -, lines⟩ := plain.exists_members kind
    rw [lines, List.flatMap_singleton, String.append_assoc, String.append_assoc]
    exact lineLabels_heading (c := ' ') plain.label (by simp) (by decide)

end Golden

/-! ## The declarations of a schema -/

namespace Schema

variable {schema : Schema}

section Closed

variable (closed : schema.Closed)

include closed

/-- **The labels read from an output are those of the declarations**, if an indent cannot be taken
for the beginning of a declaration. -/
theorem exportedLabels_typegen (written : schema.Written) {options : Options} {c : Char}
    (begins : options.indent.toList.head? = some c) (other : c ≠ 'e')
    (oneLine : '\n' ∉ options.indent.toList) (now : Moment) :
    Golden.exportedLabels (schema.typegen options now).text =
      (schema.declarations options.order).map Declaration.label := by
  have plain : ∀ d ∈ schema.declarations options.order, d.Plain :=
    plain_of_mem_declarations closed written
  have blank : Golden.lineLabels "" = [] := by decide
  rw [Golden.exportedLabels_eq,
    flatMap_lines_typegen closed blank Golden.lineLabels_headerLines oneLine written,
    ← List.flatMap_singleton' ((schema.declarations options.order).map Declaration.label),
    List.flatMap_map]
  exact List.flatMap_congr fun d hd => Golden.flatMap_lineLabels (plain d hd) begins other

theorem exportedLabels_bare (written : schema.Written) (order : Order) (now : Moment) :
    Golden.exportedLabels (schema.typegen { Options.bare with order } now).text =
      (schema.declarations order).map Declaration.label := by
  have begins : "  ".toList.head? = some ' ' := by decide
  have oneLine : '\n' ∉ "  ".toList := by decide
  exact exportedLabels_typegen closed written begins (by decide) oneLine now

/-- The check of exports complains of the first label that is repeated, and of nothing else. -/
theorem checkExports_typegen (written : schema.Written) (order : Order) (now : Moment) :
    Golden.checkExports (schema.typegen { Options.bare with order } now) =
      match Resolve.firstRepeated? [] ((schema.declarations order).map Declaration.label) with
      | some label => .error (.repeatedExport label)
      | none => .ok () := by
  have counted : ((schema.declarations order).map Declaration.label).length =
      (schema.typegen { Options.bare with order } now).declarations := List.length_map _
  rw [Golden.checkExports, exportedLabels_bare closed written]
  cases Resolve.firstRepeated? [] ((schema.declarations order).map Declaration.label) with
  | some label => rfl
  | none => exact if_pos counted

theorem checkExports_typegen_iff (written : schema.Written) (order : Order) (now : Moment) :
    Golden.checkExports (schema.typegen { Options.bare with order } now) = .ok () ↔
      ((schema.declarations order).map Declaration.label).Nodup := by
  have repeated := Resolve.firstRepeated?_eq_none_iff
    ((schema.declarations order).map Declaration.label) []
  rw [checkExports_typegen closed written]
  cases found : Resolve.firstRepeated? [] ((schema.declarations order).map Declaration.label) with
  | none => simpa [found] using repeated
  | some label => simpa [found] using repeated

/-- Both orders write the same labels: those of argument interfaces and those of types. -/
theorem perm_labels (order : Order) :
    ((schema.declarations order).map Declaration.label).Perm
      ((schema.requestsWithArguments.map fun q => Declaration.argumentLabel q.1 q.2) ++
        schema.types.keys) := by
  have permuted := (Emission.perm_declarations closed.labelled order).map Declaration.label
  rw [List.map_append, List.map_map, List.map_map] at permuted
  rw [← Emission.map_label_values closed.labelled]
  exact permuted

end Closed

/-! ## Labels that clash -/

/-- No two requests of a root with arguments make the same word, and no argument interface is called
like a type. -/
structure LabelsApart (schema : Schema) : Prop where
  requests : (schema.requestsWithArguments.map fun q => (q.1, camelWord q.2.name)).Nodup
  types : ∀ q ∈ schema.requestsWithArguments,
    Declaration.argumentLabel q.1 q.2 ∉ schema.types.keys

/-- **When the labels are distinct.** -/
theorem nodup_labels_iff (closed : schema.Closed) (order : Order) :
    ((schema.declarations order).map Declaration.label).Nodup ↔ schema.LabelsApart := by
  have words : (schema.requestsWithArguments.map fun q =>
      Declaration.argumentLabel q.1 q.2).Nodup ↔
        (schema.requestsWithArguments.map fun q => (q.1, camelWord q.2.name)).Nodup := by
    rw [List.Nodup, List.pairwise_map, List.Nodup, List.pairwise_map]
    exact List.Pairwise.iff fun q q' => not_congr Declaration.argumentLabel_eq_iff
  rw [(perm_labels closed order).nodup_iff, List.nodup_append, words]
  constructor
  · rintro ⟨requests, -, apart⟩
    exact ⟨requests, fun q hq mem => apart _ (List.mem_map_of_mem hq) _ mem rfl⟩
  · rintro ⟨requests, types⟩
    refine ⟨requests, schema.types.nodup, fun label hl key hk same => ?_⟩
    obtain ⟨q, hq, rfl⟩ := List.mem_map.mp hl
    exact types q hq (same ▸ hk)

end Schema

/-- **When an output is accepted.** For every source and in both orders, the labels of the
declarations are distinct, and the check of exports accepts the output, exactly if no two requests
of a root with arguments make the same word and no argument interface is called like a type. -/
theorem exports_once_iff {source : String} {order : Order} {now : Moment} {output : Output}
    (h : typegen source { Options.bare with order } now = .ok output) :
    ∃ schema, Schema.ofSource source = .ok schema ∧
      (((schema.declarations order).map Declaration.label).Nodup ↔ schema.LabelsApart) ∧
      (Golden.checkExports output = .ok () ↔ schema.LabelsApart) := by
  obtain ⟨schema, read, rfl⟩ := Success.map_eq_ok.mp h
  obtain ⟨closed, written⟩ := Schema.written_of_ofSource read
  have distinct := Schema.nodup_labels_iff closed order
  exact ⟨schema, read, distinct,
    (Schema.checkExports_typegen_iff closed written order now).trans distinct⟩

/-! ### Labels that differ, and labels that do not -/

instance (schema : Schema) : Decidable schema.LabelsApart :=
  decidable_of_iff
    ((schema.requestsWithArguments.map fun q => (q.1, camelWord q.2.name)).Nodup ∧
      ∀ q ∈ schema.requestsWithArguments,
        Declaration.argumentLabel q.1 q.2 ∉ schema.types.keys)
    ⟨fun h => ⟨h.1, h.2⟩, fun h => ⟨h.requests, h.types⟩⟩

/-- The requests make the same word, but they are of different roots. -/
def apartSource : String :=
  "type Query\x7bab(x:ID):ID\x7dtype Mutation\x7bAB(x:ID):ID\x7dtype Ab\x7bx:ID\x7d"

/-- The schema of `apartSource`. -/
def apartSchema : Schema where
  roots := {
    query := some ⟨.query,
      [⟨"ab", [⟨"x", .scalar .id, true, 0, false⟩], .scalar .id, true, 0, false⟩]⟩
    mutation := some ⟨.mutation,
      [⟨"AB", [⟨"x", .scalar .id, true, 0, false⟩], .scalar .id, true, 0, false⟩]⟩ }
  types := ⟨[("Ab", ⟨.object, "Ab", .fields [⟨"x", .scalar .id, true, 0, false⟩]⟩)], by decide⟩

theorem Source.definitions_apartSource : Source.definitions apartSource =
    .ok [⟨"type", "Query", ["ab(x:ID):ID"], 1⟩, ⟨"type", "Mutation", ["AB(x:ID):ID"], 1⟩,
      ⟨"type", "Ab", ["x:ID"], 1⟩] :=
  Source.definitions_of_sweep (onLine 1
    [.name "type", .name "Query", .mark .openBrace, .name "ab", .mark .openParen, .name "x",
      .mark .colon, .name "ID", .mark .closeParen, .mark .colon, .name "ID", .mark .closeBrace,
      .name "type", .name "Mutation", .mark .openBrace, .name "AB", .mark .openParen, .name "x",
      .mark .colon, .name "ID", .mark .closeParen, .mark .colon, .name "ID", .mark .closeBrace,
      .name "type", .name "Ab", .mark .openBrace, .name "x", .mark .colon, .name "ID",
      .mark .closeBrace]) (by decide) (by rfl)

theorem Schema.ofSource_apartSource : Schema.ofSource apartSource = .ok apartSchema := by
  rw [Schema.ofSource, Document.ofSource, Source.definitions_apartSource]
  rfl

theorem exports_once_iff_apartSource : ∃ output,
    typegen apartSource { Options.bare with order := .dependencies } ⟨2024, 2, 29, 9, 5, 0⟩ =
        .ok output ∧ Golden.checkExports output = .ok () := by
  have made : typegen apartSource { Options.bare with order := .dependencies }
      ⟨2024, 2, 29, 9, 5, 0⟩ = .ok (apartSchema.typegen { Options.bare with order := .dependencies }
        ⟨2024, 2, 29, 9, 5, 0⟩) := by
    rw [typegen, Schema.ofSource_apartSource]
    rfl
  obtain ⟨schema, read, -, accepted⟩ := exports_once_iff made
  rw [Schema.ofSource_apartSource] at read
  obtain rfl := Except.ok.inj read
  exact ⟨_, made, accepted.mpr (by decide)⟩

/-- The request and the type are called differently, but the argument interface is called like the
type. -/
def clashSource : String :=
  "type Query\x7bgreet(name:String):String\x7dtype GreetQueryArgs\x7bx:Int\x7d"

/-- The schema of `clashSource`. -/
def clashSchema : Schema where
  roots := { query := some ⟨.query,
    [⟨"greet", [⟨"name", .scalar .string, true, 0, false⟩], .scalar .string, true, 0, false⟩]⟩ }
  types := ⟨[("GreetQueryArgs",
    ⟨.object, "GreetQueryArgs", .fields [⟨"x", .scalar .int, true, 0, false⟩]⟩)], by decide⟩

theorem Source.definitions_clashSource : Source.definitions clashSource =
    .ok [⟨"type", "Query", ["greet(name:String):String"], 1⟩,
      ⟨"type", "GreetQueryArgs", ["x:Int"], 1⟩] :=
  Source.definitions_of_sweep (onLine 1
    [.name "type", .name "Query", .mark .openBrace, .name "greet", .mark .openParen, .name "name",
      .mark .colon, .name "String", .mark .closeParen, .mark .colon, .name "String",
      .mark .closeBrace, .name "type", .name "GreetQueryArgs", .mark .openBrace, .name "x",
      .mark .colon, .name "Int", .mark .closeBrace]) (by decide) (by rfl)

theorem Schema.ofSource_clashSource : Schema.ofSource clashSource = .ok clashSchema := by
  rw [Schema.ofSource, Document.ofSource, Source.definitions_clashSource]
  rfl

/-- Whenever it is made and in both orders, the output for `clashSource` is refused. -/
theorem typegen_clashSource (order : Order) (now : Moment) : ∃ output,
    typegen clashSource { Options.bare with order } now = .ok output ∧
      Golden.checkExports output = .error (.repeatedExport "GreetQueryArgs") := by
  obtain ⟨closed, written⟩ := Schema.written_of_ofSource Schema.ofSource_clashSource
  have labels : (clashSchema.declarations order).map Declaration.label =
      List.replicate 2 "GreetQueryArgs" :=
    List.perm_replicate.mp (Schema.perm_labels closed order)
  refine ⟨clashSchema.typegen { Options.bare with order } now, ?_, ?_⟩
  · rw [typegen, Schema.ofSource_clashSource]
    rfl
  · rw [Schema.checkExports_typegen closed written, labels]
    rfl

/-- **Labels may clash**: a source is accepted though both of its declarations have one label, and
the check of exports complains. -/
theorem exports_clash :
    (∃ output, typegen clashSource Options.bare ⟨2024, 2, 29, 9, 5, 0⟩ = .ok output ∧
      Golden.checkExports output = .error (.repeatedExport "GreetQueryArgs")) ∧
    ∃ output, typegen clashSource { Options.bare with order := .dependencies }
        ⟨2024, 2, 29, 9, 5, 0⟩ = .ok output ∧
      Golden.checkExports output = .error (.repeatedExport "GreetQueryArgs") :=
  ⟨typegen_clashSource .declaration _, typegen_clashSource .dependencies _⟩

end SchemaTypegen
