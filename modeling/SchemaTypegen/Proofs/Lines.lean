import SchemaTypegen.Proofs.Exports.Labels

/-!
# The lines of an output

An output is blocks of lines, one blank line apart: the header if there is one, then a block for
each declaration. In the schema of a source no label goes over a line end, so the lines of the text
are the lines of the blocks, and what is read from an output line by line can be read from the
blocks.

* `Declaration.text_eq_unlines`, `headerText_eq_unlines`: the text of a block and its lines.
* `Plain`: a declaration of which every line is one.
* **`flatMap_lines_typegen`**: reading the lines of an output is reading the lines of its blocks.
-/

namespace SchemaTypegen

open Text Grammar

/-! ## Lines -/

namespace Text

/-- The lines of a text; the last one is what follows the last line end. -/
def lines (text : String) : List String := (pieces (· == '\n') text.toList).map String.ofList

/-- The text of whole lines. -/
def unlines (ls : List String) : String := String.join (ls.map (· ++ "\n"))

theorem lines_line {line : String} (h : '\n' ∉ line.toList) (rest : String) :
    lines (line ++ "\n" ++ rest) = line :: lines rest := by
  have whole : ∀ c ∈ line.toList, (c == '\n') = false := by
    intro c hc
    rw [beq_eq_false_iff_ne]
    rintro rfl
    exact h hc
  have shape : (line ++ "\n" ++ rest).toList = line.toList ++ '\n' :: rest.toList := by simp
  rw [lines, shape, pieces_append whole rfl, List.map_cons, String.ofList_toList]
  rfl

theorem lines_unlines {ls : List String} (h : ∀ l ∈ ls, '\n' ∉ l.toList) (rest : String) :
    lines (unlines ls ++ rest) = ls ++ lines rest := by
  induction ls with
  | nil => exact congrArg lines (String.empty_append)
  | cons line ls ih =>
    have ih := ih fun l hl => h l (List.mem_cons_of_mem line hl)
    have shape : unlines (line :: ls) ++ rest = line ++ "\n" ++ (unlines ls ++ rest) := by
      simp only [unlines, List.map_cons, String.join_cons, String.append_assoc]
    rw [shape, lines_line (h line List.mem_cons_self), ih, List.cons_append]

/-- What is read from lines, if nothing is read from an empty one, is read from blocks of lines one
blank line apart block by block. -/
theorem flatMap_lines_intercalate {α : Type} {f : String → List α} (blank : f "" = [])
    {blocks : List (List String)} (whole : ∀ block ∈ blocks, ∀ l ∈ block, '\n' ∉ l.toList) :
    (lines ("\n".intercalate (blocks.map unlines))).flatMap f =
      blocks.flatMap fun block => block.flatMap f := by
  have nothing : (lines "").flatMap f = [] := by
    have : lines "" = [""] := by decide
    rw [this, List.flatMap_singleton, blank]
  induction blocks with
  | nil => exact nothing
  | cons block blocks ih =>
    have first := whole block List.mem_cons_self
    have ih := ih fun b hb => whole b (List.mem_cons_of_mem block hb)
    rw [List.flatMap_cons, ← ih]
    cases blocks with
    | nil =>
      have last := lines_unlines first ""
      rw [String.append_empty] at last
      rw [List.map_singleton, String.intercalate_singleton, last, List.flatMap_append]
      rfl
    | cons next blocks =>
      rw [List.map_cons, List.map_cons, String.intercalate_cons_cons, String.append_assoc,
        lines_unlines first, List.flatMap_append]
      have gap := @lines_line "" (by decide)
        ("\n".intercalate (unlines next :: blocks.map unlines))
      rw [String.empty_append] at gap
      rw [gap, List.flatMap_cons, blank, List.nil_append]

end Text

/-! ## The lines of declarations -/

/-- The line of a field, without its end. -/
def Field.statement (indent : String) (f : Field) : String :=
  indent ++ f.label ++ (if f.type.optional then "?" else "") ++ ": " ++ f.type.text ++ ";"

/-- The line of an enum value, without its end. -/
def memberLine (indent member : String) : String := indent ++ member ++ " = '" ++ member ++ "',"

/-- The lines between the first and the last of a block. -/
def Body.lines (indent : String) : Body → List String
  | .fields items => items.map (Field.statement indent)
  | .members labels => labels.map (memberLine indent)

namespace Declaration

/-- The words that a declaration begins with. -/
def heading (d : Declaration) : String := "export " ++ d.kind.keyword ++ " " ++ d.label

/-- The lines of a declaration. -/
def lines (indent : String) (d : Declaration) : List String :=
  match d.kind with
  | .typeAlias => [d.heading ++ " = " ++ d.bodyText indent ++ ";"]
  | .interface | .enum => (d.heading ++ " \x7b") :: (d.body.lines indent ++ ["\x7d"])

theorem bodyText_eq_unlines (indent : String) {d : Declaration} (block : d.kind ≠ .typeAlias) :
    d.bodyText indent = unlines (d.body.lines indent) := by
  obtain ⟨kind, label, body⟩ := d
  have each : ∀ {α : Type} {f g : α → String} (xs : List α), (∀ x, f x = g x ++ "\n") →
      String.join (xs.map f) = unlines (xs.map g) := by
    intro α f g xs ended
    rw [unlines, List.map_map]
    exact congrArg String.join (List.map_congr_left fun x _ => ended x)
  cases body with
  | fields fields =>
    exact each fields fun f => by simp [Field.line, Field.statement, String.append_assoc]
  | members members =>
    have text : Declaration.bodyText indent ⟨kind, label, .members members⟩ =
        enumLines indent members := by
      cases kind with
      | interface | enum => rfl
      | typeAlias => exact absurd rfl block
    rw [text]
    exact each members fun member => by simp [memberLine, String.append_assoc]

/-- **The text of a declaration is its lines.** -/
theorem text_eq_unlines (indent : String) (d : Declaration) :
    d.text indent = unlines (d.lines indent) := by
  have block : d.kind ≠ .typeAlias → d.heading ++ " \x7b\n" ++ d.bodyText indent ++ "\x7d\n" =
      unlines ((d.heading ++ " \x7b") :: (d.body.lines indent ++ ["\x7d"])) := by
    intro other
    rw [bodyText_eq_unlines indent other]
    simp [unlines, String.append_assoc]
  obtain ⟨kind, label, body⟩ := d
  cases kind with
  | typeAlias =>
    simp [text, DeclarationKind.wrap, lines, heading, unlines, String.append_assoc]
  | interface => exact block DeclarationKind.noConfusion
  | enum => exact block DeclarationKind.noConfusion

end Declaration

/-- What the header says of the time it was made at. -/
def madeAt : Option Moment → String
  | some moment => " at " ++ moment.text
  | none => ""

/-- The lines of the header. -/
def headerLines (made : Option Moment) : List String :=
  ["/*",
    "* Type Definitions automatically generated via gql-tg" ++ madeAt made ++ ".",
    "* Do not change this file directly as the changes would be overwritten.",
    "* Change the source GraphQL Schema File instead.",
    "*/"]

theorem headerText_eq_unlines (made : Option Moment) :
    headerText made = unlines (headerLines made) := by
  have opening : "/*\n* Type Definitions automatically generated via gql-tg" =
      "/*" ++ "\n" ++ "* Type Definitions automatically generated via gql-tg" := by decide
  have advice : ".\n* Do not change this file directly as the changes would be overwritten.\n" =
      "." ++ "\n" ++ "* Do not change this file directly as the changes would be overwritten." ++
        "\n" := by decide
  have remedy : "* Change the source GraphQL Schema File instead.\n" =
      "* Change the source GraphQL Schema File instead." ++ "\n" := by decide
  have closing : "*/\n" = "*/" ++ "\n" := by decide
  calc headerText made
      = "/*\n* Type Definitions automatically generated via gql-tg" ++ madeAt made ++
          ".\n* Do not change this file directly as the changes would be overwritten.\n" ++
          "* Change the source GraphQL Schema File instead.\n" ++ "*/\n" := by
        cases made <;> rfl
    _ = "/*" ++ "\n" ++ "* Type Definitions automatically generated via gql-tg" ++ madeAt made ++
          ("." ++ "\n" ++
            "* Do not change this file directly as the changes would be overwritten." ++ "\n") ++
          ("* Change the source GraphQL Schema File instead." ++ "\n") ++ ("*/" ++ "\n") :=
        congrArg₂ (· ++ ·) (congrArg₂ (· ++ ·) (congrArg₂ (· ++ ·)
          (congrArg (· ++ madeAt made) opening) advice) remedy) closing
    _ = unlines (headerLines made) := by
        simp only [headerLines, unlines, List.map_cons, List.map_nil, String.join_cons,
          String.join_nil, String.append_assoc, String.append_empty]

/-! ## Names stay on one line -/

theorem newline_notMem_of_isName {text : String} (h : isName text = true) : '\n' ∉ text.toList :=
  Name.notMem ⟨text, h⟩ (by decide)

theorem FieldType.newline_notMem_text {t : FieldType} (h : isName t.baseText = true) :
    '\n' ∉ t.text.toList := by
  have brackets : ∀ depth, '\n' ∉ (String.join (List.replicate depth "[]")).toList := by
    intro depth
    induction depth with
    | zero => decide
    | succ depth ih =>
      rw [List.replicate_succ, String.join_cons, String.toList_append, List.mem_append, not_or]
      exact ⟨by decide, ih⟩
  rw [text, String.toList_append, List.mem_append, not_or]
  exact ⟨newline_notMem_of_isName h, brackets t.depth⟩

/-- Besides names, the text of a union has blanks and bars only. -/
theorem notMem_unionText {c : Char} (hc : isNameChar c = false) (sep : c ∉ [' ', '|', ' '])
    {members : List String} (named : ∀ member ∈ members, isName member = true) :
    c ∉ (unionText members).toList := by
  have dropped : ∀ (p : Char → Bool) (text : List Char), c ∉ text → c ∉ dropEndWhile p text := by
    intro p text h mem
    have mem := (List.dropWhile_sublist p).mem (List.mem_reverse.mp mem)
    exact h (List.mem_reverse.mp mem)
  unfold unionText
  split
  · exact Name.notMem ⟨"never", by decide⟩ hc
  · rw [String.toList_ofList]
    refine dropped _ _ (dropped _ _ (dropped _ _ fun mem => ?_))
    obtain ⟨member, hm, mem⟩ := List.mem_flatMap.mp mem
    rcases List.mem_append.mp mem with mem | mem
    · exact Name.notMem ⟨member, named member hm⟩ hc mem
    · exact sep mem

namespace Declaration

/-- Besides names, a heading has blanks only. -/
theorem notMem_heading {d : Declaration} (named : isName d.label = true) {c : Char}
    (hc : isNameChar c = false) (apart : c ≠ ' ') : c ∉ d.heading.toList := by
  have word : isName "export" = true := by decide
  have keyword : isName d.kind.keyword = true := by cases d.kind <;> decide
  have shape : d.heading.toList =
      "export".toList ++ ' ' :: d.kind.keyword.toList ++ ' ' :: d.label.toList := by
    simp [heading]
  simp only [shape, List.mem_append, List.mem_cons, not_or]
  exact ⟨⟨Name.notMem ⟨_, word⟩ hc, apart, Name.notMem ⟨_, keyword⟩ hc⟩, apart,
    Name.notMem ⟨_, named⟩ hc⟩

/-- The label is a name, what is written in one line stays there, and an alias has members. -/
structure Plain (d : Declaration) : Prop where
  label : isName d.label = true
  aliased : d.kind = .typeAlias → d.body.members?.isSome
  fields : ∀ fields, d.body = .fields fields → ∀ f ∈ fields,
    '\n' ∉ f.label.toList ∧ ':' ∉ f.label.toList ∧ isName f.type.baseText = true
  members : ∀ members, d.body = .members members → ∀ member ∈ members, isName member = true

namespace Plain

variable {d : Declaration} (plain : d.Plain)

include plain

theorem newline_notMem_bodyLines {indent : String} (oneLine : '\n' ∉ indent.toList) :
    ∀ l ∈ d.body.lines indent, '\n' ∉ l.toList := by
  intro l hl
  cases body : d.body with
  | fields fields =>
    rw [body] at hl
    obtain ⟨f, hf, rfl⟩ := List.mem_map.mp hl
    obtain ⟨label, -, base⟩ := plain.fields fields body f hf
    have type := FieldType.newline_notMem_text base
    cases optional : f.type.optional <;>
      simp [Field.statement, optional, oneLine, label, type]
  | members members =>
    rw [body] at hl
    obtain ⟨member, hm, rfl⟩ := List.mem_map.mp hl
    have name := newline_notMem_of_isName (plain.members members body member hm)
    simp [memberLine, oneLine, name]

/-- An alias is written with the text of its members. -/
theorem exists_members (form : d.kind = .typeAlias) :
    ∃ members, d.body = .members members ∧ (∀ member ∈ members, isName member = true) ∧
      ∀ indent, d.lines indent = [d.heading ++ " = " ++ unionText members ++ ";"] := by
  obtain ⟨members, held⟩ := Option.isSome_iff_exists.mp (plain.aliased form)
  obtain ⟨kind, label, body⟩ := d
  obtain rfl : kind = .typeAlias := form
  cases body with
  | fields _ => exact absurd held (by simp [Body.members?])
  | members labels => exact ⟨labels, rfl, plain.members labels rfl, fun _ => rfl⟩

/-- **Every line of a declaration is one.** -/
theorem newline_notMem_lines {indent : String} (oneLine : '\n' ∉ indent.toList) :
    ∀ l ∈ d.lines indent, '\n' ∉ l.toList := by
  have heading : '\n' ∉ d.heading.toList := notMem_heading plain.label (by decide) (by decide)
  have block : ∀ l ∈ (d.heading ++ " \x7b") :: (d.body.lines indent ++ ["\x7d"]),
      '\n' ∉ l.toList := by
    intro l hl
    rcases List.mem_cons.mp hl with rfl | hl
    · simp [heading]
    rcases List.mem_append.mp hl with hl | hl
    · exact plain.newline_notMem_bodyLines oneLine l hl
    · exact List.mem_singleton.mp hl ▸ by decide
  cases kind : d.kind with
  | typeAlias =>
    obtain ⟨members, -, named, lines⟩ := plain.exists_members kind
    intro l hl
    rw [lines] at hl
    obtain rfl := List.mem_singleton.mp hl
    simp [heading, notMem_unionText (c := '\n') (by decide) (by decide) named]
  | interface => simpa only [lines, kind] using block
  | enum => simpa only [lines, kind] using block

end Plain

end Declaration

/-! ## The blocks of an output -/

/-- A time is written with digits and marks. -/
theorem Moment.notMem_text {c : Char} (digit : c.isDigit = false) (mark : c ∉ ['+', '-', ' ', ':'])
    (m : Moment) : c ∉ m.text.toList := by
  have zero : c ≠ '0' := by
    rintro rfl
    exact absurd digit (by decide)
  have padded : ∀ width n, c ∉ (Moment.padded width n).toList := by
    intro width n mem
    rw [Moment.padded, String.toList_ofList] at mem
    rcases List.mem_append.mp mem with mem | mem
    · exact zero (List.eq_of_mem_replicate mem)
    · rw [Nat.isDigit_of_mem_toDigits (by decide) (by decide) mem] at digit
      exact absurd digit Bool.noConfusion
  simp only [List.mem_cons, List.not_mem_nil, or_false, not_or] at mark
  have year : c ∉ (Moment.yearText m.year).toList := by
    rw [Moment.yearText]
    split <;> simp [padded, mark]
  simp [Moment.text, padded, year, mark]

theorem notMem_madeAt {c : Char} (digit : c.isDigit = false)
    (mark : c ∉ ['+', '-', ' ', ':', 'a', 't']) (made : Option Moment) :
    c ∉ (madeAt made).toList := by
  cases made with
  | none => exact List.not_mem_nil
  | some moment =>
    have time : c ∉ moment.text.toList :=
      moment.notMem_text digit fun mem => mark (List.mem_append_left ['a', 't'] mem)
    simp only [List.mem_cons, List.not_mem_nil, or_false, not_or] at mark
    simp [madeAt, time, mark]

theorem newline_notMem_headerLines (made : Option Moment) :
    ∀ l ∈ headerLines made, '\n' ∉ l.toList := by
  have time : '\n' ∉ (madeAt made).toList := notMem_madeAt (by decide) (by decide) made
  intro l hl
  simp only [headerLines, List.mem_cons, List.not_mem_nil, or_false] at hl
  rcases hl with rfl | rfl | rfl | rfl | rfl
  · decide
  · rw [String.toList_append, String.toList_append, List.mem_append, List.mem_append]
    exact not_or.mpr ⟨not_or.mpr ⟨by decide, time⟩, by decide⟩
  · decide
  · decide
  · decide

namespace Schema

variable {schema : Schema}

theorem mem_fieldTypes_of_request {q : RootKind × Request} (hq : q ∈ schema.requests) {a : Field}
    (ha : a ∈ q.2.arguments) : a.type ∈ schema.fieldTypes :=
  List.mem_append_left _ (List.mem_flatMap.mpr
    ⟨q, hq, List.mem_append_left _ (List.mem_map_of_mem ha)⟩)

theorem mem_fieldTypes_of_type {t : TypeDef} (ht : t ∈ schema.types.values) {fields : List Field}
    (held : t.body = .fields fields) {f : Field} (hf : f ∈ fields) :
    f.type ∈ schema.fieldTypes := by
  refine List.mem_append_right _ (List.mem_flatMap.mpr ⟨t, ht, ?_⟩)
  rw [TypeDef.types, held]
  exact List.mem_map_of_mem hf

theorem plain_ofArguments (written : schema.Written) {q : RootKind × Request}
    (hq : q ∈ schema.requests) : (Declaration.ofArguments q.1 q.2).Plain where
  label := Declaration.isName_argumentLabel q.1 (written.requests q hq)
  aliased := fun no => absurd no DeclarationKind.noConfusion
  fields := by
    intro fields held a ha
    obtain rfl := Body.fields.inj held
    obtain ⟨oneLine, ends⟩ := written.arguments q hq a ha
    exact ⟨oneLine, ends, written.types _ (mem_fieldTypes_of_request hq ha)⟩
  members := fun _ no => absurd no Body.noConfusion

/-- The lines of an output, block by block: the header if there is one, then the declarations. -/
def blocks (schema : Schema) (options : Options) (now : Moment) : List (List String) :=
  (if options.header then [headerLines (if options.timestamp then some now else none)] else []) ++
    (schema.declarations options.order).map (Declaration.lines options.indent)

theorem text_typegen (schema : Schema) (options : Options) (now : Moment) :
    (schema.typegen options now).text =
      "\n".intercalate ((schema.blocks options now).map unlines) := by
  have declared : (schema.declarations options.order).map (Declaration.text options.indent) =
      ((schema.declarations options.order).map (Declaration.lines options.indent)).map unlines := by
    rw [List.map_map]
    exact List.map_congr_left fun d _ => d.text_eq_unlines options.indent
  have headed : (options.headerText? now).toList =
      (if options.header then [headerLines (if options.timestamp then some now else none)]
        else []).map unlines := by
    unfold Options.headerText?
    split
    · exact congrArg List.singleton (headerText_eq_unlines _)
    · rfl
  rw [typegen, blocks, List.map_append, ← declared, ← headed]

/-- **An output with a header is the header and the output without one**, one blank line apart, and
the header alone if nothing is declared. -/
theorem text_typegen_headed (schema : Schema) (timestamp other : Bool) (order : Order)
    (indent : String) (now : Moment) :
    (schema.typegen ⟨true, timestamp, order, indent⟩ now).text =
      headerText (if timestamp then some now else none) ++
        if schema.declarations order = [] then ""
        else "\n" ++ (schema.typegen ⟨false, other, order, indent⟩ now).text := by
  simp only [typegen, Options.headerText?, if_true, Bool.false_eq_true, if_false,
    Option.toList_some, Option.toList_none, List.singleton_append, List.nil_append]
  cases schema.declarations order with
  | nil => rw [List.map_nil, String.intercalate_singleton, if_pos rfl, String.append_empty]
  | cons d ds =>
    rw [List.map_cons, String.intercalate_cons_cons, if_neg (List.cons_ne_nil d ds),
      String.append_assoc]

section Closed

variable (closed : schema.Closed)

include closed

theorem plain_ofType (written : schema.Written) {t : TypeDef} (ht : t ∈ schema.types.values) :
    (Declaration.ofType t).Plain where
  label := written.labels t ht
  aliased := by
    intro form
    have form : DeclarationKind.ofKind t.kind = .typeAlias := form
    refine (closed.bodies t ht).mpr (Or.inr ?_)
    cases kind : t.kind with
    | union => rfl
    | _ => rw [kind] at form; exact absurd form (by decide)
  fields := by
    intro fields held f hf
    have named := written.fields t ht fields held f hf
    exact ⟨newline_notMem_of_isName named, Name.notMem ⟨f.label, named⟩ (by decide),
      written.types _ (mem_fieldTypes_of_type ht held hf)⟩
  members := written.members t ht

theorem plain_of_mem_declarations (written : schema.Written) {order : Order} :
    ∀ d ∈ schema.declarations order, d.Plain := by
  intro d hd
  have mem := (Emission.perm_declarations closed.labelled order).mem_iff.mp hd
  rcases List.mem_append.mp mem with mem | mem
  · obtain ⟨q, hq, rfl⟩ := List.mem_map.mp mem
    exact plain_ofArguments written (Schema.mem_requests hq)
  · obtain ⟨t, ht, rfl⟩ := List.mem_map.mp mem
    exact plain_ofType closed written ht

/-- **The lines of an output are the lines of its declarations**, for a reading that finds nothing
in an empty line and nothing in a header. -/
theorem flatMap_lines_typegen {α : Type} {f : String → List α} (blank : f "" = [])
    (silent : ∀ made, ∀ l ∈ headerLines made, f l = []) {options : Options}
    (oneLine : '\n' ∉ options.indent.toList) (written : schema.Written) (now : Moment) :
    (lines (schema.typegen options now).text).flatMap f =
      (schema.declarations options.order).flatMap fun d => (d.lines options.indent).flatMap f := by
  have whole : ∀ block ∈ schema.blocks options now, ∀ l ∈ block, '\n' ∉ l.toList := by
    intro block hb
    rcases List.mem_append.mp hb with hb | hb
    · split at hb
      · exact List.mem_singleton.mp hb ▸ newline_notMem_headerLines _
      · exact absurd hb List.not_mem_nil
    · obtain ⟨d, hd, rfl⟩ := List.mem_map.mp hb
      exact (plain_of_mem_declarations closed written d hd).newline_notMem_lines oneLine
  have header : (if options.header then [headerLines (if options.timestamp then some now else none)]
      else []).flatMap (fun block => block.flatMap f) = [] := by
    split
    · rw [List.flatMap_singleton]
      exact List.flatMap_eq_nil_iff.mpr (silent _)
    · rfl
  rw [text_typegen, flatMap_lines_intercalate blank whole, blocks, List.flatMap_append, header,
    List.nil_append, List.flatMap_map]

end Closed

end Schema

end SchemaTypegen
