import SchemaTypegen.Proofs.Resolution.Labels
import SchemaTypegen.Proofs.TypeNames

/-!
# Reading an output back

The declarations of an output can be read again from its text, as far as a text shows them: a field
shows the name of its type, not the scalar or the kind behind it. A line is known by its last
character, and a field from an alias by the colon. Names tell the rest, since an indent and all that
is put around names has no character of a name in it. So equal texts show equal declarations.

* `view`: what the text of a declaration shows.
* `readLine`, `declarationsIn`: the reader of lines, and of texts.
* `Readable`: the declarations it reads back, `flatMap_readLine` and `foldr_cons_statements`.
* **`views_eq_of_text_eq`**: outputs with the same text show the same declarations.
-/

namespace SchemaTypegen

open Text Grammar

/-! ## What a text shows -/

/-- What the line of a field shows. -/
structure FieldView where
  label : String
  optional : Bool
  /-- The text of the type without its brackets. -/
  base : String
  depth : Nat
  deriving DecidableEq, Repr

def Field.view (f : Field) : FieldView := ⟨f.label, f.type.optional, f.type.baseText, f.type.depth⟩

inductive BodyView where
  | fields (items : List FieldView)
  | members (labels : List String)
  deriving DecidableEq, Repr

def Body.view : Body → BodyView
  | .fields items => .fields (items.map Field.view)
  | .members labels => .members labels

/-- What the text of a declaration shows. -/
structure DeclarationView where
  kind : DeclarationKind
  label : String
  body : BodyView
  deriving DecidableEq, Repr

def Declaration.view (d : Declaration) : DeclarationView := ⟨d.kind, d.label, d.body.view⟩

/-! ## The reader -/

def DeclarationKind.ofKeyword? (word : String) : Option DeclarationKind :=
  [interface, enum, typeAlias].find? fun kind => kind.keyword == word

/-- What a line says. -/
inductive Statement where
  | opens (kind : DeclarationKind) (label : String)
  | field (f : FieldView)
  | member (label : String)
  | union (label : String) (members : List String)
  deriving DecidableEq, Repr

/-- A field, from what stands before its colon and after it. -/
def readField (left right : List Char) : List Statement :=
  match namesIn left, namesIn right with
  | [label], [base] => [.field ⟨label, endsWith '?' left, base, right.count '['⟩]
  | _, _ => []

/-- What a line says, if it is one of a declaration and says anything. -/
def readLine (line : String) : List Statement :=
  if endsWith '{' line.toList then
    match namesIn line.toList with
    | [_, keyword, label] =>
      ((DeclarationKind.ofKeyword? keyword).map fun kind => .opens kind label).toList
    | _ => []
  else if endsWith ',' line.toList then ((namesIn line.toList).head?.map .member).toList
  else if endsWith ';' line.toList then
    match cutAt ':' line.toList.dropLast with
    | some (left, right) => readField left right
    | none =>
      match namesIn line.toList.dropLast with
      | _ :: _ :: label :: members => [.union label members]
      | _ => []
  else []

/-- What has been read from the end of a text on: the lines of a block that is still to be opened,
and the declarations after it. -/
structure Reading where
  fields : List FieldView := []
  members : List String := []
  declarations : List DeclarationView := []

/-- One statement more, in front of what has been read. -/
def Reading.cons (s : Statement) (r : Reading) : Reading :=
  match s with
  | .field f => { r with fields := f :: r.fields }
  | .member label => { r with members := label :: r.members }
  | .opens .interface label =>
    { declarations := ⟨.interface, label, .fields r.fields⟩ :: r.declarations }
  | .opens kind label => { declarations := ⟨kind, label, .members r.members⟩ :: r.declarations }
  | .union label members =>
    { declarations := ⟨.typeAlias, label, .members members⟩ :: r.declarations }

/-- The declarations that a text shows. -/
def declarationsIn (text : String) : List DeclarationView :=
  (((lines text).flatMap readLine).foldr Reading.cons {}).declarations

/-! ## Lines -/

theorem Text.namesIn_append_of_none {first : List Char} (h : ∀ c ∈ first, isNameChar c = false)
    (rest : List Char) : namesIn (first ++ rest) = namesIn rest := by
  induction first with
  | nil => rfl
  | cons c first ih =>
    rw [List.cons_append, namesIn_cons (h c List.mem_cons_self),
      ih fun d hd => h d (List.mem_cons_of_mem c hd)]

/-- A text of spaces and tabs. -/
def IsIndent (indent : String) : Prop := ∀ c ∈ indent.toList, c = ' ' ∨ c = '\t'

theorem IsIndent.notMem {indent : String} (h : IsIndent indent) {c : Char} (space : c ≠ ' ')
    (tab : c ≠ '\t') : c ∉ indent.toList :=
  fun mem => (h c mem).elim space tab

theorem IsIndent.namesIn_append {indent : String} (h : IsIndent indent) (rest : List Char) :
    namesIn (indent.toList ++ rest) = namesIn rest := by
  refine namesIn_append_of_none (fun c hc => ?_) rest
  rcases h c hc with rfl | rfl <;> decide

namespace Declaration

variable {d : Declaration} (named : isName d.label = true)

include named

theorem namesIn_heading (rest : List Char) :
    namesIn (d.heading.toList ++ ' ' :: rest) =
      "export" :: d.kind.keyword :: d.label :: namesIn rest := by
  have keyword : isName d.kind.keyword = true := by cases d.kind <;> decide
  have shape : d.heading.toList ++ ' ' :: rest = "export".toList ++ ' ' ::
      (d.kind.keyword.toList ++ ' ' :: (d.label.toList ++ ' ' :: rest)) := by
    simp [heading]
  rw [shape, namesIn_append (by decide) (by decide), namesIn_append keyword (by decide),
    namesIn_append named (by decide)]

/-- The first line of a block. -/
theorem readLine_opening : readLine (d.heading ++ " \x7b") = [.opens d.kind d.label] := by
  have shape : (d.heading ++ " \x7b").toList = d.heading.toList ++ [' '] ++ ['{'] := by simp
  have names : namesIn (d.heading.toList ++ [' '] ++ ['{']) =
      ["export", d.kind.keyword, d.label] := by
    rw [List.append_assoc]
    exact namesIn_heading named ['{']
  have known : DeclarationKind.ofKeyword? d.kind.keyword = some d.kind := by
    cases d.kind <;> decide
  rw [readLine, shape, endsWith_append_singleton, if_pos (by decide), names]
  simp only [known, Option.map_some, Option.toList_some]

/-- An alias, which has a line of its own. -/
theorem readLine_union {members : List String} (filled : members ≠ [])
    (valid : ∀ member ∈ members, isName member = true) :
    readLine (d.heading ++ " = " ++ unionText members ++ ";") = [.union d.label members] := by
  have shape : (d.heading ++ " = " ++ unionText members ++ ";").toList =
      d.heading.toList ++ ' ' :: '=' :: ' ' :: (unionText members).toList ++ [';'] := by simp
  have noColon : ':' ∉ d.heading.toList ++ ' ' :: '=' :: ' ' :: (unionText members).toList := by
    simp [notMem_heading named (c := ':') (by decide) (by decide),
      notMem_unionText (c := ':') (by decide) (by decide) valid]
  have names : namesIn (d.heading.toList ++ ' ' :: '=' :: ' ' :: (unionText members).toList) =
      "export" :: d.kind.keyword :: d.label :: members := by
    rw [namesIn_heading named, namesIn_cons (by decide), namesIn_cons (by decide),
      namesIn_unionText valid filled]
  rw [readLine, shape, endsWith_append_singleton, endsWith_append_singleton,
    endsWith_append_singleton, if_neg (by decide), if_neg (by decide), if_pos (by decide),
    List.dropLast_concat, cutAt_eq_none noColon, names]

end Declaration

/-- The line of an enum value. -/
theorem readLine_memberLine {indent : String} (blank : IsIndent indent) {member : String}
    (named : isName member = true) : readLine (memberLine indent member) = [.member member] := by
  have shape : (memberLine indent member).toList =
      indent.toList ++ (member.toList ++ ' ' :: ("= '" ++ member ++ "'").toList) ++ [','] := by
    simp [memberLine]
  have names : (namesIn (indent.toList ++ (member.toList ++ ' ' ::
      ("= '" ++ member ++ "'").toList) ++ [','])).head? = some member := by
    rw [List.append_assoc, blank.namesIn_append, List.append_assoc, List.cons_append,
      namesIn_append named (by decide)]
    rfl
  rw [readLine, shape, endsWith_append_singleton, endsWith_append_singleton, if_neg (by decide),
    if_pos (by decide), names]
  rfl

theorem FieldType.count_text {t : FieldType} (h : isName t.baseText = true) :
    t.text.toList.count '[' = t.depth := by
  have brackets : ∀ depth, (String.join (List.replicate depth "[]")).toList.count '[' = depth := by
    intro depth
    induction depth with
    | zero => rfl
    | succ depth ih =>
      rw [List.replicate_succ, String.join_cons, String.toList_append, List.count_append, ih]
      exact Nat.add_comm 1 depth
  have base : t.baseText.toList.count '[' = 0 :=
    List.count_eq_zero.mpr (Name.notMem ⟨t.baseText, h⟩ (by decide))
  rw [text, String.toList_append, List.count_append, base, brackets, Nat.zero_add]

/-- What stands before the colon of a field. -/
theorem endsWith_optional {label : String} (named : isName label = true) (before : List Char)
    (optional : Bool) :
    endsWith '?' (before ++ (label.toList ++ if optional then ['?'] else [])) = optional := by
  cases optional with
  | true =>
    rw [if_pos rfl, ← List.append_assoc, endsWith_append_singleton]
    rfl
  | false =>
    rw [if_neg Bool.false_ne_true, List.append_nil, endsWith_eq_false_iff]
    intro c hc
    rw [List.getLast?_append_of_ne_nil _ (Name.toList_ne_nil ⟨label, named⟩)] at hc
    have own := Name.isNameChar_of_mem ⟨label, named⟩ (List.mem_of_getLast? hc)
    rw [beq_eq_false_iff_ne]
    rintro rfl
    exact absurd own (by decide)

/-- The line of a field. -/
theorem readLine_statement {indent : String} (blank : IsIndent indent) {f : Field}
    (label : isName f.label = true) (base : isName f.type.baseText = true) :
    readLine (f.statement indent) = [.field f.view] := by
  obtain ⟨mark, marked⟩ : ∃ mark : List Char, mark = if f.type.optional then ['?'] else [] :=
    ⟨_, rfl⟩
  have shape : (f.statement indent).toList = indent.toList ++ (f.label.toList ++ mark) ++
      ':' :: ' ' :: f.type.text.toList ++ [';'] := by
    cases optional : f.type.optional <;> simp [marked, Field.statement, optional]
  have noColon : ':' ∉ indent.toList ++ (f.label.toList ++ mark) := by
    have inMark : ':' ∉ mark := by rw [marked]; split <;> decide
    simp only [List.mem_append, not_or]
    exact ⟨blank.notMem (by decide) (by decide), Name.notMem ⟨f.label, label⟩ (by decide), inMark⟩
  have left : namesIn (indent.toList ++ (f.label.toList ++ mark)) = [f.label] := by
    rw [blank.namesIn_append, marked]
    split
    · exact namesIn_append label (by decide) []
    · rw [List.append_nil, namesIn_name label]
  have ending : endsWith '?' (indent.toList ++ (f.label.toList ++ mark)) = f.type.optional :=
    marked ▸ endsWith_optional label indent.toList f.type.optional
  have right : namesIn (' ' :: f.type.text.toList) = [f.type.baseText] :=
    (namesIn_cons (by decide) _).trans (FieldType.namesIn_text base)
  have depth : (' ' :: f.type.text.toList).count '[' = f.type.depth := by
    rw [List.count_cons_of_ne (by decide), FieldType.count_text base]
  rw [readLine, shape, endsWith_append_singleton, endsWith_append_singleton,
    endsWith_append_singleton, if_neg (by decide), if_neg (by decide), if_pos (by decide),
    List.dropLast_concat, cutAt_append noColon]
  simp only [readField, left, right, ending, depth]
  rfl

theorem readLine_headerLines (made : Option Moment) : ∀ l ∈ headerLines made, readLine l = [] := by
  intro l hl
  rw [readLine, endsWith, endsWith, endsWith]
  rcases getLast?_headerLines hl with last | last | last
  · rw [last]; rfl
  · rw [last]; rfl
  · rw [last]; rfl

/-! ## Declarations -/

/-- The lines of a declaration, as they are read. -/
def DeclarationView.statements (v : DeclarationView) : List Statement :=
  match v.body, v.kind with
  | .members labels, .typeAlias => [.union v.label labels]
  | .members labels, kind => .opens kind v.label :: labels.map .member
  | .fields items, kind => .opens kind v.label :: items.map .field

namespace Declaration

/-- A declaration that can be read back: its body is of the form that its keyword asks for, what is
written of it are names, and an alias has a member. -/
inductive Readable : Declaration → Prop where
  | interface {label : String} {items : List Field} (named : isName label = true)
      (fields : ∀ f ∈ items, isName f.label = true ∧ isName f.type.baseText = true) :
      Readable ⟨.interface, label, .fields items⟩
  | enum {label : String} {labels : List String} (named : isName label = true)
      (members : ∀ member ∈ labels, isName member = true) : Readable ⟨.enum, label, .members labels⟩
  | typeAlias {label : String} {labels : List String} (named : isName label = true)
      (members : ∀ member ∈ labels, isName member = true) (filled : labels ≠ []) :
      Readable ⟨.typeAlias, label, .members labels⟩

namespace Readable

variable {d : Declaration} (h : d.Readable)

include h

/-- **The lines of a declaration say what it shows.** -/
theorem flatMap_readLine {indent : String} (blank : IsIndent indent) :
    (d.lines indent).flatMap readLine = d.view.statements := by
  have block : ∀ {kind label} {ls : List String} {ss : List Statement} (body : Body),
      isName label = true → ls.flatMap readLine = ss →
      ((heading ⟨kind, label, body⟩ ++ " \x7b") :: (ls ++ ["\x7d"])).flatMap readLine =
        .opens kind label :: ss := by
    intro kind label ls ss body named read
    have closing : readLine "\x7d" = [] := by decide
    rw [List.flatMap_cons, List.flatMap_append, read, List.flatMap_singleton, closing,
      readLine_opening named, List.append_nil]
    rfl
  cases h with
  | @interface label items named fields =>
    refine block (.fields items) named ?_
    rw [Body.lines, List.flatMap_map, List.map_map, List.map_eq_flatMap]
    exact List.flatMap_congr fun f hf => readLine_statement blank (fields f hf).1 (fields f hf).2
  | @enum label labels named members =>
    refine block (.members labels) named ?_
    rw [Body.lines, List.flatMap_map, List.map_eq_flatMap]
    exact List.flatMap_congr fun member hm => readLine_memberLine blank (members member hm)
  | typeAlias named members filled =>
    rw [lines, List.flatMap_singleton]
    exact readLine_union named filled members

/-- **What the lines say makes the declaration**, in front of the declarations read before. -/
theorem foldr_cons_statements (read : List DeclarationView) :
    d.view.statements.foldr Reading.cons { declarations := read } =
      { declarations := d.view :: read } := by
  have fields : ∀ items : List FieldView,
      (items.map Statement.field).foldr Reading.cons { declarations := read } =
        { fields := items, declarations := read } := by
    intro items
    induction items with
    | nil => rfl
    | cons f items ih => rw [List.map_cons, List.foldr_cons, ih]; rfl
  have members : ∀ labels : List String,
      (labels.map Statement.member).foldr Reading.cons { declarations := read } =
        { members := labels, declarations := read } := by
    intro labels
    induction labels with
    | nil => rfl
    | cons label labels ih => rw [List.map_cons, List.foldr_cons, ih]; rfl
  cases h with
  | @interface label items =>
    exact congrArg (Reading.cons (.opens .interface label)) (fields (items.map Field.view))
  | @enum label labels => exact congrArg (Reading.cons (.opens .enum label)) (members labels)
  | typeAlias => rfl

end Readable

end Declaration

/-! ## Outputs -/

namespace Schema

variable {schema : Schema}

theorem readable_ofArguments (written : schema.Written) (legible : schema.Legible)
    {q : RootKind × Request} (hq : q ∈ schema.requests) :
    (Declaration.ofArguments q.1 q.2).Readable :=
  .interface (Declaration.isName_argumentLabel q.1 (written.requests q hq)) fun a ha =>
    ⟨legible.arguments q hq a ha, written.types _ (mem_fieldTypes_of_request hq ha)⟩

theorem readable_ofType (closed : schema.Closed) (written : schema.Written)
    (legible : schema.Legible) {t : TypeDef} (ht : t ∈ schema.types.values) :
    (Declaration.ofType t).Readable := by
  have label := written.labels t ht
  have form := closed.bodies t ht
  have filled := legible.unions t ht
  have fields : ∀ items, t.body = .fields items → ∀ f ∈ items,
      isName f.label = true ∧ isName f.type.baseText = true := fun items held f hf =>
    ⟨written.fields t ht items held f hf, written.types _ (mem_fieldTypes_of_type ht held hf)⟩
  have members := written.members t ht
  obtain ⟨kind, name, body⟩ := t
  cases body with
  | fields items =>
    cases kind with
    | enum => exact absurd (form.mpr (Or.inl rfl)) (by simp [Body.members?])
    | union => exact absurd (form.mpr (Or.inr rfl)) (by simp [Body.members?])
    | scalar | input | interface | object => exact .interface label (fields items rfl)
  | members labels =>
    rcases form.mp rfl with rfl | rfl
    · exact .enum label (members labels rfl)
    · exact .typeAlias label (members labels rfl) fun empty => filled rfl (by rw [empty])

theorem readable_of_mem_declarations (closed : schema.Closed) (written : schema.Written)
    (legible : schema.Legible) {order : Order} :
    ∀ d ∈ schema.declarations order, d.Readable := by
  intro d hd
  have mem := (Emission.perm_declarations closed.labelled order).mem_iff.mp hd
  rcases List.mem_append.mp mem with mem | mem
  · obtain ⟨q, hq, rfl⟩ := List.mem_map.mp mem
    exact readable_ofArguments written legible (Schema.mem_requests hq)
  · obtain ⟨t, ht, rfl⟩ := List.mem_map.mp mem
    exact readable_ofType closed written legible ht

/-- **The declarations of an output are read back from its text.** -/
theorem declarationsIn_typegen (closed : schema.Closed) (written : schema.Written)
    (legible : schema.Legible) {options : Options} (blank : IsIndent options.indent)
    (now : Moment) :
    declarationsIn (schema.typegen options now).text =
      (schema.declarations options.order).map Declaration.view := by
  have silent : readLine "" = [] := by decide
  have oneLine : '\n' ∉ options.indent.toList := blank.notMem (by decide) (by decide)
  have readable : ∀ d ∈ schema.declarations options.order, d.Readable :=
    readable_of_mem_declarations closed written legible
  rw [declarationsIn, flatMap_lines_typegen closed silent readLine_headerLines oneLine written,
    List.flatMap_congr fun d hd => (readable d hd).flatMap_readLine blank]
  -- From the last declaration to the first, no line is left without a block.
  have all : ∀ {ds : List Declaration}, (∀ d ∈ ds, d.Readable) →
      (ds.flatMap fun d => d.view.statements).foldr Reading.cons {} =
        { declarations := ds.map Declaration.view } := by
    intro ds readable
    induction ds with
    | nil => rfl
    | cons d ds ih =>
      rw [List.flatMap_cons, List.foldr_append,
        ih fun e he => readable e (List.mem_cons_of_mem d he),
        (readable d List.mem_cons_self).foldr_cons_statements, List.map_cons]
  rw [all readable]

/-- **Outputs with the same text show the same declarations.** -/
theorem views_eq_of_text_eq {source source' : String} {schema schema' : Schema}
    (read : Schema.ofSource source = .ok schema) (read' : Schema.ofSource source' = .ok schema')
    {options : Options} (blank : IsIndent options.indent) {now now' : Moment}
    (same : (schema.typegen options now).text = (schema'.typegen options now').text) :
    (schema.declarations options.order).map Declaration.view =
      (schema'.declarations options.order).map Declaration.view := by
  obtain ⟨closed, written⟩ := written_of_ofSource read
  obtain ⟨closed', written'⟩ := written_of_ofSource read'
  rw [← declarationsIn_typegen closed written (legible_of_ofSource read) blank now, same,
    declarationsIn_typegen closed' written' (legible_of_ofSource read') blank now']

end Schema

/-- An object of integers and a value that is called like a word of the output. -/
def wholeSource : String := "enum E\x7bexport\x7dtype A\x7bx:[[Int]]!,e:E\x7d"

/-- An input of the same shape, with numbers of another kind. -/
def decimalSource : String := "enum E\x7bexport\x7dinput A\x7bx:[[Float]]!,e:E\x7d"

/-- The schema of `wholeSource`. -/
def wholeSchema : Schema where
  roots := {}
  types := ⟨[("E", ⟨.enum, "E", .members ["export"]⟩),
    ("A", ⟨.object, "A", .fields [⟨"x", .scalar .int, false, 2, true⟩,
      ⟨"e", .named .enum "E", true, 0, false⟩]⟩)], by decide⟩

/-- The schema of `decimalSource`. -/
def decimalSchema : Schema where
  roots := {}
  types := ⟨[("E", ⟨.enum, "E", .members ["export"]⟩),
    ("A", ⟨.input, "A", .fields [⟨"x", .scalar .float, false, 2, true⟩,
      ⟨"e", .named .enum "E", true, 0, false⟩]⟩)], by decide⟩

theorem Schema.ofSource_wholeSource : Schema.ofSource wholeSource = .ok wholeSchema := by
  have defined : Source.definitions wholeSource = .ok [⟨"enum", "E", ["export"], 1⟩,
      ⟨"type", "A", ["x:[[Int]]!", "e:E"], 1⟩] :=
    Source.definitions_of_sweep (onLine 1
      [.name "enum", .name "E", .mark .openBrace, .name "export", .mark .closeBrace, .name "type",
        .name "A", .mark .openBrace, .name "x", .mark .colon, .mark .openBracket,
        .mark .openBracket, .name "Int", .mark .closeBracket, .mark .closeBracket, .mark .bang,
        .mark .comma, .name "e", .mark .colon, .name "E", .mark .closeBrace]) (by decide) (by rfl)
  rw [Schema.ofSource, Document.ofSource, defined]
  rfl

theorem Schema.ofSource_decimalSource : Schema.ofSource decimalSource = .ok decimalSchema := by
  have defined : Source.definitions decimalSource = .ok [⟨"enum", "E", ["export"], 1⟩,
      ⟨"input", "A", ["x:[[Float]]!", "e:E"], 1⟩] :=
    Source.definitions_of_sweep (onLine 1
      [.name "enum", .name "E", .mark .openBrace, .name "export", .mark .closeBrace, .name "input",
        .name "A", .mark .openBrace, .name "x", .mark .colon, .mark .openBracket,
        .mark .openBracket, .name "Float", .mark .closeBracket, .mark .closeBracket, .mark .bang,
        .mark .comma, .name "e", .mark .colon, .name "E", .mark .closeBrace]) (by decide) (by rfl)
  rw [Schema.ofSource, Document.ofSource, defined]
  rfl

/-- Options without a header and without an indent. -/
def Options.flush : Options := { Options.bare with indent := "" }

/-- Two schemas that differ, and the same text and declarations. -/
theorem Schema.views_eq_of_text_eq_wholeSource :
    wholeSchema ≠ decimalSchema ∧
      (wholeSchema.typegen Options.flush ⟨2024, 2, 29, 9, 5, 0⟩).text =
        (decimalSchema.typegen Options.flush ⟨2023, 1, 1, 0, 0, 0⟩).text ∧
      (wholeSchema.declarations .declaration).map Declaration.view =
        (decimalSchema.declarations .declaration).map Declaration.view := by
  have blank : IsIndent Options.flush.indent := fun c hc => absurd hc List.not_mem_nil
  have text : (wholeSchema.typegen Options.flush ⟨2024, 2, 29, 9, 5, 0⟩).text =
      (decimalSchema.typegen Options.flush ⟨2023, 1, 1, 0, 0, 0⟩).text := by rfl
  exact ⟨by decide, text,
    views_eq_of_text_eq ofSource_wholeSource ofSource_decimalSource blank text⟩

end SchemaTypegen
