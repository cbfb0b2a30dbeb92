import SchemaTypegen.Proofs.Exports

/-!
# The names an output uses

In the place of a type stand the names of fields' and arguments' types and the members of aliases.
A name is used legally if it is a built-in type of the output's language or the label of one of its
declarations. Fields are resolved into scalars, which are translated, and named types, which are
declared. The members of a union are looked up in the same table, scalars included, but they are
written as they are.

* `unionText_eq_trimEnd`: the members of a union, joined and trimmed at the end.
* `usedTypeNames_typegen`: the names read from an output are those its declarations use.
* `undeclared_iff`: the names that are used and not declared are the scalars in unions.
* **`names_declared_iff`**: an output is closed exactly if no union has a scalar as a member.
* `scalar_member_undeclared`: there are sources with other outputs.
-/

namespace SchemaTypegen

open Text Grammar

/-! ## The text of a union -/

theorem flatMap_member_eq {members : List String} (filled : members ≠ []) :
    (members.flatMap fun member => member.toList ++ [' ', '|', ' ']) =
      (" | ".intercalate members).toList ++ [' ', '|', ' '] := by
  induction members with
  | nil => exact absurd rfl filled
  | cons member members ih =>
    cases members with
    | nil => simp
    | cons next members =>
      rw [List.flatMap_cons, ih (List.cons_ne_nil next members), String.intercalate_cons_cons]
      simp

/-- **The text of a union**: its members joined by bars, with blanks dropped from the end. -/
theorem unionText_eq_trimEnd {members : List String} (filled : members ≠ []) :
    unionText members = String.ofList (trimEnd (" | ".intercalate members).toList) := by
  have last : ∀ (text : List Char), trimEnd (text ++ [' ', '|', ' ']) = text ++ [' ', '|'] := by
    intro text
    have split : text ++ [' ', '|', ' '] = text ++ [' ', '|'] ++ [' '] := by simp
    rw [split, trimEnd, dropEndWhile_append_of_all _ (List.forall_mem_singleton.mpr rfl)]
    exact dropEndWhile_of_last (by simp; decide)
  have bar : ∀ (text : List Char),
      dropEndWhile (· == '|') (text ++ [' ', '|']) = text ++ [' '] := by
    intro text
    have split : text ++ [' ', '|'] = text ++ [' '] ++ ['|'] := by simp
    rw [split, dropEndWhile_append_of_all _ (List.forall_mem_singleton.mpr rfl)]
    exact dropEndWhile_of_last (by simp)
  have gap : ∀ (text : List Char), trimEnd (text ++ [' ']) = trimEnd text := fun text =>
    dropEndWhile_append_of_all text (List.forall_mem_singleton.mpr rfl)
  rw [unionText, if_neg (by simpa using filled)]
  simp only [flatMap_member_eq filled, last, bar, gap]

/-- The text of a joined list ends in the text of its last part. -/
theorem exists_intercalate_eq {members : List String} (filled : members ≠ []) :
    ∃ before, (" | ".intercalate members).toList = before ++ (members.getLast filled).toList := by
  induction members with
  | nil => exact absurd rfl filled
  | cons member members ih =>
    cases members with
    | nil => exact ⟨[], by simp⟩
    | cons next members =>
      obtain ⟨before, ends⟩ := ih (List.cons_ne_nil next members)
      refine ⟨(member ++ " | ").toList ++ before, ?_⟩
      rw [String.intercalate_cons_cons, String.toList_append, ends,
        List.getLast_cons (List.cons_ne_nil next members), List.append_assoc]

theorem unionText_of_getLast {members : List String} (filled : members ≠ [])
    (last : (members.getLast filled).toList ≠ [])
    (ends : ∀ c ∈ (members.getLast filled).toList.getLast?, isBlank c = false) :
    unionText members = " | ".intercalate members := by
  obtain ⟨before, shape⟩ := exists_intercalate_eq filled
  have whole : trimEnd (" | ".intercalate members).toList = (" | ".intercalate members).toList := by
    refine dropEndWhile_of_last ?_
    rwa [shape, List.getLast?_append_of_ne_nil _ last]
  rw [unionText_eq_trimEnd filled, whole, String.ofList_toList]

/-! ## Names in a text -/

namespace Text

/-- The names in a text: its longest parts made of name characters. -/
def namesIn (text : List Char) : List String :=
  ((pieces (fun c => !isNameChar c) text).filter fun piece => !piece.isEmpty).map String.ofList

theorem namesIn_cons {c : Char} (h : isNameChar c = false) (rest : List Char) :
    namesIn (c :: rest) = namesIn rest := by
  rw [namesIn, pieces, if_pos (by rw [h]; rfl), List.filter_cons_of_neg (by simp)]
  rfl

section Name

variable {name : String} (h : isName name = true)

include h

theorem isNameChar_of_mem_name : ∀ c ∈ name.toList, (!isNameChar c) = false := by
  intro c hc
  rw [Name.isNameChar_of_mem ⟨name, h⟩ hc]
  rfl

theorem namesIn_name : namesIn name.toList = [name] := by
  have filled : name.toList ≠ [] := Name.toList_ne_nil ⟨name, h⟩
  rw [namesIn, pieces_of_all (isNameChar_of_mem_name h),
    List.filter_cons_of_pos (by simpa using filled)]
  simp

theorem namesIn_append {c : Char} (hc : isNameChar c = false) (rest : List Char) :
    namesIn (name.toList ++ c :: rest) = name :: namesIn rest := by
  have filled : name.toList ≠ [] := Name.toList_ne_nil ⟨name, h⟩
  rw [namesIn, pieces_append (isNameChar_of_mem_name h) (by rw [hc]; rfl),
    List.filter_cons_of_pos (by simpa using filled), List.map_cons, String.ofList_toList]
  rfl

end Name

theorem namesIn_intercalate {names : List String} (h : ∀ name ∈ names, isName name = true) :
    namesIn (" | ".intercalate names).toList = names := by
  induction names with
  | nil => rfl
  | cons name names ih =>
    have first := h name List.mem_cons_self
    have ih := ih fun n hn => h n (List.mem_cons_of_mem name hn)
    cases names with
    | nil =>
      rw [String.intercalate_singleton]
      exact namesIn_name first
    | cons next names =>
      have shape : (" | ".intercalate (name :: next :: names)).toList =
          name.toList ++ ' ' :: '|' :: ' ' :: (" | ".intercalate (next :: names)).toList := by
        simp [String.intercalate_cons_cons]
      rw [shape, namesIn_append first (by decide), namesIn_cons (by decide),
        namesIn_cons (by decide), ih]

end Text

theorem unionText_of_isName {members : List String} (h : ∀ member ∈ members, isName member = true)
    (filled : members ≠ []) : unionText members = " | ".intercalate members := by
  have named := h _ (List.getLast_mem filled)
  refine unionText_of_getLast filled (Name.toList_ne_nil ⟨_, named⟩) fun c hc => ?_
  exact isBlank_eq_false_of_isNameChar (Name.isNameChar_of_mem ⟨_, named⟩ (List.mem_of_getLast? hc))

theorem namesIn_unionText {members : List String} (h : ∀ member ∈ members, isName member = true)
    (filled : members ≠ []) : namesIn (unionText members).toList = members := by
  rw [unionText_of_isName h filled, namesIn_intercalate h]

theorem FieldType.namesIn_text {t : FieldType} (h : isName t.baseText = true) :
    namesIn t.text.toList = [t.baseText] := by
  have shape : ∀ depth, (String.join (List.replicate (depth + 1) "[]")).toList =
      '[' :: ']' :: (String.join (List.replicate depth "[]")).toList := by
    simp [List.replicate_succ, String.join_cons]
  have brackets : ∀ depth, namesIn (String.join (List.replicate depth "[]")).toList = [] := by
    intro depth
    induction depth with
    | zero => rfl
    | succ depth ih => rw [shape, namesIn_cons (by decide), namesIn_cons (by decide), ih]
  rw [text, String.toList_append]
  cases t.depth with
  | zero => simpa using namesIn_name h
  | succ depth => rw [shape, namesIn_append h (by decide), namesIn_cons (by decide), brackets]

/-! ## Names in the place of types -/

/-- The names that a declaration uses as types. The values of an enum are none. -/
def Declaration.typeNames (d : Declaration) : List String :=
  match d.body, d.kind with
  | .fields items, _ => items.map fun f => f.type.baseText
  | .members labels, .typeAlias => if labels.isEmpty then ["never"] else labels
  | .members _, _ => []

/-- The type that a line states: what stands before a semicolon at its end and after the first colon
or, if there is none, the first equals sign. -/
def typeText? (line : List Char) : Option (List Char) :=
  if endsWith ';' line then
    ((cutAt ':' line.dropLast).or (cutAt '=' line.dropLast)).map Prod.snd
  else none

/-- The names that a line uses as types. -/
def lineTypeNames (line : String) : List String := ((typeText? line.toList).map namesIn).getD []

/-- The names that a text uses as types, line by line. -/
def usedTypeNames (text : String) : List String := (lines text).flatMap lineTypeNames

theorem lineTypeNames_of_last {line : String} {before : List Char} {c : Char}
    (shape : line.toList = before ++ [c]) (other : c ≠ ';') : lineTypeNames line = [] := by
  rw [lineTypeNames, typeText?, shape, endsWith_append_singleton, if_neg (by simpa using other)]
  rfl

theorem lineTypeNames_statement {indent : String} (noColon : ':' ∉ indent.toList) {f : Field}
    (label : ':' ∉ f.label.toList) (base : isName f.type.baseText = true) :
    lineTypeNames (f.statement indent) = [f.type.baseText] := by
  have before : ':' ∉ (indent ++ f.label ++ if f.type.optional then "?" else "").toList := by
    cases f.type.optional <;> simp [noColon, label]
  have shape : (f.statement indent).toList =
      (indent ++ f.label ++ if f.type.optional then "?" else "").toList ++
        ':' :: ' ' :: f.type.text.toList ++ [';'] := by
    simp [Field.statement]
  rw [lineTypeNames, typeText?, shape, endsWith_append_singleton, if_pos (by decide),
    List.dropLast_concat, cutAt_append before]
  exact (namesIn_cons (by decide) _).trans (FieldType.namesIn_text base)

theorem lineTypeNames_memberLine (indent member : String) :
    lineTypeNames (memberLine indent member) = [] := by
  have shape : (memberLine indent member).toList =
      (indent ++ member ++ " = '" ++ member ++ "'").toList ++ [','] := by simp [memberLine]
  exact lineTypeNames_of_last shape (by decide)

theorem getLast?_headerLines {made : Option Moment} {l : String} (hl : l ∈ headerLines made) :
    l.toList.getLast? = some '*' ∨ l.toList.getLast? = some '.' ∨
      l.toList.getLast? = some '/' := by
  revert l
  simp [headerLines, List.getLast?_cons]

theorem lineTypeNames_headerLines (made : Option Moment) :
    ∀ l ∈ headerLines made, lineTypeNames l = [] := by
  intro l hl
  have silent : ∀ c, l.toList.getLast? = some c → c ≠ ';' → lineTypeNames l = [] := by
    intro c last other
    obtain ⟨before, shape⟩ := List.getLast?_eq_some_iff.mp last
    exact lineTypeNames_of_last shape other
  rcases getLast?_headerLines hl with last | last | last
  · exact silent _ last (by decide)
  · exact silent _ last (by decide)
  · exact silent _ last (by decide)

namespace Declaration.Plain

variable {d : Declaration} (plain : d.Plain)

include plain

theorem lineTypeNames_alias {members : List String}
    (named : ∀ member ∈ members, isName member = true) :
    lineTypeNames (d.heading ++ " = " ++ unionText members ++ ";") =
      if members.isEmpty then ["never"] else members := by
  have heading : ∀ {c}, isNameChar c = false → c ≠ ' ' → c ∉ (d.heading ++ " ").toList := by
    intro c hc apart
    simp [notMem_heading plain.label hc apart, apart]
  have shape : (d.heading ++ " = " ++ unionText members ++ ";").toList =
      (d.heading ++ " ").toList ++ '=' :: ' ' :: (unionText members).toList ++ [';'] := by simp
  have noColon : ':' ∉ (d.heading ++ " ").toList ++ '=' :: ' ' :: (unionText members).toList := by
    rw [List.mem_append, not_or]
    exact ⟨heading (by decide) (by decide),
      by simp [notMem_unionText (c := ':') (by decide) (by decide) named]⟩
  rw [lineTypeNames, typeText?, shape, endsWith_append_singleton, if_pos (by decide),
    List.dropLast_concat, cutAt_eq_none noColon, Option.none_or,
    cutAt_append (heading (by decide) (by decide))]
  refine (namesIn_cons (by decide) _).trans ?_
  cases members with
  | nil => decide
  | cons member members => exact namesIn_unionText named (List.cons_ne_nil member members)

theorem flatMap_lineTypeNames_body (block : d.kind ≠ .typeAlias) {indent : String}
    (noColon : ':' ∉ indent.toList) :
    (d.body.lines indent).flatMap lineTypeNames = d.typeNames := by
  obtain ⟨kind, label, body⟩ := d
  cases body with
  | fields items =>
    have each : ∀ f ∈ items, lineTypeNames (f.statement indent) = [f.type.baseText] := by
      intro f hf
      obtain ⟨-, label, base⟩ := plain.fields items rfl f hf
      exact lineTypeNames_statement noColon label base
    simp only [Body.lines, typeNames, List.flatMap_map, List.flatMap_congr each]
    exact List.map_eq_flatMap.symm
  | members labels =>
    have none : typeNames ⟨kind, label, .members labels⟩ = [] := by
      cases kind with
      | typeAlias => exact absurd rfl block
      | interface | enum => rfl
    rw [none, Body.lines, List.flatMap_map]
    exact List.flatMap_eq_nil_iff.mpr fun member _ => lineTypeNames_memberLine indent member

/-- **The names read from the lines of a declaration are those it uses.** -/
theorem flatMap_lineTypeNames {indent : String} (noColon : ':' ∉ indent.toList) :
    (d.lines indent).flatMap lineTypeNames = d.typeNames := by
  have block : d.kind ≠ .typeAlias →
      ((d.heading ++ " \x7b") :: (d.body.lines indent ++ ["\x7d"])).flatMap lineTypeNames =
        d.typeNames := by
    intro form
    have shape : (d.heading ++ " \x7b").toList = (d.heading ++ " ").toList ++ ['{'] := by simp
    have first := lineTypeNames_of_last shape (by decide)
    have last : lineTypeNames "\x7d" = [] := by decide
    rw [List.flatMap_cons, List.flatMap_append, plain.flatMap_lineTypeNames_body form noColon,
      first, List.flatMap_singleton, last, List.append_nil, List.nil_append]
  cases kind : d.kind with
  | typeAlias =>
    obtain ⟨members, held, named, lines⟩ := plain.exists_members kind
    rw [lines, List.flatMap_singleton, plain.lineTypeNames_alias named, typeNames, held, kind]
  | interface => simpa [lines, kind] using block
  | enum => simpa [lines, kind] using block

end Declaration.Plain

/-! ## Closed outputs -/

/-- The types of the output's language that need no declaration. -/
def builtInTypes : List String := ["number", "string", "boolean", "never"]

/-- Every name is a built-in type or one of the labels. -/
def Declares (labels names : List String) : Prop :=
  ∀ name ∈ names, name ∈ builtInTypes ∨ name ∈ labels

/-- The labels of argument interfaces are longer than those of scalars. -/
theorem Declaration.argumentLabel_ne_label (kind : RootKind) (r : Request) (s : Scalar) :
    argumentLabel kind r ≠ s.label := by
  intro same
  have long : 9 ≤ (argumentSuffix kind).length := by cases kind <;> decide
  have short : s.label.length < 9 := by cases s <;> decide
  rw [← same, argumentLabel_eq, String.length_append] at short
  omega

/-- The built-in scalars among the members of a union. -/
def TypeDef.scalarMembers (t : TypeDef) : List String :=
  match t.body, t.kind with
  | .members labels, .union => labels.filter fun label => (Scalar.ofLabel? label).isSome
  | _, _ => []

theorem TypeDef.mem_scalarMembers {t : TypeDef} {name : String} :
    name ∈ t.scalarMembers ↔ (Scalar.ofLabel? name).isSome ∧ t.kind = .union ∧
      ∃ members, t.body = .members members ∧ name ∈ members := by
  obtain ⟨kind, label, body⟩ := t
  cases body with
  | fields fields => simp [scalarMembers]
  | members members =>
    cases kind with
    | union => simp [scalarMembers, and_comm]
    | scalar | enum | input | interface | object => simp [scalarMembers]

namespace Schema

variable {schema : Schema}

/-- The built-in scalars among the members of unions. -/
def scalarMembers (schema : Schema) : List String :=
  schema.types.values.flatMap TypeDef.scalarMembers

/-- The names that the declarations of a schema use as types. -/
def typeNames (schema : Schema) (order : Order) : List String :=
  (schema.declarations order).flatMap Declaration.typeNames

theorem typeNames_ofType_fields {t : TypeDef} {fields : List Field}
    (body : t.body = .fields fields) :
    (Declaration.ofType t).typeNames = fields.map fun f => f.type.baseText := by
  simp only [Declaration.ofType, Declaration.typeNames, body]

theorem typeNames_ofType_union {t : TypeDef} (union : t.kind = .union) {members : List String}
    (body : t.body = .members members) :
    (Declaration.ofType t).typeNames = if members.isEmpty then ["never"] else members := by
  simp only [Declaration.ofType, Declaration.typeNames, body, union, DeclarationKind.ofKind]

theorem typeNames_ofType_enum {t : TypeDef} (other : t.kind ≠ .union) {members : List String}
    (body : t.body = .members members) : (Declaration.ofType t).typeNames = [] := by
  cases kind : t.kind with
  | union => exact absurd kind other
  | scalar | enum | input | interface | object =>
    simp only [Declaration.ofType, Declaration.typeNames, body, kind, DeclarationKind.ofKind]

section Closed

variable (closed : schema.Closed)

include closed

theorem mem_labels_of_mem_keys {label : String} (h : label ∈ schema.types.keys) (order : Order) :
    label ∈ (schema.declarations order).map Declaration.label :=
  (perm_labels closed order).mem_iff.mpr (List.mem_append_right _ h)

/-- A scalar is translated, and a named type is there. -/
theorem mem_of_fieldTypes {t : FieldType} (ht : t ∈ schema.fieldTypes) :
    t.baseText ∈ builtInTypes ∨ t.baseText ∈ schema.types.keys := by
  cases base : t.base with
  | scalar s =>
    have text : t.baseText = s.typeText := by rw [FieldType.baseText, base]
    rw [text]
    exact Or.inl (by cases s <;> decide)
  | named kind label =>
    have text : t.baseText = label := by rw [FieldType.baseText, base]
    obtain ⟨u, found, -⟩ := closed.references t ht kind label base
    rw [text]
    exact Or.inr (List.mem_map_of_mem (Catalog.mem_of_lookup found))

theorem mem_typeNames_ofType {t : TypeDef} (ht : t ∈ schema.types.values) {name : String}
    (hn : name ∈ (Declaration.ofType t).typeNames) :
    (name ∈ builtInTypes ∨ name ∈ schema.types.keys) ∨ name ∈ schema.scalarMembers := by
  cases body : t.body with
  | fields fields =>
    rw [typeNames_ofType_fields body] at hn
    obtain ⟨f, hf, rfl⟩ := List.mem_map.mp hn
    exact Or.inl (mem_of_fieldTypes closed (mem_fieldTypes_of_type ht body hf))
  | members members =>
    by_cases union : t.kind = .union
    · rw [typeNames_ofType_union union body] at hn
      split at hn
      · obtain rfl := List.mem_singleton.mp hn
        exact Or.inl (Or.inl (by decide))
      · rcases closed.members t ht union members (by rw [body]; rfl) name hn with key | scalar
        · exact Or.inl (Or.inr key)
        · have own := TypeDef.mem_scalarMembers.mpr ⟨scalar, union, members, body, hn⟩
          exact Or.inr (List.mem_flatMap.mpr ⟨t, ht, own⟩)
    · rw [typeNames_ofType_enum union body] at hn
      exact absurd hn List.not_mem_nil

/-- **What a used name may be**: a built-in type, a type of the schema or a scalar in a union. -/
theorem mem_typeNames {order : Order} {name : String} (hn : name ∈ schema.typeNames order) :
    (name ∈ builtInTypes ∨ name ∈ schema.types.keys) ∨ name ∈ schema.scalarMembers := by
  obtain ⟨d, hd, hn⟩ := List.mem_flatMap.mp hn
  have mem := (Emission.perm_declarations closed.labelled order).mem_iff.mp hd
  rcases List.mem_append.mp mem with mem | mem
  · obtain ⟨q, hq, rfl⟩ := List.mem_map.mp mem
    obtain ⟨f, hf, rfl⟩ := List.mem_map.mp hn
    have stated := mem_fieldTypes_of_request (Schema.mem_requests hq) hf
    exact Or.inl (mem_of_fieldTypes closed stated)
  · obtain ⟨t, ht, rfl⟩ := List.mem_map.mp mem
    exact mem_typeNames_ofType closed ht hn

section ScalarMember

variable {name : String} (h : name ∈ schema.scalarMembers)

include h

/-- A union uses its members. -/
theorem mem_typeNames_of_scalarMember (order : Order) : name ∈ schema.typeNames order := by
  obtain ⟨t, ht, mem⟩ := List.mem_flatMap.mp h
  obtain ⟨-, union, members, body, mem⟩ := TypeDef.mem_scalarMembers.mp mem
  have declared : Declaration.ofType t ∈ schema.declarations order :=
    (Emission.perm_declarations closed.labelled order).mem_iff.mpr
      (List.mem_append_right _ (List.mem_map_of_mem ht))
  refine List.mem_flatMap.mpr ⟨_, declared, ?_⟩
  rwa [typeNames_ofType_union union body, if_neg (by simpa using List.ne_nil_of_mem mem)]

omit closed in
theorem exists_scalar_of_scalarMember : ∃ s : Scalar, s.label = name ∧
    Scalar.ofLabel? name = some s := by
  obtain ⟨t, -, mem⟩ := List.mem_flatMap.mp h
  obtain ⟨s, scalar⟩ := Option.isSome_iff_exists.mp (TypeDef.mem_scalarMembers.mp mem).1
  exact ⟨s, Scalar.label_of_ofLabel? scalar, scalar⟩

theorem notMem_labels_of_scalarMember (order : Order) :
    name ∉ (schema.declarations order).map Declaration.label := by
  obtain ⟨s, rfl, scalar⟩ := exists_scalar_of_scalarMember h
  intro mem
  rcases List.mem_append.mp ((perm_labels closed order).mem_iff.mp mem) with mem | key
  · obtain ⟨q, -, same⟩ := List.mem_map.mp mem
    exact Declaration.argumentLabel_ne_label q.1 q.2 s same
  · exact absurd (scalar.symm.trans (closed.declared _ key)) (Option.some_ne_none s)

omit closed in
theorem notMem_builtInTypes_of_scalarMember : name ∉ builtInTypes := by
  obtain ⟨s, rfl, -⟩ := exists_scalar_of_scalarMember h
  cases s <;> decide

end ScalarMember

/-- **The names that are used and not declared** are the scalars in unions. -/
theorem undeclared_iff (order : Order) (name : String) :
    (name ∈ schema.typeNames order ∧ name ∉ builtInTypes ∧
        name ∉ (schema.declarations order).map Declaration.label) ↔
      name ∈ schema.scalarMembers := by
  constructor
  · rintro ⟨used, notBuiltIn, notLabel⟩
    rcases mem_typeNames closed used with (builtIn | key) | scalar
    · exact absurd builtIn notBuiltIn
    · exact absurd (mem_labels_of_mem_keys closed key order) notLabel
    · exact scalar
  · intro scalar
    exact ⟨mem_typeNames_of_scalarMember closed scalar order,
      notMem_builtInTypes_of_scalarMember scalar,
      notMem_labels_of_scalarMember closed scalar order⟩

theorem declares_iff (order : Order) :
    Declares ((schema.declarations order).map Declaration.label) (schema.typeNames order) ↔
      schema.scalarMembers = [] := by
  rw [List.eq_nil_iff_forall_not_mem]
  constructor
  · intro declared name scalar
    obtain ⟨used, notBuiltIn, notLabel⟩ := (undeclared_iff closed order name).mpr scalar
    exact (declared name used).elim notBuiltIn notLabel
  · intro noScalar name used
    by_contra undeclared
    rw [not_or] at undeclared
    exact noScalar name ((undeclared_iff closed order name).mp ⟨used, undeclared⟩)

/-- **The names read from an output are those its declarations use.** -/
theorem usedTypeNames_typegen (written : schema.Written) {options : Options}
    (oneLine : '\n' ∉ options.indent.toList) (noColon : ':' ∉ options.indent.toList)
    (now : Moment) :
    usedTypeNames (schema.typegen options now).text = schema.typeNames options.order := by
  have plain : ∀ d ∈ schema.declarations options.order, d.Plain :=
    plain_of_mem_declarations closed written
  have blank : lineTypeNames "" = [] := by decide
  rw [usedTypeNames, flatMap_lines_typegen closed blank lineTypeNames_headerLines oneLine written]
  exact List.flatMap_congr fun d hd => (plain d hd).flatMap_lineTypeNames noColon

end Closed

end Schema

/-- An indent that begins with a blank and has no line end and no colon. -/
structure Options.Legible (options : Options) : Prop where
  begins : ∃ c, options.indent.toList.head? = some c ∧ isBlank c = true
  oneLine : '\n' ∉ options.indent.toList
  noColon : ':' ∉ options.indent.toList

/-- **When an output is closed.** For every source and in both orders, the names that the
declarations use as types and that are neither built-in types nor labels of declarations are the
built-in scalars among the members of unions. So the output is closed exactly if there are none.
Unless the indent gets in the way, all this can be read from the text. -/
theorem names_declared_iff {source : String} {options : Options} {now : Moment} {output : Output}
    (h : typegen source options now = .ok output) :
    ∃ schema, Schema.ofSource source = .ok schema ∧
      (∀ name, (name ∈ schema.typeNames options.order ∧ name ∉ builtInTypes ∧
          name ∉ (schema.declarations options.order).map Declaration.label) ↔
        name ∈ schema.scalarMembers) ∧
      (Declares ((schema.declarations options.order).map Declaration.label)
        (schema.typeNames options.order) ↔ schema.scalarMembers = []) ∧
      (options.Legible → usedTypeNames output.text = schema.typeNames options.order ∧
        Golden.exportedLabels output.text =
          (schema.declarations options.order).map Declaration.label) := by
  obtain ⟨schema, read, rfl⟩ := Success.map_eq_ok.mp h
  obtain ⟨closed, written⟩ := Schema.written_of_ofSource read
  refine ⟨schema, read, Schema.undeclared_iff closed options.order,
    Schema.declares_iff closed options.order, ?_⟩
  rintro ⟨⟨c, begins, blank⟩, oneLine, noColon⟩
  have other : c ≠ 'e' := by
    rintro rfl
    exact absurd blank (by decide)
  exact ⟨Schema.usedTypeNames_typegen closed written oneLine noColon now,
    Schema.exportedLabels_typegen closed written begins other oneLine now⟩

/-! ### A union of types, and a union of a scalar -/

/-- A union and a type that point at each other, and a request with an argument. -/
def loopSource : String :=
  "union V=W|X type W\x7bv:[V!]\x7denum X\x7bV\x7dtype Query\x7bf(n:Int):V\x7d"

/-- The schema of `loopSource`. -/
def loopSchema : Schema where
  roots := { query := some ⟨.query,
    [⟨"f", [⟨"n", .scalar .int, true, 0, false⟩], .named .union "V", true, 0, false⟩]⟩ }
  types := ⟨[("V", ⟨.union, "V", .members ["W", "X"]⟩),
    ("W", ⟨.object, "W", .fields [⟨"v", .named .union "V", true, 1, false⟩]⟩),
    ("X", ⟨.enum, "X", .members ["V"]⟩)], by decide⟩

theorem Source.definitions_loopSource : Source.definitions loopSource =
    .ok [⟨"union", "V", ["W", "X"], 1⟩, ⟨"type", "W", ["v:[V!]"], 1⟩, ⟨"enum", "X", ["V"], 1⟩,
      ⟨"type", "Query", ["f(n:Int):V"], 1⟩] :=
  Source.definitions_of_sweep (onLine 1
    [.name "union", .name "V", .mark .equals, .name "W", .mark .bar, .name "X", .name "type",
      .name "W", .mark .openBrace, .name "v", .mark .colon, .mark .openBracket, .name "V",
      .mark .bang, .mark .closeBracket, .mark .closeBrace, .name "enum", .name "X",
      .mark .openBrace, .name "V", .mark .closeBrace, .name "type", .name "Query",
      .mark .openBrace, .name "f", .mark .openParen, .name "n", .mark .colon, .name "Int",
      .mark .closeParen, .mark .colon, .name "V", .mark .closeBrace]) (by decide) (by rfl)

theorem Schema.ofSource_loopSource : Schema.ofSource loopSource = .ok loopSchema := by
  rw [Schema.ofSource, Document.ofSource, Source.definitions_loopSource]
  rfl

theorem names_declared_iff_loopSource : ∃ output,
    typegen loopSource { order := .dependencies } ⟨2024, 2, 29, 9, 5, 0⟩ = .ok output ∧
      Declares (Golden.exportedLabels output.text) (usedTypeNames output.text) := by
  have made : typegen loopSource { order := .dependencies } ⟨2024, 2, 29, 9, 5, 0⟩ =
      .ok (loopSchema.typegen { order := .dependencies } ⟨2024, 2, 29, 9, 5, 0⟩) := by
    rw [typegen, Schema.ofSource_loopSource]
    rfl
  obtain ⟨schema, read, -, declared, text⟩ := names_declared_iff made
  rw [Schema.ofSource_loopSource] at read
  obtain rfl := Except.ok.inj read
  obtain ⟨used, exported⟩ := text ⟨⟨' ', by decide⟩, by decide, by decide⟩
  refine ⟨_, made, ?_⟩
  rw [used, exported]
  exact declared.mpr (by decide)

/-- A union with a scalar as its only member. -/
def intUnionSource : String := "union U=Int"

/-- The schema of `intUnionSource`. -/
def intUnionSchema : Schema where
  roots := {}
  types := ⟨[("U", ⟨.union, "U", .members ["Int"]⟩)], by decide⟩

theorem Source.definitions_intUnionSource : Source.definitions intUnionSource =
    .ok [⟨"union", "U", ["Int"], 1⟩] :=
  Source.definitions_of_sweep (onLine 1 [.name "union", .name "U", .mark .equals, .name "Int"])
    (by decide) (by rfl)

theorem Schema.ofSource_intUnionSource : Schema.ofSource intUnionSource = .ok intUnionSchema := by
  rw [Schema.ofSource, Document.ofSource, Source.definitions_intUnionSource]
  rfl

/-- Whenever it is made and in both orders, the output for `intUnionSource` is not closed. -/
theorem typegen_intUnionSource (order : Order) (now : Moment) : ∃ output,
    typegen intUnionSource { Options.bare with order } now = .ok output ∧
      output.text = "export type U = Int;\n" ∧
      ¬ Declares (Golden.exportedLabels output.text) (usedTypeNames output.text) := by
  have only : intUnionSchema.declarations order = [⟨.typeAlias, "U", .members ["Int"]⟩] := by
    obtain ⟨closed, -⟩ := Schema.written_of_ofSource Schema.ofSource_intUnionSource
    exact List.perm_singleton.mp (Emission.perm_declarations closed.labelled order)
  have text : (intUnionSchema.typegen { Options.bare with order } now).text =
      "export type U = Int;\n" := by
    rw [Schema.typegen, only]
    rfl
  refine ⟨intUnionSchema.typegen { Options.bare with order } now, ?_, text, ?_⟩
  · rw [typegen, Schema.ofSource_intUnionSource]
    rfl
  · rw [text]
    have used : usedTypeNames "export type U = Int;\n" = ["Int"] := by decide
    have exported : Golden.exportedLabels "export type U = Int;\n" = ["U"] := by decide
    rw [used, exported]
    intro declared
    exact absurd (declared "Int" List.mem_cons_self) (by decide)

/-- **An output may use a name that nothing declares**: a union of a scalar is accepted, and the
scalar stands in the output under its own name. -/
theorem scalar_member_undeclared :
    (∃ output, typegen intUnionSource Options.bare ⟨2024, 2, 29, 9, 5, 0⟩ = .ok output ∧
      output.text = "export type U = Int;\n" ∧
      ¬ Declares (Golden.exportedLabels output.text) (usedTypeNames output.text)) ∧
    ∃ output, typegen intUnionSource { Options.bare with order := .dependencies }
        ⟨2024, 2, 29, 9, 5, 0⟩ = .ok output ∧
      output.text = "export type U = Int;\n" ∧
      ¬ Declares (Golden.exportedLabels output.text) (usedTypeNames output.text) :=
  ⟨typegen_intUnionSource .declaration _, typegen_intUnionSource .dependencies _⟩

end SchemaTypegen
