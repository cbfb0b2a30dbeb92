import SchemaTypegen.Proofs.Resolution.Labels
import SchemaTypegen.Proofs.TypeNames

/-!
# The text of a union is its members, joined

A union is written by putting a bar after every member and taking white space, bars and white space
off the end again. Of the last member nothing but white space can be lost that way: the blank before
the last bar keeps the bars of a member from being taken for it. So the text is the plain joining
unless that ends in white space, and there it always differs (`unionText_eq_intercalate_iff`).

* **`unions_joined`**: the members joined by bars, for all lists whose last member is filled and has
  no blank at its end, and so for the members of every union that a source declares.
-/

namespace SchemaTypegen

open Text Grammar

theorem Text.trimEnd_eq_self_iff {text : List Char} :
    trimEnd text = text ↔ ∀ c ∈ text.getLast?, isBlank c = false := by
  refine ⟨fun same => ?_, dropEndWhile_of_last⟩
  obtain ⟨-, -, -, ends⟩ := exists_dropEndWhile isBlank text
  rwa [← trimEnd, same] at ends

/-- **When a union is written as its members, joined**: if there are any, and white space does not
stand at the end. -/
theorem unionText_eq_intercalate_iff {members : List String} :
    unionText members = " | ".intercalate members ↔
      members ≠ [] ∧ ∀ c ∈ (" | ".intercalate members).toList.getLast?, isBlank c = false := by
  by_cases filled : members = []
  · subst filled
    exact ⟨fun never => absurd never (by decide), fun h => absurd rfl h.1⟩
  · rw [unionText_eq_trimEnd filled, ← trimEnd_eq_self_iff, ← String.toList_inj,
      String.toList_ofList]
    exact ⟨fun same => ⟨filled, same⟩, fun h => h.2⟩

/-- The members of a union that a source declares. -/
theorem Definition.unionText_entries {d : Definition} (written : d.Written) (legible : d.Legible)
    (union : Keyword.ofName? d.keyword = some .union) :
    unionText d.entries = " | ".intercalate d.entries :=
  unionText_of_isName (written.members .union union (Or.inr rfl)) (legible.filled union)

/-- The body that is written for a union of a schema. -/
theorem Schema.bodyText_union {source : String} {schema : Schema}
    (h : Schema.ofSource source = .ok schema) {t : TypeDef} (ht : t ∈ schema.types.values)
    (union : t.kind = .union) : ∃ members, t.body = .members members ∧
      ∀ indent, (Declaration.ofType t).bodyText indent = " | ".intercalate members := by
  obtain ⟨closed, written⟩ := Schema.written_of_ofSource h
  have legible := (Schema.legible_of_ofSource h).unions t ht union
  have body := (closed.bodies t ht).mpr (Or.inr union)
  cases held : t.body with
  | fields fields => rw [held] at body; exact absurd body Bool.false_ne_true
  | members members =>
    refine ⟨members, rfl, fun indent => ?_⟩
    rw [Declaration.bodyText, Declaration.ofType, held, union]
    exact unionText_of_isName (written.members t ht members held) fun none =>
      legible (held.trans (congrArg Body.members none))

/-- **A union is written as its members, joined by bars.** Nothing is added or removed if the last
member is not empty and does not end in white space, whatever the other members are, bars and blanks
included; it is only white space at the very end that is lost. That is so for every union a source
can declare, and what is written for it is this text. -/
theorem unions_joined :
    (∀ members : List String, unionText members = " | ".intercalate members ↔
      members ≠ [] ∧ ∀ c ∈ (" | ".intercalate members).toList.getLast?, isBlank c = false) ∧
    (∀ (members : List String) (filled : members ≠ []), members.getLast filled ≠ "" →
      (∀ c ∈ (members.getLast filled).toList.getLast?, isBlank c = false) →
      unionText members = " | ".intercalate members) ∧
    (∀ (source : String) (ds : List Definition), Source.definitions source = .ok ds →
      ∀ d ∈ ds, Keyword.ofName? d.keyword = some .union →
        d.entries ≠ [] ∧ unionText d.entries = " | ".intercalate d.entries) ∧
    ∀ (source : String) (schema : Schema), Schema.ofSource source = .ok schema →
      ∀ t ∈ schema.types.values, t.kind = .union → ∃ members, t.body = .members members ∧
        ∀ indent, (Declaration.ofType t).bodyText indent = " | ".intercalate members := by
  refine ⟨fun _ => unionText_eq_intercalate_iff, fun members filled last ends => ?_,
    fun source ds h d hd union => ?_,
    fun source schema h t ht union => Schema.bodyText_union h ht union⟩
  · exact unionText_of_getLast filled (fun none => last (String.toList_eq_nil_iff.mp none)) ends
  · have legible := Source.legible_of_definitions h d hd
    exact ⟨legible.filled union,
      d.unionText_entries (Source.written_of_definitions h d hd) legible union⟩

/-! ### Members with bars in them -/

/-- A union before a type, with a bar in front of its only member. -/
def soloSource : String := "union U=|A type A\x7bx:U\x7d"

theorem Source.definitions_soloSource : Source.definitions soloSource =
    .ok [⟨"union", "U", ["A"], 1⟩, ⟨"type", "A", ["x:U"], 1⟩] :=
  Source.definitions_of_sweep (onLine 1
    [.name "union", .name "U", .mark .equals, .mark .bar, .name "A", .name "type", .name "A",
      .mark .openBrace, .name "x", .mark .colon, .name "U", .mark .closeBrace]) (by decide) (by rfl)

theorem unions_joined_soloSource :
    unionText ["| a |", "", " ", "b"] = "| a | |  |   | b" ∧ unionText ["A"] = "A" := by
  obtain ⟨-, joined, declared, -⟩ := unions_joined
  refine ⟨?_, ?_⟩
  · have ends : ∀ c ∈ "b".toList.getLast?, isBlank c = false := by
      intro c hc
      obtain rfl : 'b' = c := Option.some.inj hc
      rfl
    exact (joined ["| a |", "", " ", "b"] (by decide) (by decide) ends).trans (by decide)
  · exact (declared soloSource _ Source.definitions_soloSource _ List.mem_cons_self (by decide)).2

end SchemaTypegen
