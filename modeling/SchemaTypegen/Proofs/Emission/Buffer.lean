import SchemaTypegen.Proofs.Lines

/-!
# Declarations written one after the other

The text of an output is its parts with line ends between them. Written part by part, each goes to
the end of what has been written, after a line end, unless nothing has been written yet. No part is
empty, so the two are the same (`foldl_write`), and a header at the beginning changes nothing about
what is written after it.

* `typegen_eq_foldl`: an output is written declaration by declaration, after its header.
* **`typegen_headed`**: the same schema with a header and without one.
-/

namespace SchemaTypegen

/-- Whole lines are not nothing. -/
theorem IsBlock.ne_empty {text : String} (h : IsBlock text) : text ≠ "" := by
  rintro rfl
  obtain ⟨⟨c, rest, chars, -⟩, -⟩ := h
  exact absurd chars (List.cons_ne_nil c rest).symm

theorem intercalate_eq_empty_iff {texts : List String} (full : ∀ text ∈ texts, text ≠ "") :
    "\n".intercalate texts = "" ↔ texts = [] := by
  refine ⟨fun none => ?_, fun none => none ▸ String.intercalate_nil⟩
  cases texts with
  | nil => rfl
  | cons text texts =>
    have first : text ≠ "" := full text List.mem_cons_self
    cases texts with
    | nil => exact absurd (String.intercalate_singleton.symm.trans none) first
    | cons next texts =>
      rw [String.intercalate_cons_cons, String.append_assoc] at none
      exact absurd (String.append_eq_empty_iff.mp none).1 first

namespace Output

/-- Writes a declaration at the end, after a line end unless it is the first thing written. -/
def write (o : Output) (declaration : String) : Output where
  text := (if o.text = "" then "" else o.text ++ "\n") ++ declaration
  declarations := o.declarations + 1

/-- What has been written, if anything has. -/
def written (o : Output) : List String := if o.text = "" then [] else [o.text]

/-- After a declaration, what has been written is one part with what comes next. -/
theorem intercalate_written_write (o : Output) {declaration : String} (full : declaration ≠ "")
    (texts : List String) :
    "\n".intercalate ((o.write declaration).written ++ texts) =
      "\n".intercalate (o.written ++ declaration :: texts) := by
  have some : (o.write declaration).text ≠ "" := by
    intro none
    exact full (String.append_eq_empty_iff.mp none).2
  rw [written, if_neg some]
  unfold write written
  by_cases none : o.text = ""
  · rw [if_pos none, if_pos none, String.empty_append]
    rfl
  · rw [if_neg none, if_neg none]
    simp [String.append_assoc]

/-- **Declarations written one after the other are joined by line ends.** -/
theorem foldl_write {texts : List String} (full : ∀ text ∈ texts, text ≠ "") (o : Output) :
    texts.foldl write o =
      ⟨"\n".intercalate (o.written ++ texts), o.declarations + texts.length⟩ := by
  induction texts generalizing o with
  | nil =>
    obtain ⟨text, declarations⟩ := o
    by_cases none : text = "" <;> simp [written, none]
  | cons text texts ih =>
    rw [List.foldl_cons, ih (fun t ht => full t (List.mem_cons_of_mem text ht)),
      o.intercalate_written_write (full text List.mem_cons_self), List.length_cons]
    simp only [write, Nat.add_assoc, Nat.add_comm 1]

end Output

namespace Schema

/-- The texts of the declarations, in order. -/
def declarationTexts (schema : Schema) (order : Order) (indent : String) : List String :=
  (schema.declarations order).map (Declaration.text indent)

theorem ne_empty_of_mem_declarationTexts {schema : Schema} {order : Order} {indent : String} :
    ∀ text ∈ schema.declarationTexts order indent, text ≠ "" := by
  intro text h
  obtain ⟨d, -, rfl⟩ := List.mem_map.mp h
  exact (d.kind.isBlock_wrap d.label (d.bodyText indent)).ne_empty

/-- **An output is written declaration by declaration**, after its header if it has one. -/
theorem typegen_eq_foldl (schema : Schema) (options : Options) (now : Moment) :
    schema.typegen options now =
      (schema.declarationTexts options.order options.indent).foldl Output.write
        ⟨(options.headerText? now).getD "", 0⟩ := by
  have head : Output.written ⟨(options.headerText? now).getD "", 0⟩ =
      (options.headerText? now).toList := by
    unfold Options.headerText? Output.written
    split
    · exact if_neg (isBlock_headerText _).ne_empty
    · rfl
  rw [Output.foldl_write ne_empty_of_mem_declarationTexts, head, Nat.zero_add]
  simp [typegen, declarationTexts]

/-- **A header leaves the rest as it is.** With a header and without one, the same declarations are
written one after the other. With it, the text is the header alone if there are none, and otherwise
the header and the text without it, with a line end between them; the text without it is empty
exactly if there are no declarations. Nothing is assumed of the schema. -/
theorem typegen_headed (schema : Schema) (order : Order) (indent : String)
    (timestamp other : Bool) (now earlier : Moment) :
    let header := headerText (if timestamp then some now else none)
    let headed := schema.typegen ⟨true, timestamp, order, indent⟩ now
    let bare := schema.typegen ⟨false, other, order, indent⟩ earlier
    headed = (schema.declarationTexts order indent).foldl Output.write ⟨header, 0⟩ ∧
      bare = (schema.declarationTexts order indent).foldl Output.write ⟨"", 0⟩ ∧
      headed.declarations = bare.declarations ∧
      headed.text = (if bare.declarations = 0 then header else header ++ "\n" ++ bare.text) ∧
      (bare.text = "" ↔ bare.declarations = 0) := by
  intro header headed bare
  have counted : bare.declarations = 0 ↔ schema.declarations order = [] := List.length_eq_zero_iff
  refine ⟨schema.typegen_eq_foldl _ now, schema.typegen_eq_foldl _ earlier, rfl, ?_, ?_⟩
  · refine (schema.text_typegen_headed timestamp other order indent now).trans ?_
    by_cases none : schema.declarations order = []
    · rw [if_pos none, if_pos (counted.mpr none), String.append_empty]
    · rw [if_neg none, if_neg (mt counted.mp none), String.append_assoc]
      rfl
  · rw [counted, ← List.map_eq_nil_iff (f := Declaration.text indent)]
    exact intercalate_eq_empty_iff ne_empty_of_mem_declarationTexts

end Schema

end SchemaTypegen
