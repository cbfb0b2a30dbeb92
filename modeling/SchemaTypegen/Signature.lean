import SchemaTypegen.Text.Chars

/-!
# Type signatures

A signature is a name inside `depth` pairs of brackets, each level with or without a `!` that
makes it required: `[Post!]!`. Read from text, it is reduced to the name, the depth, and whether
the whole and the elements of the outermost list may be absent.
-/

namespace SchemaTypegen

open Text

/-- A type as a field or an argument states it. -/
structure Signature where
  label : String
  /-- There is no `!` at the end. -/
  optional : Bool
  /-- The number of list brackets around the name. -/
  depth : Nat
  /-- The elements of the outermost list may be absent; false when there is no list. -/
  elementOptional : Bool
  deriving DecidableEq, Repr

/-- Reads a signature, white space around it aside. `none` when the text is no bracketed name. -/
def Signature.ofText? (raw : String) : Option Signature :=
  let text := trim raw.toList
  let body := dropEndWhile (· == '!') text
  let depth := (body.takeWhile (· == '[')).length
  let label := dropEndWhile (fun c => c == ']' || c == '!') (body.dropWhile (· == '['))
  if !label.isEmpty && label.all isNameChar && body.count ']' == depth &&
      (depth == 0 || endsWith ']' body) then
    some {
      label := String.ofList label
      optional := !endsWith '!' text
      depth
      elementOptional := depth != 0 && !endsWith '!' body.dropLast }
  else none

end SchemaTypegen
