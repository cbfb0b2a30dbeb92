/-!
# Characters and cuts

The character classes the schema language is made of, and the ways a text is cut: at its first
separator, at every separator, and at its ends. Texts are lists of characters here; a `String`
becomes one with `toList`.
-/

namespace SchemaTypegen.Text

/-! ## Classes -/

/-- White space in the sense of the Unicode property `White_Space`: twenty-five characters. -/
def isBlank (c : Char) : Bool :=
  let n := c.toNat
  (9 ≤ n && n ≤ 13) || n == 0x20 || n == 0x85 || n == 0xA0 || n == 0x1680 ||
    (0x2000 ≤ n && n ≤ 0x200A) || n == 0x2028 || n == 0x2029 || n == 0x202F || n == 0x205F ||
    n == 0x3000

/-- Control characters: the Unicode category `Cc`. -/
def isControl (c : Char) : Bool :=
  let n := c.toNat
  n < 0x20 || (0x7F ≤ n && n ≤ 0x9F)

/-- A name begins with an ASCII letter or an underscore. -/
def isNameStart (c : Char) : Bool := c == '_' || c.isAlpha

/-- A name goes on with ASCII letters, digits and underscores. -/
def isNameChar (c : Char) : Bool := c == '_' || c.isAlphanum

theorem isNameChar_of_isNameStart {c : Char} (h : isNameStart c = true) : isNameChar c = true := by
  simp only [isNameStart, isNameChar, Bool.or_eq_true, Char.isAlphanum] at h ⊢
  rcases h with h | h
  · exact Or.inl h
  · exact Or.inr (Or.inl h)

/-- Equality up to the case of ASCII letters. -/
def sameLetters (a b : String) : Bool :=
  a.toList.map Char.toLower == b.toList.map Char.toLower

/-! ## Cuts -/

/-- Cuts at the first `sep`, which is dropped; `none` when there is no `sep`. -/
def cutAt (sep : Char) : List Char → Option (List Char × List Char)
  | [] => none
  | c :: rest =>
    if c = sep then some ([], rest)
    else (cutAt sep rest).map fun (left, right) => (c :: left, right)

/-- All pieces between separators, in order; there is one more piece than separators. -/
def pieces (isSep : Char → Bool) : List Char → List (List Char)
  | [] => [[]]
  | c :: rest =>
    if isSep c then [] :: pieces isSep rest
    else match pieces isSep rest with
      | [] => [[c]]
      | first :: others => (c :: first) :: others

/-- Removes the longest end whose characters all satisfy `p`. -/
def dropEndWhile (p : Char → Bool) (cs : List Char) : List Char :=
  (cs.reverse.dropWhile p).reverse

/-- Removes white space at the end. -/
def trimEnd (cs : List Char) : List Char := dropEndWhile isBlank cs

/-- Removes white space at both ends. -/
def trim (cs : List Char) : List Char := trimEnd (cs.dropWhile isBlank)

/-- Whether `c` is the last character. -/
def endsWith (c : Char) (cs : List Char) : Bool := cs.getLast? == some c

end SchemaTypegen.Text
