import SchemaTypegen.Text.CaseTables

/-!
# Upper and lower case

Full case mapping: a character may become several, and a capital sigma becomes the final small
sigma at the end of a word. ASCII is decided directly and everything else through the tables.
-/

namespace SchemaTypegen.Text

/-- The image of a character under a list of runs; a character in no run is its own image. -/
def mapByRuns (runs : List CaseRun) (c : Char) : Char :=
  match runs.findSome? (·.imageOf? c.toNat) with
  | some n => Char.ofNat n
  | none => c

/-- The lower case of a character by itself. Only capital I with a dot needs two characters. -/
def lowerChar (c : Char) : List Char :=
  if c.toNat < 0x80 then [c.toLower]
  else if c.toNat = 0x130 then ['i', Char.ofNat 0x307]
  else [mapByRuns lowerRuns c]

/-- The upper case of a character. -/
def upperChar (c : Char) : List Char :=
  if c.toNat < 0x80 then [c.toUpper]
  else match upperExpansions.find? (·.1 == c.toNat) with
    | some (_, images) => images.map Char.ofNat
    | none => [mapByRuns upperRuns c]

/-- Whether `n` lies in one of the closed ranges. -/
def inRanges (ranges : List (Nat × Nat)) (n : Nat) : Bool :=
  ranges.any fun (first, last) => first ≤ n && n ≤ last

/-- Letters that have, or are, a case. -/
def isCased (c : Char) : Bool := inRanges casedRanges c.toNat

/-- Characters that do not interrupt a word when its end is looked for. -/
def isCaseIgnorable (c : Char) : Bool := inRanges caseIgnorableRanges c.toNat

/-- Whether a cased letter comes first once characters without influence are passed over. -/
def meetsCased (cs : List Char) : Bool :=
  match cs.dropWhile isCaseIgnorable with
  | c :: _ => isCased c
  | [] => false

/-- The capital sigma. -/
def sigma : Char := Char.ofNat 0x3A3

/-- The lower case of a capital sigma between the characters `before` it, nearest first, and the
characters `after` it: the final form when a word ends there. -/
def lowerSigma (before after : List Char) : Char :=
  if meetsCased before && !meetsCased after then Char.ofNat 0x3C2 else Char.ofNat 0x3C3

/-- Lower case of a text that follows the characters `before`, nearest first. -/
def lowerAfter (before : List Char) : List Char → List Char
  | [] => []
  | c :: rest =>
    (if c = sigma then [lowerSigma before rest] else lowerChar c) ++ lowerAfter (c :: before) rest

/-- The lower case of a text. -/
def lower (cs : List Char) : List Char := lowerAfter [] cs

/-- The text with its first character in upper case. -/
def capitalize : List Char → List Char
  | [] => []
  | c :: rest => upperChar c ++ rest

/-- Whether a small ASCII letter is directly followed by a capital one, as in `postId`. -/
def hasHump : List Char → Bool
  | c :: d :: rest => (c.isLower && d.isUpper) || hasHump (d :: rest)
  | _ => false

/-- One word of a joined name: it keeps its humps if it has any and is put in lower case
otherwise, and begins with a capital. -/
def camelWord (word : String) : String :=
  let cs := word.toList
  String.ofList (capitalize (if hasHump cs then cs else lower cs))

/-- Joins words to one name: `greet`, `QUERY` and `ARGS` make `GreetQueryArgs`. -/
def camelJoin (words : List String) : String := String.join (words.map camelWord)

end SchemaTypegen.Text
