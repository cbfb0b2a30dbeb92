import SchemaTypegen.Json

/-!
# Reading JSON

A text is first cut into tokens, up to the first character that begins none. A machine with a stack
of open arrays and objects then reads one value off the front of the tokens; what follows the value
is not looked at.
-/

namespace SchemaTypegen.Json

/-- A word of JSON. -/
inductive Token where
  | openBrace
  | closeBrace
  | openBracket
  | closeBracket
  | colon
  | comma
  /-- A value without parts. -/
  | leaf (value : Json)
  /-- Where the text can no longer be cut into tokens. -/
  | unreadable

/-! ## Tokens -/

/-- The value of a hexadecimal digit. -/
def hexValue? (c : Char) : Option Nat :=
  if c.isDigit then some (c.toNat - 0x30)
  else if 'a' ≤ c ∧ c ≤ 'f' then some (c.toNat - 0x57)
  else if 'A' ≤ c ∧ c ≤ 'F' then some (c.toNat - 0x37)
  else none

/-- The value of four hexadecimal digits. -/
def hexUnit? (a b c d : Char) : Option Nat := do
  return 0x1000 * (← hexValue? a) + 0x100 * (← hexValue? b) + 0x10 * (← hexValue? c) +
    (← hexValue? d)

/-- The character of an escape with one letter. -/
def escape? : Char → Option Char
  | '"' => some '"'
  | '\\' => some '\\'
  | '/' => some '/'
  | 'b' => some (Char.ofNat 0x08)
  | 'f' => some (Char.ofNat 0x0C)
  | 'n' => some '\n'
  | 'r' => some '\r'
  | 't' => some '\t'
  | _ => none

/-- The character that an escaped high surrogate makes with the escaped low surrogate after it, and
what follows the two. -/
def lowSurrogate? (high : Nat) : List Char → Option (Char × List Char)
  | '\\' :: 'u' :: a :: b :: c :: d :: rest =>
    (hexUnit? a b c d).bind fun low =>
      if high < 0xDC00 ∧ 0xDC00 ≤ low ∧ low ≤ 0xDFFF then
        some (Char.ofNat (0x10000 + 0x400 * (high - 0xD800) + (low - 0xDC00)), rest)
      else none
  | _ => none

/-- The character of an escape with four hexadecimal digits, and what follows it. Two escaped
surrogates make one character, and one alone makes none. -/
def hexEscape? : List Char → Option (Char × List Char)
  | a :: b :: c :: d :: rest =>
    (hexUnit? a b c d).bind fun unit =>
      if unit < 0xD800 ∨ 0xDFFF < unit then some (Char.ofNat unit, rest)
      else lowSurrogate? unit rest
  | _ => none

/-- The next character of a quoted text and what follows it. A bare control character is none. -/
def quotedChar? : List Char → Option (Char × List Char)
  | '\\' :: 'u' :: rest => hexEscape? rest
  | '\\' :: c :: rest => (escape? c).map (·, rest)
  | c :: rest => if c = '\\' ∨ c.toNat < 0x20 then none else some (c, rest)
  | [] => none

theorem length_lowSurrogate? {high : Nat} {cs rest : List Char} {c : Char}
    (h : lowSurrogate? high cs = some (c, rest)) : rest.length < cs.length := by
  unfold lowSurrogate? at h
  split at h
  · obtain ⟨low, -, h⟩ := Option.bind_eq_some_iff.mp h
    split at h
    · simp only [Option.some.injEq, Prod.mk.injEq] at h
      obtain ⟨-, rfl⟩ := h
      simp only [List.length_cons]
      omega
    · exact absurd h (by simp)
  · exact absurd h (by simp)

theorem length_hexEscape? {cs rest : List Char} {c : Char} (h : hexEscape? cs = some (c, rest)) :
    rest.length < cs.length := by
  unfold hexEscape? at h
  split at h
  · obtain ⟨unit, -, h⟩ := Option.bind_eq_some_iff.mp h
    simp only [List.length_cons]
    split at h
    · simp only [Option.some.injEq, Prod.mk.injEq] at h
      obtain ⟨-, rfl⟩ := h
      omega
    · have := length_lowSurrogate? h
      omega
  · exact absurd h (by simp)

theorem length_quotedChar? {cs rest : List Char} {c : Char} (h : quotedChar? cs = some (c, rest)) :
    rest.length < cs.length := by
  unfold quotedChar? at h
  split at h
  · have := length_hexEscape? h
    simp only [List.length_cons]
    omega
  · obtain ⟨d, -, h⟩ := Option.map_eq_some_iff.mp h
    simp only [Prod.mk.injEq] at h
    obtain ⟨-, rfl⟩ := h
    simp only [List.length_cons]
    omega
  · split at h
    · exact absurd h (by simp)
    · simp only [Option.some.injEq, Prod.mk.injEq] at h
      obtain ⟨-, rfl⟩ := h
      exact Nat.lt_succ_self _
  · exact absurd h (by simp)

/-- The characters of a quoted text up to its closing quote, and what follows the quote. -/
def quoted? (cs : List Char) : Option (List Char × List Char) :=
  match cs with
  | [] => none
  | c :: rest =>
    if c = '"' then some ([], rest)
    else match _ : quotedChar? (c :: rest) with
      | none => none
      | some (d, rest') => (quoted? rest').map fun (text, rest) => (d :: text, rest)
  termination_by cs.length
  decreasing_by exact length_quotedChar? ‹_›

theorem length_quoted? {cs text rest : List Char} (h : quoted? cs = some (text, rest)) :
    rest.length < cs.length := by
  induction hn : cs.length using Nat.strongRecOn generalizing cs text rest with
  | _ n ih =>
    subst hn
    cases cs with
    | nil => simp [quoted?] at h
    | cons c tail =>
      rw [quoted?] at h
      split at h
      · simp only [Option.some.injEq, Prod.mk.injEq] at h
        obtain ⟨-, rfl⟩ := h
        exact Nat.lt_succ_self _
      · split at h
        · exact absurd h (by simp)
        · rename_i hc
          obtain ⟨⟨text', rest'⟩, h', he⟩ := Option.map_eq_some_iff.mp h
          simp only [Prod.mk.injEq] at he
          obtain ⟨-, rfl⟩ := he
          have shorter := length_quotedChar? hc
          exact Nat.lt_trans (ih _ shorter h' rfl) shorter

/-- The value of a run of decimal digits. -/
def decimal (digits : List Char) : Nat :=
  digits.foldl (fun n c => 10 * n + (c.toNat - 0x30)) 0

/-- The white space of JSON. -/
def isGap (c : Char) : Bool := c == ' ' || c == '\n' || c == '\r' || c == '\t'

/-- The first token of a text and what follows it. -/
def token? : List Char → Option (Token × List Char)
  | '{' :: rest => some (.openBrace, rest)
  | '}' :: rest => some (.closeBrace, rest)
  | '[' :: rest => some (.openBracket, rest)
  | ']' :: rest => some (.closeBracket, rest)
  | ':' :: rest => some (.colon, rest)
  | ',' :: rest => some (.comma, rest)
  | 'n' :: 'u' :: 'l' :: 'l' :: rest => some (.leaf .null, rest)
  | 't' :: 'r' :: 'u' :: 'e' :: rest => some (.leaf (.bool true), rest)
  | 'f' :: 'a' :: 'l' :: 's' :: 'e' :: rest => some (.leaf (.bool false), rest)
  | '"' :: rest =>
    (quoted? rest).map fun (text, rest') => (.leaf (.string (String.ofList text)), rest')
  | c :: rest =>
    if c.isDigit then
      some (.leaf (.number (decimal (c :: rest.takeWhile Char.isDigit))),
        rest.dropWhile Char.isDigit)
    else none
  | [] => none

theorem length_token? {cs rest : List Char} {t : Token} (h : token? cs = some (t, rest)) :
    rest.length < cs.length := by
  unfold token? at h
  split at h
  case h_10 tail =>
    simp only [Option.map_eq_some_iff, Prod.mk.injEq] at h
    obtain ⟨⟨text, rest'⟩, h', -, rfl⟩ := h
    exact Nat.lt_succ_of_lt (length_quoted? h')
  case h_11 =>
    split at h
    · simp only [Option.some.injEq, Prod.mk.injEq] at h
      obtain ⟨-, rfl⟩ := h
      exact Nat.lt_succ_of_le (List.dropWhile_sublist _).length_le
    · simp at h
  case h_12 => simp at h
  all_goals
    simp only [Option.some.injEq, Prod.mk.injEq] at h
    obtain ⟨-, rfl⟩ := h
    simp <;> omega

/-- The tokens of a text. -/
def tokens (cs : List Char) : List Token :=
  match cs with
  | [] => []
  | c :: rest =>
    if isGap c then tokens rest
    else match _ : token? (c :: rest) with
      | some (t, rest') => t :: tokens rest'
      | none => [.unreadable]
  termination_by cs.length
  decreasing_by
    · exact Nat.lt_succ_self _
    · exact length_token? ‹_›

/-! ## Values -/

/-- An open array with the items read so far, or an open object with its members so far and the
key whose value comes next. -/
inductive Frame where
  | array (items : List Json)
  | object (members : List (String × Json)) (key : String)

/-- What may come next. -/
inductive Expect where
  | value
  /-- After `[`: an item, or the end. -/
  | firstItem
  /-- After an item: a comma, or the end. -/
  | afterItem
  /-- After an opening brace: a key, or the end. -/
  | firstKey
  | key
  | colon
  /-- After a member: a comma, or the end. -/
  | afterMember

/-- What a finished value makes of the innermost open array or object. -/
def Frame.add (value : Json) : Frame → Frame × Expect
  | array items => (array (items ++ [value]), .afterItem)
  | object members key => (object (members ++ [(key, value)]) key, .afterMember)

/-- The value of an array or object that ends. -/
def Frame.close : Frame → Json
  | array items => .array items
  | object members _ => .object members

/-- Reads one value off the tokens, inside the open frames of the stack, innermost first. -/
def readValue? (stack : List Frame) (expect : Expect) : List Token → Option Json
  | [] => none
  | t :: rest =>
    let finish (value : Json) (outer : List Frame) : Option Json :=
      match outer with
      | [] => some value
      | frame :: frames =>
        let (frame, expect) := frame.add value
        readValue? (frame :: frames) expect rest
    match expect, t, stack with
    | .value, .leaf value, _ | .firstItem, .leaf value, _ => finish value stack
    | .value, .openBracket, _ | .firstItem, .openBracket, _ =>
      readValue? (.array [] :: stack) .firstItem rest
    | .value, .openBrace, _ | .firstItem, .openBrace, _ =>
      readValue? (.object [] "" :: stack) .firstKey rest
    | .firstItem, .closeBracket, frame :: outer | .afterItem, .closeBracket, frame :: outer
    | .firstKey, .closeBrace, frame :: outer | .afterMember, .closeBrace, frame :: outer =>
      finish frame.close outer
    | .afterItem, .comma, _ => readValue? stack .value rest
    | .afterMember, .comma, _ => readValue? stack .key rest
    | .firstKey, .leaf (.string key), .object members _ :: outer
    | .key, .leaf (.string key), .object members _ :: outer =>
      readValue? (.object members key :: outer) .colon rest
    | .colon, .colon, _ => readValue? stack .value rest
    | _, _, _ => none

/-- The value at the front of a text. -/
def ofText? (text : String) : Option Json := readValue? [] .value (tokens text.toList)

end SchemaTypegen.Json
