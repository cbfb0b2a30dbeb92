/-!
# JSON

JSON values with natural numbers, which are all the numbers a schema has, and their indented text.
Objects keep their members in order.
-/

namespace SchemaTypegen

/-- A JSON value. -/
inductive Json where
  | null
  | bool (value : Bool)
  | number (value : Nat)
  | string (value : String)
  | array (items : List Json)
  | object (members : List (String × Json))

namespace Json

/-- A digit of a hexadecimal number below sixteen. -/
def hexDigit (n : Nat) : Char := if n < 10 then Char.ofNat (0x30 + n) else Char.ofNat (0x57 + n)

/-- A character inside a quoted text. Quotes, backslashes and control characters are escaped. -/
def escapeChar (c : Char) : List Char :=
  if c = '"' then ['\\', '"']
  else if c = '\\' then ['\\', '\\']
  else if c.toNat = 0x08 then ['\\', 'b']
  else if c.toNat = 0x0C then ['\\', 'f']
  else if c = '\n' then ['\\', 'n']
  else if c = '\r' then ['\\', 'r']
  else if c = '\t' then ['\\', 't']
  else if c.toNat < 0x20 then
    ['\\', 'u', '0', '0', hexDigit (c.toNat / 16), hexDigit (c.toNat % 16)]
  else [c]

/-- A quoted text. -/
def quote (s : String) : String := String.ofList ('"' :: s.toList.flatMap escapeChar ++ ['"'])

/-- The blanks before a line at a level of nesting: two a level. -/
def margin (level : Nat) : String := String.ofList (List.replicate (2 * level) ' ')

mutual

/-- The indented text of a value that stands at a level of nesting. -/
def prettyAt (level : Nat) : Json → String
  | null => "null"
  | bool value => if value then "true" else "false"
  | number value => toString value
  | string value => quote value
  | array [] => "[]"
  | array (item :: items) =>
    "[\n" ++ prettyItems (level + 1) (item :: items) ++ "\n" ++ margin level ++ "]"
  | object [] => "\x7b\x7d"
  | object (member :: members) =>
    "\x7b\n" ++ prettyMembers (level + 1) (member :: members) ++ "\n" ++ margin level ++ "\x7d"

/-- The items of an array, one a line. -/
def prettyItems (level : Nat) : List Json → String
  | [] => ""
  | [item] => margin level ++ prettyAt level item
  | item :: items => margin level ++ prettyAt level item ++ ",\n" ++ prettyItems level items

/-- The members of an object, one a line. -/
def prettyMembers (level : Nat) : List (String × Json) → String
  | [] => ""
  | [(key, value)] => margin level ++ quote key ++ ": " ++ prettyAt level value
  | (key, value) :: members =>
    margin level ++ quote key ++ ": " ++ prettyAt level value ++ ",\n" ++
      prettyMembers level members

end

/-- The indented text of a value, without a line end after it. -/
def pretty (value : Json) : String := prettyAt 0 value

end Json

end SchemaTypegen
