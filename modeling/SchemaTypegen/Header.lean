/-!
# The header

The comment at the top of an output, with the local time it was made at if that is wanted.
-/

namespace SchemaTypegen

/-- A local time, to the second. -/
structure Moment where
  year : Nat
  month : Nat
  day : Nat
  hour : Nat
  minute : Nat
  second : Nat
  deriving DecidableEq, Repr

namespace Moment

/-- A number with zeros before it up to a width. -/
def padded (width n : Nat) : String :=
  let digits := Nat.toDigits 10 n
  String.ofList (List.replicate (width - digits.length) '0' ++ digits)

/-- A year has four digits, or a sign when it needs more. -/
def yearText (year : Nat) : String := if year < 10000 then padded 4 year else "+" ++ padded 4 year

/-- The text of a time: `2024-02-29 09:05:00`. -/
def text (m : Moment) : String :=
  yearText m.year ++ "-" ++ padded 2 m.month ++ "-" ++ padded 2 m.day ++ " " ++
    padded 2 m.hour ++ ":" ++ padded 2 m.minute ++ ":" ++ padded 2 m.second

end Moment

/-- The header, with or without a time. -/
def headerText (made : Option Moment) : String :=
  "/*\n* Type Definitions automatically generated via gql-tg" ++
    (match made with
      | some moment => " at " ++ moment.text
      | none => "") ++
    ".\n* Do not change this file directly as the changes would be overwritten.\n" ++
    "* Change the source GraphQL Schema File instead.\n" ++
    "*/\n"

end SchemaTypegen
