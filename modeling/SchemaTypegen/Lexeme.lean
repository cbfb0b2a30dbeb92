import SchemaTypegen.Error
import SchemaTypegen.Text.Chars

/-!
# Lexemes

The words of the schema language: names and twelve marks, each with the line it stands on. White
space, control characters and byte order marks only separate. Insertion markers are removed before
a source is read at all, so a name may have one inside.
-/

namespace SchemaTypegen

open Text

/-- The twelve punctuation marks. -/
inductive Mark where
  | openBrace
  | closeBrace
  | openParen
  | closeParen
  | openBracket
  | closeBracket
  | colon
  | comma
  | bang
  | equals
  | bar
  | ampersand
  deriving DecidableEq, Repr

namespace Mark

/-- The character of a mark. -/
def char : Mark → Char
  | openBrace => '{'
  | closeBrace => '}'
  | openParen => '('
  | closeParen => ')'
  | openBracket => '['
  | closeBracket => ']'
  | colon => ':'
  | comma => ','
  | bang => '!'
  | equals => '='
  | bar => '|'
  | ampersand => '&'

/-- All marks. -/
def all : List Mark :=
  [openBrace, closeBrace, openParen, closeParen, openBracket, closeBracket, colon, comma, bang,
    equals, bar, ampersand]

/-- The mark a character stands for. -/
def ofChar? (c : Char) : Option Mark := all.find? (·.char == c)

theorem ofChar?_char (m : Mark) : ofChar? m.char = some m := by
  cases m <;> decide

end Mark

/-- A word of the schema language. -/
inductive Lexeme where
  | name (text : String)
  | mark (m : Mark)
  deriving DecidableEq, Repr

/-- The text of a lexeme. -/
def Lexeme.text : Lexeme → String
  | name text => text
  | mark m => m.char.toString

/-- A lexeme and its line; lines count from one. -/
structure Placed where
  lexeme : Lexeme
  line : Nat
  deriving DecidableEq, Repr

namespace Source

/-- The insertion marker, U+0002. -/
def marker : Char := Char.ofNat 2

/-- Whether a source holds an insertion marker. -/
def hasMarkers (source : String) : Bool := source.toList.any (· == marker)

/-- A source without its insertion markers. -/
def stripMarkers (source : String) : String :=
  String.ofList (source.toList.filter (· != marker))

/-- Characters between lexemes, other than line ends, which also count. -/
def isTrivia (c : Char) : Bool := isBlank c || isControl c || c == Char.ofNat 0xFEFF

/-- The lexemes of a text whose first character stands on `line`. -/
def lexFrom (line : Nat) : List Char → Except Error (List Placed)
  | [] => .ok []
  | c :: rest =>
    if c = '\n' then lexFrom (line + 1) rest
    else if isTrivia c then lexFrom line rest
    else if isNameStart c then
      let name := String.ofList (c :: rest.takeWhile isNameChar)
      (lexFrom line (rest.dropWhile isNameChar)).map (⟨.name name, line⟩ :: ·)
    else match Mark.ofChar? c with
      | some m => (lexFrom line rest).map (⟨.mark m, line⟩ :: ·)
      | none => .error (.malformed line (.strayCharacter c))
  termination_by text => text.length
  decreasing_by
    · exact Nat.lt_succ_self _
    · exact Nat.lt_succ_self _
    · exact Nat.lt_succ_of_le (List.dropWhile_sublist _).length_le
    · exact Nat.lt_succ_self _

/-- The lexemes of a source. -/
def lex (source : String) : Except Error (List Placed) := lexFrom 1 source.toList

end Source

end SchemaTypegen
