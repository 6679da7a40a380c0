import Deduction.Json.Basic
import Deduction.Number.Notation
import Deduction.Text.Printable

/-!
# Values in messages

A message that refuses a value quotes it.  The notation is not JSON: the three constants are `None`,
`True` and `False`, strings stand in single quotes, or in double quotes if that saves an escape, and
only what is not printable is escaped.
-/

namespace Deduction
namespace Text

/-- Hexadecimal digits of a fixed number. -/
def hexDigits (n : Nat) : Nat → List Char
  | 0 => []
  | width + 1 => hexDigits (n / 16) width ++ [Nat.digitChar (n % 16)]

/-- The quote a text stands in: single, unless the text holds single quotes and no double ones. -/
def quoteFor (points : List CodePoint) : Char :=
  if points.contains (.char '\'') && !points.contains (.char '"') then '"' else '\''

/-- How a character stands inside quotes. -/
def quotedChar (quote c : Char) : List Char :=
  if c = quote || c = '\\' then ['\\', c]
  else if c = '\n' then ['\\', 'n']
  else if c = '\r' then ['\\', 'r']
  else if c = '\t' then ['\\', 't']
  else if isPrintable c then [c]
  else if c.toNat < 0x100 then ['\\', 'x'] ++ hexDigits c.toNat 2
  else if c.toNat < 0x10000 then ['\\', 'u'] ++ hexDigits c.toNat 4
  else ['\\', 'U'] ++ hexDigits c.toNat 8

/-- The escape of half of a surrogate pair. -/
def halfEscape (unit : UInt16) : List Char := ['\\', 'u'] ++ hexDigits unit.toNat 4

/-- How a code point stands inside quotes. -/
def CodePoint.quoted (quote : Char) : CodePoint → List Char
  | .char c => quotedChar quote c
  | .half unit => halfEscape unit

/-- A text in quotes. -/
def quoted (t : Text) : String :=
  let quote := quoteFor t.codePoints
  String.ofList (quote :: (t.codePoints.flatMap (CodePoint.quoted quote) ++ [quote]))

/-- The characters of a text as a string, with an escape for each half that stands alone. -/
def toString (t : Text) : String :=
  String.ofList (t.codePoints.flatMap fun point =>
    match point with
    | .char c => [c]
    | .half unit => halfEscape unit)

end Text

namespace Json

/-- The words of numbers that have no digits. -/
def displayWords : NumberWords := ⟨"nan", "inf"⟩

mutual

/-- A value as messages quote it. -/
def display : Json → String
  | .null => "None"
  | .bool true => "True"
  | .bool false => "False"
  | .int n => String.ofList (intText n)
  | .float x => String.ofList (x.text displayWords)
  | .str s => Text.quoted s
  | .arr items => "[" ++ ", ".intercalate (displayItems items) ++ "]"
  | .obj members => "\x7b" ++ ", ".intercalate (displayMembers members) ++ "\x7d"

/-- The items of an array. -/
def displayItems : List Json → List String
  | [] => []
  | item :: items => display item :: displayItems items

/-- The members of an object, each with its key. -/
def displayMembers : List (Text × Json) → List String
  | [] => []
  | (key, value) :: members =>
    (Text.quoted key ++ ": " ++ display value) :: displayMembers members

end

/-- A value as running text: a string stands without quotes. -/
def plain : Json → Text
  | .str s => s
  | value => value.display

end Json
end Deduction
