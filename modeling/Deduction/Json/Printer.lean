import Deduction.Json.Basic
import Deduction.Number.Notation

/-!
# Writing JSON text

The text is spread over lines: an array or object that is not empty has each of its parts on a line
of its own, indented by two blanks for every level, with a comma behind each part but the last.  The
text holds only ASCII characters: every other one is written as the escapes of its units.

The limits of a host, such as 4300 digits for the text of an integer or a depth of recursion, are
left out: every value has a text.
-/

namespace Deduction
namespace Json

/-- The words of numbers that have no digits. -/
def numberWords : NumberWords := ⟨"NaN", "Infinity"⟩

/-- A digit below sixteen. -/
def hexDigit (n : Nat) : Char :=
  if n < 10 then Char.ofNat ('0'.toNat + n) else Char.ofNat ('a'.toNat + (n - 10))

/-- Four hexadecimal digits behind the mark of an escape. -/
def unitEscape (n : Nat) : List Char :=
  ['\\', 'u', hexDigit (n / 4096 % 16), hexDigit (n / 256 % 16), hexDigit (n / 16 % 16),
    hexDigit (n % 16)]

/-- How a unit stands inside a string. -/
def escapeUnit (unit : UInt16) : List Char :=
  let n := unit.toNat
  if n = 0x22 then ['\\', '"']
  else if n = 0x5c then ['\\', '\\']
  else if n = 0x0a then ['\\', 'n']
  else if n = 0x0d then ['\\', 'r']
  else if n = 0x09 then ['\\', 't']
  else if n = 0x08 then ['\\', 'b']
  else if n = 0x0c then ['\\', 'f']
  else if 0x20 ≤ n ∧ n ≤ 0x7e then [Char.ofNat n]
  else unitEscape n

/-- A string with its quotes. -/
def stringText (t : Text) : List Char :=
  '"' :: (t.units.flatMap escapeUnit ++ ['"'])

/-- A new line at a level. -/
def newLine (level : Nat) : List Char := '\n' :: List.replicate (2 * level) ' '

mutual

/-- The text of a value whose first line stands at a level. -/
def text (level : Nat) : Json → List Char
  | .null => ['n', 'u', 'l', 'l']
  | .bool true => ['t', 'r', 'u', 'e']
  | .bool false => ['f', 'a', 'l', 's', 'e']
  | .int n => intText n
  | .float x => x.text numberWords
  | .str s => stringText s
  | .arr [] => ['[', ']']
  | .arr (item :: items) =>
    '[' :: (newLine (level + 1) ++ (text (level + 1) item ++
      (itemsText (level + 1) items ++ (newLine level ++ [']']))))
  | .obj [] => ['{', '}']
  | .obj ((key, value) :: members) =>
    '{' :: (newLine (level + 1) ++ (stringText key ++ (':' :: ' ' :: (text (level + 1) value ++
      (membersText (level + 1) members ++ (newLine level ++ ['}']))))))

/-- The text of the items behind the first. -/
def itemsText (level : Nat) : List Json → List Char
  | [] => []
  | item :: items => ',' :: (newLine level ++ (text level item ++ itemsText level items))

/-- The text of the members behind the first. -/
def membersText (level : Nat) : List (Text × Json) → List Char
  | [] => []
  | (key, value) :: members =>
    ',' :: (newLine level ++ (stringText key ++ (':' :: ' ' :: (text level value ++
      membersText level members))))

end

/-- The text of a value. -/
def pretty (value : Json) : String := String.ofList (text 0 value)

end Json
end Deduction
