import Deduction.Json.Basic
import Deduction.Number.DigitLimit

/-!
# Reading JSON text

The grammar is the usual one with three words more, `NaN`, `Infinity` and `-Infinity`.  Numbers with
a fraction or an exponent become `Json.float`, all others `Json.int`.  Raw control characters inside
a string, zeros in front of a number, commas in front of a closing bracket and a mark in front of
the text are refused.  In an object a repeated key keeps its first place and its last value.

The reader works on the list of characters.  Every function answers the value and the characters
behind it.  Nesting is bounded by a counter that starts above twice the length of the text
(`parse`): a call spends one unit and at least every second call consumes a character, so the
counter never runs out before the text does.

Strings are read as their UTF-16 units, one for every escape of four digits, so half of a surrogate
pair may stand alone.

A host may limit the digits of an integer, say to 4300, and the reader is told so; without a limit
it reads them all.  The limit of a host on the depth of recursion is left out: values are read to
any depth.
-/

namespace Deduction
namespace Json

/-- Why a text is not one JSON value. -/
inductive ParseError where
  /-- The text does not follow the grammar. -/
  | malformed
  /-- An integer has too many digits. -/
  | tooManyDigits (excess : DigitExcess)
  deriving DecidableEq, Repr

/-! ## Blanks and words -/

/-- The four characters that may stand between tokens. -/
def isSpace (c : Char) : Bool := c = ' ' || c = '\n' || c = '\r' || c = '\t'

/-- The text behind leading blanks. -/
def skipSpaces : List Char → List Char
  | [] => []
  | c :: rest => if isSpace c then skipSpaces rest else c :: rest

/-- The text behind a given word, if it starts with it. -/
def dropWord : List Char → List Char → Option (List Char)
  | [], text => some text
  | _ :: _, [] => none
  | w :: word, c :: text => if w = c then dropWord word text else none

@[simp] theorem dropWord_append (word text : List Char) :
    dropWord word (word ++ text) = some text := by
  induction word with
  | nil => rfl
  | cons w word ih => simp [dropWord, ih]

/-- A value that is written as a word, of which the first character has been read. -/
def parseWord (value : Json) (word text : List Char) : Except ParseError (Json × List Char) :=
  match dropWord word text with
  | some rest => .ok (value, rest)
  | none => .error .malformed

/-! ## Strings -/

/-- The value of a hexadecimal digit. -/
def hexValue? (c : Char) : Option Nat :=
  if '0' ≤ c ∧ c ≤ '9' then some (c.toNat - '0'.toNat)
  else if 'a' ≤ c ∧ c ≤ 'f' then some (c.toNat - 'a'.toNat + 10)
  else if 'A' ≤ c ∧ c ≤ 'F' then some (c.toNat - 'A'.toNat + 10)
  else none

/-- The unit that four hexadecimal digits stand for. -/
def hexUnit? (a b c d : Char) : Option UInt16 :=
  match hexValue? a, hexValue? b, hexValue? c, hexValue? d with
  | some a, some b, some c, some d => some (((a * 16 + b) * 16 + c) * 16 + d).toUInt16
  | _, _, _, _ => none

/-- The character of an escape with one letter. -/
def shortEscape? (c : Char) : Option Char :=
  if c = '"' || c = '\\' || c = '/' then some c
  else if c = 'b' then some '\x08'
  else if c = 'f' then some '\x0c'
  else if c = 'n' then some '\n'
  else if c = 'r' then some '\r'
  else if c = 't' then some '\t'
  else none

/-- The rest of a string whose opening quote and first characters have been read; `done` holds the
units of these, the last one first. -/
def stringRest (done : List UInt16) : List Char → Option (Text × List Char)
  | [] => none
  | '"' :: rest => some (⟨done.reverse⟩, rest)
  | '\\' :: 'u' :: a :: b :: c :: d :: rest =>
    match hexUnit? a b c d with
    | none => none
    | some unit => stringRest (unit :: done) rest
  | '\\' :: c :: rest =>
    match shortEscape? c with
    | none => none
    | some e => stringRest ((Text.charUnits e).reverse ++ done) rest
  | c :: rest =>
    if c.toNat < 0x20 || c = '\\' then none
    else stringRest ((Text.charUnits c).reverse ++ done) rest

/-! ## Numbers -/

/-- The leading decimal digits of a text and what follows them. -/
def takeDigits : List Char → List Char × List Char
  | [] => ([], [])
  | c :: rest =>
    if c.isDigit then
      let more := takeDigits rest
      (c :: more.1, more.2)
    else ([], c :: rest)

/-- A number is a sign, the digits before the point, the digits behind it and an exponent; the last
two may be missing. -/
structure NumberText where
  negative : Bool
  whole : List Char
  fraction : List Char
  exponent : Option Int

/-- The digits before the point: a zero alone, or digits that do not start with one. -/
def takeWhole : List Char → Option (List Char × List Char)
  | '0' :: rest => some (['0'], rest)
  | text =>
    match takeDigits text with
    | ([], _) => none
    | digits => some digits

/-- The point and the digits behind it.  A point without a digit does not belong to the number. -/
def takeFraction : List Char → List Char × List Char
  | '.' :: rest =>
    match takeDigits rest with
    | ([], _) => ([], '.' :: rest)
    | digits => digits
  | text => ([], text)

/-- The exponent.  A mark without digits does not belong to the number. -/
def takeExponent : List Char → Option Int × List Char
  | [] => (none, [])
  | c :: rest =>
    if c = 'e' || c = 'E' then
      let signed : Bool × List Char :=
        match rest with
        | '-' :: more => (true, more)
        | '+' :: more => (false, more)
        | more => (false, more)
      match takeDigits signed.2 with
      | ([], _) => (none, c :: rest)
      | (digits, more) =>
        let size : Int := Nat.ofDigitChars 10 digits 0
        (some (if signed.1 then -size else size), more)
    else (none, c :: rest)

/-- Whether a number is an integer: it has neither a fraction nor an exponent. -/
def NumberText.isInteger (n : NumberText) : Bool := n.fraction.isEmpty && n.exponent.isNone

/-- The value of a number. -/
def NumberText.value (n : NumberText) : Json :=
  if n.isInteger then
    let size : Int := Nat.ofDigitChars 10 n.whole 0
    .int (if n.negative then -size else size)
  else
    .float (Binary64.ofDecimal n.negative (Nat.ofDigitChars 10 (n.whole ++ n.fraction) 0)
      (n.exponent.getD 0 - n.fraction.length))

/-- What is too much of a number.  Only the digits of integers are counted. -/
def NumberText.excess? (maxDigits : Option Nat) (n : NumberText) : Option DigitExcess :=
  if n.isInteger then DigitExcess.of? maxDigits n.whole.length else none

/-- A number without its sign. -/
def parseUnsigned (maxDigits : Option Nat) (negative : Bool) (text : List Char) :
    Except ParseError (Json × List Char) :=
  match takeWhole text with
  | none => .error .malformed
  | some (whole, rest) =>
    let fraction := takeFraction rest
    let exponent := takeExponent fraction.2
    let number : NumberText := ⟨negative, whole, fraction.1, exponent.1⟩
    match number.excess? maxDigits with
    | some excess => .error (.tooManyDigits excess)
    | none => .ok (number.value, exponent.2)

/-- A number, or one of the words for the numbers that have no digits. -/
def parseNumber (maxDigits : Option Nat) : List Char → Except ParseError (Json × List Char)
  | '-' :: rest =>
    match dropWord ['I', 'n', 'f', 'i', 'n', 'i', 't', 'y'] rest with
    | some more => .ok (.float (.infinite true), more)
    | none => parseUnsigned maxDigits true rest
  | 'I' :: rest => parseWord (.float (.infinite false)) ['n', 'f', 'i', 'n', 'i', 't', 'y'] rest
  | 'N' :: rest => parseWord (.float .nan) ['a', 'N'] rest
  | text => parseUnsigned maxDigits false text

/-! ## Values -/

mutual

/-- A value at the start of the text. -/
def parseValue (maxDigits : Option Nat) : Nat → List Char → Except ParseError (Json × List Char)
  | 0, _ => .error .malformed
  | fuel + 1, text =>
    match text with
    | '"' :: rest =>
      match stringRest [] rest with
      | some (string, more) => .ok (.str string, more)
      | none => .error .malformed
    | '[' :: rest =>
      match skipSpaces rest with
      | ']' :: more => .ok (.arr [], more)
      | more => parseItems maxDigits fuel [] more
    | '{' :: rest =>
      match skipSpaces rest with
      | '}' :: more => .ok (.obj [], more)
      | more => parseMembers maxDigits fuel [] more
    | 't' :: rest => parseWord (.bool true) ['r', 'u', 'e'] rest
    | 'f' :: rest => parseWord (.bool false) ['a', 'l', 's', 'e'] rest
    | 'n' :: rest => parseWord .null ['u', 'l', 'l'] rest
    | _ => parseNumber maxDigits text

/-- The items of an array up to its closing bracket; `done` holds those read, the last one first. -/
def parseItems (maxDigits : Option Nat) :
    Nat → List Json → List Char → Except ParseError (Json × List Char)
  | 0, _, _ => .error .malformed
  | fuel + 1, done, text =>
    match parseValue maxDigits fuel text with
    | .error cause => .error cause
    | .ok (item, rest) =>
      match skipSpaces rest with
      | ',' :: more => parseItems maxDigits fuel (item :: done) (skipSpaces more)
      | ']' :: more => .ok (.arr (item :: done).reverse, more)
      | _ => .error .malformed

/-- The members of an object up to its closing brace; `done` holds those read. -/
def parseMembers (maxDigits : Option Nat) :
    Nat → List (Text × Json) → List Char → Except ParseError (Json × List Char)
  | 0, _, _ => .error .malformed
  | fuel + 1, done, text =>
    match text with
    | '"' :: rest =>
      match stringRest [] rest with
      | none => .error .malformed
      | some (key, afterKey) =>
        match skipSpaces afterKey with
        | ':' :: more =>
          match parseValue maxDigits fuel (skipSpaces more) with
          | .error cause => .error cause
          | .ok (value, afterValue) =>
            let members := setMember key value done
            match skipSpaces afterValue with
            | ',' :: next => parseMembers maxDigits fuel members (skipSpaces next)
            | '}' :: next => .ok (.obj members, next)
            | _ => .error .malformed
        | _ => .error .malformed
    | _ => .error .malformed

end

/-- The value that a text holds, if the text is one JSON value. -/
def parse (text : List Char) (maxDigits : Option Nat := none) : Except ParseError Json :=
  match parseValue maxDigits (2 * text.length + 2) (skipSpaces text) with
  | .ok (value, rest) => if (skipSpaces rest).isEmpty then .ok value else .error .malformed
  | .error cause => .error cause

/-- The value that a text holds, or `none` if the text is not one JSON value. -/
def parse? (text : List Char) : Option Json := (parse text).toOption

end Json
end Deduction
