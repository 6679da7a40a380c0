import Deduction.Number.Shortest

/-!
# Writing numbers

A finite number is written with its shortest digits.  The point stands among them as long as it is
at most three zeros to their left or sixteen places to their right, and there is always a digit on
both sides of it; outside that range an exponent of at least two digits is written instead.
Infinities and the number that is no number are words, which the text they stand in chooses.
-/

namespace Deduction

/-- The words for what has no digits. -/
structure NumberWords where
  nan : String
  infinity : String

namespace Decimal

/-- The points for which a decimal is written without an exponent. -/
def isPositional (d : Decimal) : Bool := -4 < d.point && d.point ≤ 16

/-- The text with the point among the digits. -/
def positionalText (d : Decimal) : List Char :=
  let digits := Nat.toDigits 10 d.digits
  match d.point with
  | .ofNat 0 => ['0', '.'] ++ digits
  | .negSucc k => ['0', '.'] ++ List.replicate (k + 1) '0' ++ digits
  | .ofNat k =>
    if digits.length ≤ k then digits ++ List.replicate (k - digits.length) '0' ++ ['.', '0']
    else digits.take k ++ ['.'] ++ digits.drop k

/-- The text with an exponent. -/
def exponentText (d : Decimal) : List Char :=
  let digits := Nat.toDigits 10 d.digits
  let mantissa :=
    match digits with
    | first :: second :: rest => first :: '.' :: second :: rest
    | single => single
  let power := d.point - 1
  let size := Nat.toDigits 10 power.natAbs
  let padded := if size.length < 2 then '0' :: size else size
  mantissa ++ ['e', if power < 0 then '-' else '+'] ++ padded

/-- The text of a decimal. -/
def text (d : Decimal) : List Char :=
  if d.isPositional then d.positionalText else d.exponentText

end Decimal

namespace Binary64

/-- The text of a number. -/
def text (words : NumberWords) : Binary64 → List Char
  | .nan => words.nan.toList
  | .infinite negative => (if negative then ['-'] else []) ++ words.infinity.toList
  | .finite negative mantissa exponent =>
    (if negative then ['-'] else []) ++
      if mantissa = 0 then ['0', '.', '0'] else (shortest mantissa exponent).text

end Binary64

/-- The text of an integer. -/
def intText : Int → List Char
  | .ofNat n => Nat.toDigits 10 n
  | .negSucc n => '-' :: Nat.toDigits 10 (n + 1)

end Deduction
