import Deduction.Number.Binary64

/-!
# The shortest decimal of a number

A finite number is written with the fewest digits that read back as the same number; of several
decimals with that many digits the one nearest to the number is taken, and of two equally near ones
the even one.  The search needs no more than the reader: for one digit, two digits and so on it asks
`Binary64.ofDecimal` whether one of the two neighbours on that decimal grid reads back.  Seventeen
digits always suffice.

* `Decimal`: digits and the place of the point.
* `shortest`: the shortest decimal of a positive finite number.
-/

namespace Deduction

/-- The decimal `0.d₁d₂… * 10 ^ point`, where `d₁d₂…` are the digits of `digits`. -/
structure Decimal where
  digits : Nat
  point : Int
  deriving DecidableEq, Repr

namespace Decimal

/-- How many digits a natural number has; zero has one. -/
def width (n : Nat) : Nat := (Nat.toDigits 10 n).length

/-- The power of ten that stands under the last digit. -/
def exponent (d : Decimal) : Int := d.point - width d.digits

/-- Zeros at the end of the digits do not change a decimal. -/
def dropZeros : Nat → Nat → Nat
  | 0, n => n
  | fuel + 1, n => if n ≠ 0 ∧ n % 10 = 0 then dropZeros fuel (n / 10) else n

end Decimal

namespace Binary64

/-- The parts of the quotient that a positive finite number is. -/
def quotient (mantissa : Nat) (exponent : Int) : Nat × Nat :=
  match exponent with
  | .ofNat e => (mantissa * Nat.pow 2 e, 1)
  | .negSucc e => (mantissa, Nat.pow 2 (e + 1))

/-- The place of the decimal point: the least `k` with `num / den < 10 ^ k`.  Every positive number
has a nonzero digit among the first four hundred places behind the point, so counting the digits of
the number moved there is enough. -/
def pointOf (num den : Nat) : Int :=
  (Decimal.width (num * Nat.pow 10 400 / den) : Int) - 400

/-- The two neighbours of `num / den` on the grid of decimals with `count` digits, each with the
distance from the quotient in units of the grid, as a numerator over one common denominator. -/
def neighbours (num den : Nat) (point : Int) (count : Nat) : (Nat × Nat) × (Nat × Nat) :=
  let grid : Nat × Nat :=
    match point - count with
    | .ofNat e => (num, den * Nat.pow 10 e)
    | .negSucc e => (num * Nat.pow 10 (e + 1), den)
  let low := grid.1 / grid.2
  let rest := grid.1 % grid.2
  ((low, rest), (low + 1, grid.2 - rest))

/-- The decimal with `count` digits that reads back as the number, if there is one. -/
def readsBack (mantissa : Nat) (exponent : Int) (count : Nat) : Option Decimal :=
  let parts := quotient mantissa exponent
  let point := pointOf parts.1 parts.2
  let pair := neighbours parts.1 parts.2 point count
  let hits := fun n => ofDecimal false n (point - count) == .finite false mantissa exponent
  let decimal := fun (n : Nat) =>
    { digits := Decimal.dropZeros 20 n
      point := point - count + Decimal.width n : Decimal }
  match hits pair.1.1, hits pair.2.1 with
  | true, true =>
    if pair.1.2 < pair.2.2 ∨ (pair.1.2 = pair.2.2 ∧ pair.1.1 % 2 = 0) then
      some (decimal pair.1.1)
    else some (decimal pair.2.1)
  | true, false => some (decimal pair.1.1)
  | false, true => some (decimal pair.2.1)
  | false, false => none

/-- The shortest decimal of a positive finite number. -/
def shortest (mantissa : Nat) (exponent : Int) : Decimal :=
  ((List.range 17).findSome? fun k => readsBack mantissa exponent (k + 1)).getD ⟨0, 1⟩

end Binary64

end Deduction
