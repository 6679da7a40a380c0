/-!
# Double-precision numbers

A document may hold numbers with a fraction or an exponent.  Nothing is ever computed with them:
they are read, compared for identity and written back.  So a number is kept as its parts, a sign, a
mantissa and a power of two, and everything here is exact arithmetic on natural numbers.

The only rule is how a decimal is read: `ofDecimal` takes the nearest representable number, and of
two that are equally near the one with the even mantissa.

* `Binary64`: a double-precision number by its parts.
* `roundQuotient`: the integer nearest to a quotient, ties to even.
* `Binary64.ofDecimal`: the number that a decimal `digits * 10 ^ exponent` stands for.
-/

namespace Deduction

/-- A double-precision number.  A finite number is `mantissa * 2 ^ exponent` up to its sign; the
mantissa is below `2 ^ 53`, and it is at least `2 ^ 52` unless the exponent is the least one. -/
inductive Binary64 where
  | nan
  | infinite (negative : Bool)
  | finite (negative : Bool) (mantissa : Nat) (exponent : Int)
  deriving DecidableEq, Repr

/-- The integer nearest to `num / den`; a quotient halfway between two integers goes to the even
one. -/
def roundQuotient (num den : Nat) : Nat :=
  let low := num / den
  let rest := num % den
  if 2 * rest < den then low
  else if den < 2 * rest then low + 1
  else if low % 2 = 0 then low else low + 1

@[simp] theorem roundQuotient_one (n : Nat) : roundQuotient n 1 = n := by
  simp [roundQuotient, Nat.mod_one]

/-- Moving a power of two from the quotient `num / den` into one of its two parts: the parts of
`num / (den * 2 ^ q)`. -/
def scaleQuotient (num den : Nat) : Int → Nat × Nat
  | .ofNat q => (num, den * Nat.pow 2 q)
  | .negSucc q => (num * Nat.pow 2 (q + 1), den)

namespace Binary64

/-- The least exponent of a finite number. -/
def leastExponent : Int := -1074

/-- The greatest exponent of a finite number. -/
def greatestExponent : Int := 971

/-- The positive number nearest to `num / den`, with the given sign.  The exponent is chosen so that
the quotient has 53 binary places, or fewer where the exponents end. -/
def ofQuotient (negative : Bool) (num den : Nat) : Binary64 :=
  let estimate : Int := (Nat.log2 num : Int) - Nat.log2 den - 53
  let wide := scaleQuotient num den estimate
  let normal := if Nat.pow 2 53 ≤ wide.1 / wide.2 then estimate + 1 else estimate
  let exponent := max normal leastExponent
  let parts := scaleQuotient num den exponent
  let mantissa := roundQuotient parts.1 parts.2
  let carried :=
    if mantissa = Nat.pow 2 53 then (Nat.pow 2 52, exponent + 1) else (mantissa, exponent)
  if greatestExponent < carried.2 then .infinite negative
  else .finite negative carried.1 carried.2

/-- The number that the decimal `digits * 10 ^ exponent` stands for.  A decimal with more than 310
places before its point is beyond every finite number, and one with more than 330 zeros behind its
point is nearest to zero, so the powers of ten stay small whatever exponent is written. -/
def ofDecimal (negative : Bool) (digits : Nat) (exponent : Int) : Binary64 :=
  let places : Int := exponent + (Nat.toDigits 10 digits).length
  if digits = 0 ∨ places < -330 then .finite negative 0 leastExponent
  else if 310 < places then .infinite negative
  else
    match exponent with
    | .ofNat e => ofQuotient negative (digits * Nat.pow 10 e) 1
    | .negSucc e => ofQuotient negative digits (Nat.pow 10 (e + 1))

end Binary64

end Deduction
