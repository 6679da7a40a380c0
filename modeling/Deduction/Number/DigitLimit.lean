/-!
# Limits on digits

A host may bound the number of decimal digits from which it makes an integer.  Then an integer with
more of them is refused, whatever its value: zeros in front count as well.
-/

namespace Deduction

/-- More digits than a limit allows. -/
structure DigitExcess where
  limit : Nat
  count : Nat
  deriving DecidableEq, Repr

namespace DigitExcess

/-- The excess of so many digits over a limit, if there is a limit. -/
def of? (maxDigits : Option Nat) (count : Nat) : Option DigitExcess :=
  match maxDigits with
  | none => none
  | some limit => if limit < count then some ⟨limit, count⟩ else none

/-- The wording of the refusal. -/
def message (excess : DigitExcess) : String :=
  s!"Exceeds the limit ({excess.limit} digits) for integer string conversion: " ++
    s!"value has {excess.count} digits; use sys.set_int_max_str_digits() to increase the limit"

@[simp] theorem of?_none (count : Nat) : of? none count = none := rfl

theorem of?_eq_some_iff {maxDigits : Option Nat} {count : Nat} {excess : DigitExcess} :
    of? maxDigits count = some excess ↔
      maxDigits = some excess.limit ∧ excess.limit < count ∧ excess.count = count := by
  obtain ⟨limit, digits⟩ := excess
  cases maxDigits with
  | none => simp
  | some most =>
    simp only [of?, Option.ite_none_right_eq_some, Option.some.injEq, DigitExcess.mk.injEq]
    constructor
    · rintro ⟨hlt, rfl, rfl⟩
      exact ⟨rfl, hlt, rfl⟩
    · rintro ⟨rfl, hlt, rfl⟩
      exact ⟨hlt, rfl, rfl⟩

end DigitExcess

end Deduction
