import Deduction.Directory

/-!
# Unfolding definitions

A definition with inputs stands for its expansion with the inputs put in for the formal ones.  Two
formulas are *compatible* if they are equal once every definition on both sides is unfolded.

Unfolding goes from the inside out.  First the inputs of a definition are unfolded, then they are
put into the expansion, and then the result is unfolded in turn.  A variable of the expansion that
is not a formal input stays as it is.

A definition may only use definitions declared before it, so unfolding ends; that rule is checked
elsewhere, and here the number of definitions bounds the depth.  No run through different
definitions can be longer, so the bound is reached only by definitions that use themselves.  The
limit of a host on the depth of recursion is left out: definitions may be nested as deeply as they
are.
-/

namespace Deduction

namespace Formula

mutual

/-- Replacing every definition, the innermost ones first, by what `unfold` makes of its reference
and its replaced inputs. -/
def unfoldWith (unfold : Ref → List Formula → Except ContractError Formula) :
    Formula → Except ContractError Formula
  | .symbol ref => .ok (.symbol ref)
  | .var ref => .ok (.var ref)
  | .app f x => do
    let f ← unfoldWith unfold f
    let x ← unfoldWith unfold x
    return .app f x
  | .definition ref inputs => do
    let inputs ← unfoldAllWith unfold inputs
    unfold ref inputs

/-- The same for a list of formulas, from left to right. -/
def unfoldAllWith (unfold : Ref → List Formula → Except ContractError Formula) :
    List Formula → Except ContractError (List Formula)
  | [] => .ok []
  | x :: xs => do
    let x ← unfoldWith unfold x
    let xs ← unfoldAllWith unfold xs
    return x :: xs

end

end Formula

namespace Directory

variable (D : Directory)

/-- The definition at a position, if it takes that many inputs. -/
def definitionTaking? (ref : Ref) (count : Nat) : Option Definition :=
  (D.definition? ref).filter fun d => d.arity == count

/-- A definition with inputs in which nothing is left to unfold, unfolded down to a depth. -/
def unfoldWithin : Nat → Ref → List Formula → Except ContractError Formula
  | 0, ref, inputs =>
    match D.definitionTaking? ref inputs.length with
    | none => .error (.unfoldUnverified ref)
    | some _ => .error (.unfoldEndless ref)
  | depth + 1, ref, inputs =>
    match D.definitionTaking? ref inputs.length with
    | none => .error (.unfoldUnverified ref)
    | some d => (d.expansion.substitute (Formula.inputValues inputs)).unfoldWith
        (unfoldWithin depth)

/-- A formula with every definition unfolded. -/
def unfold (f : Formula) : Except ContractError Formula :=
  f.unfoldWith (D.unfoldWithin D.definitions.length)

/-- Whether two formulas are equal once all definitions are unfolded.  Equal formulas are compared
as they stand. -/
def compatible (f g : Formula) : Except ContractError Bool :=
  if f = g then .ok true
  else do
    let f ← D.unfold f
    let g ← D.unfold g
    return f == g

@[simp] theorem compatible_self (f : Formula) : D.compatible f f = .ok true := by
  simp [compatible]

end Directory

end Deduction
