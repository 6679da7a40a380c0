import Deduction.Contract

/-!
# Curried signatures

A signature is a ground type or an arrow from an input signature to an output signature.  Functions
of several arguments are curried: `a → b → c` is `arrow a (arrow b c)`, and its arity is the number
of arrows before the first ground type.

`extend` puts inputs in front of a signature, the first input outermost; `inputs` and `target` take
a signature apart again (`extend_inputs_target`).
-/

namespace Deduction

/-- The signature of a symbol, a variable or a formula. -/
inductive Signature where
  | ground (type : Ref)
  | arrow (input output : Signature)
  deriving DecidableEq, Repr, Inhabited

namespace Signature

/-- How many arguments a value of this signature takes before it is ground. -/
def arity : Signature → Nat
  | .ground _ => 0
  | .arrow _ output => output.arity + 1

/-- The input signatures, outermost first. -/
def inputs : Signature → List Signature
  | .ground _ => []
  | .arrow input output => input :: output.inputs

/-- The ground type that is left when all arguments are given. -/
def target : Signature → Ref
  | .ground type => type
  | .arrow _ output => output.target

/-- The signature of a value applied to one argument. -/
def applied : Signature → Except ContractError Signature
  | .ground type => .error (.groundApplied type)
  | .arrow _ output => .ok output

/-- The signature with inputs put in front of it, the first one outermost. -/
def extend (s : Signature) (inputs : List Signature) : Signature :=
  inputs.foldr .arrow s

/-- A curried signature from its inputs and, last, its output; there is none for the empty list. -/
def curried? : List Signature → Option Signature
  | [] => none
  | [s] => some s
  | input :: rest => (curried? rest).map (.arrow input)

/-- Every ground type of a signature, from left to right and with repeats. -/
def typeRefs : Signature → List Ref
  | .ground type => [type]
  | .arrow input output => input.typeRefs ++ output.typeRefs

@[simp] theorem extend_nil (s : Signature) : s.extend [] = s := rfl

@[simp] theorem extend_cons (s input : Signature) (rest : List Signature) :
    s.extend (input :: rest) = .arrow input (s.extend rest) := rfl

@[simp] theorem length_inputs (s : Signature) : s.inputs.length = s.arity := by
  induction s with
  | ground => rfl
  | arrow input output _ ih => simp [inputs, arity, ih]

/-- A signature is its target with its inputs in front. -/
theorem extend_inputs_target (s : Signature) :
    (Signature.ground s.target).extend s.inputs = s := by
  induction s with
  | ground => rfl
  | arrow input output _ ih => simp [inputs, target, ih]

end Signature

end Deduction
