import Deduction.Ref

/-!
# Justifications

A proof step says why its formula holds.  It cites a rule (an axiom or a theorem) or one of the
premises of the theorem being proved, it unfolds definitions in an earlier formula, or it leaves the
work to one of two macros, which the checker expands into citations: replacing the arguments
of a function by related ones, and replacing parts of an earlier fact.
-/

namespace Deduction

/-- A rule that can be cited: an axiom or a theorem. -/
inductive RuleRef where
  | ofAxiom (index : Ref)
  | ofTheorem (index : Ref)
  deriving DecidableEq, Repr

namespace RuleRef

/-- The word for the kind of rule. -/
def kindName : RuleRef → String
  | .ofAxiom _ => "axiom"
  | .ofTheorem _ => "theorem"

/-- The position among the rules of its kind. -/
def index : RuleRef → Ref
  | .ofAxiom i => i
  | .ofTheorem i => i

/-- How a message names the rule. -/
def describe (r : RuleRef) : String := s!"{r.kindName} #{r.index}"

end RuleRef

/-- Why the formula of a step holds.  Premises are counted from one. -/
inductive Justification where
  | rule (ref : RuleRef)
  | hypothesis (index : Int)
  | definition
  | functionApplication
  | substitution
  deriving DecidableEq, Repr

namespace Justification

/-- The name of a kind of justification in reports. -/
def label : Justification → String
  | .rule _ => "ByDeductable"
  | .hypothesis _ => "ByHypothesis"
  | .definition => "ByDefinition"
  | .functionApplication => "ByFunctionApplication"
  | .substitution => "BySubstitution"

/-- A macro is expanded into citations before it is checked. -/
def isMacro : Justification → Bool
  | .functionApplication => true
  | .substitution => true
  | _ => false

end Justification

end Deduction
