import Deduction.Formula.Spine
import Deduction.Justification

/-!
# Broken contracts

The operations of the checking phase rely on what the structural phase has established: references
resolve, definitions are given as many inputs as they have, citations are in range.  Called on
anything else they stop with one of the causes below.  None of them is a finding about a document;
each says that an operation was used without the check that has to come before it.
-/

namespace Deduction

/-- Why an operation stopped. -/
inductive ContractError where
  /-- A ground signature was applied to an argument. -/
  | groundApplied (type : Ref)
  /-- A definition does not resolve, or was given the wrong number of inputs. -/
  | unfoldUnverified (definition : Ref)
  /-- Unfolding came back to a definition more often than there are definitions. -/
  | unfoldEndless (definition : Ref)
  /-- A cited rule does not resolve. -/
  | citeUnverified (rule : RuleRef)
  /-- A cited premise is not one of the theorem's. -/
  | hypothesisUnverified (index : Int)
  /-- A reflexive and transitive relation has no transitivity law. -/
  | notTransitive (relation : Head)
  /-- A macro was checked as if it were a citation. -/
  | notElementary (justification : Justification)
  /-- There is no proof at a position. -/
  | noProof (proof : Ref)
  /-- The theorem of a proof does not resolve. -/
  | proofOfUnknown (proof : Ref)
  deriving DecidableEq, Repr

/-- How a message names the root of a relation. -/
def Head.display : Head → String
  | .symbol ref => s!"Head(kind=<HeadKind.SYMBOL: 'symbol'>, index={ref})"
  | .definition ref => s!"Head(kind=<HeadKind.DEFINITION: 'definition'>, index={ref})"

namespace ContractError

/-- The wording of each cause. -/
def message : ContractError → String
  | .groundApplied type => s!"cannot apply ground signature of type #{type}"
  | .unfoldUnverified definition => s!"cannot expand unverified definition #{definition}"
  | .unfoldEndless definition => s!"definition #{definition} unfolds without end"
  | .citeUnverified rule => s!"cannot cite unverified {rule.describe}"
  | .hypothesisUnverified index => s!"unverified hypothesis index {index}"
  | .notTransitive relation => s!"preorder {relation.display} has no transitivity proof"
  | .notElementary justification =>
    s!"not an elementary justification: {justification.label}()"
  | .noProof proof => s!"no proof #{proof}"
  | .proofOfUnknown proof => s!"proof #{proof} of unknown theorem"

end ContractError

end Deduction
