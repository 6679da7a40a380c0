import Deduction.Contract
import Deduction.Typing

/-!
# The structure of proofs

Before a proof is checked, its parts have to make sense: the theorem it proves resolves, its
formulas are well formed in the scope of that theorem, cited rules resolve, and cited premises
exist.

A theorem may be cited only once it has been proved.  The proof that counts is the first one in the
directory, and it has to stand strictly before the proof that cites it.  So no theorem rests on
itself, not even through a second proof that comes later.

* `Directory.citationFault?`: what is wrong with citing a theorem.
* `Directory.justificationFault?`: what is wrong with the justification of a step.
* `Directory.proofErrors`: everything that is wrong with the parts of a proof.
-/

namespace Deduction

namespace Directory

variable (D : Directory)

/-- What is wrong with citing a theorem in a proof. -/
def citationFault? (theoremRef citing : Ref) : Option Fault :=
  match D.firstProof? theoremRef with
  | none => some ⟨.theoremUnproven, some "justification"⟩
  | some first =>
    if (first : Int) = citing then some ⟨.theoremCircularProof, some "justification"⟩
    else if citing < first then some ⟨.theoremUsedBeforeProof, some "justification"⟩
    else none

/-- What is wrong with a justification in a proof of a theorem that has so many premises. -/
def justificationFault? (premiseCount : Nat) (citing : Ref) : Justification → Option Fault
  | .rule (.ofAxiom ref) =>
    if (D.rule? (.ofAxiom ref)).isNone then some ⟨.invalidAxiomRef, some "justification"⟩
    else none
  | .rule (.ofTheorem ref) =>
    if (D.rule? (.ofTheorem ref)).isNone then some ⟨.invalidTheoremRef, some "justification"⟩
    else D.citationFault? ref citing
  | .hypothesis index =>
    if index = 0 then some ⟨.hypothesisZeroIndex, some "justification"⟩
    else if index < 0 ∨ premiseCount < index then
      some ⟨.hypothesisIndexOutOfRange, some "justification"⟩
    else none
  | .definition => none
  | .functionApplication => none
  | .substitution => none

/-- The faults of a step in a proof of a theorem. -/
def stepFaults (goal : Rule) (citing : Ref) (step : Step) : List Fault :=
  D.formulaFaults goal.scope "formula" none step.formula ++
    (D.justificationFault? goal.premises.length citing step.justification).toList

/-- The errors of the steps of a proof, counted from `index`. -/
def stepErrors (goal : Rule) (citing : Ref) (index : Nat) : List Step → List Error
  | [] => []
  | step :: steps =>
    (D.stepFaults goal citing step).map
        (Fault.toError .verify (Subject.atStep ⟨.proof, citing, none, none⟩ (some index) none)) ++
      stepErrors goal citing (index + 1) steps

/-- The errors in the parts of a proof.  Without its theorem there is no scope to read the steps
in. -/
def proofErrors (ref : Ref) (proof : Proof) : List Error :=
  match D.rule? (.ofTheorem proof.theoremRef) with
  | none => [⟨⟨.proof, ref, none, none⟩, .invalidTheoremRef, .verify, some "theorem"⟩]
  | some goal => D.stepErrors goal ref 0 proof.steps

/-- The errors in the parts of the proof at a position. -/
def proofErrorsAt (ref : Ref) : Except ContractError (List Error) :=
  match D.proof? ref with
  | none => .error (.noProof ref)
  | some proof => .ok (D.proofErrors ref proof)

end Directory

end Deduction
