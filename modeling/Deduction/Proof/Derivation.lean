import Deduction.Matching
import Deduction.Proof.Structure
import Deduction.Synthesis

/-!
# Checking derivations

The steps of a proof are checked one after the other, each against the facts before it and never
against itself or anything later.

* A cited rule has to have an instance whose assertion is the formula of the step and each of whose
  premises is a fact.  The assertion binds some variables; each premise is then matched with every
  fact, and the alternatives that agree are kept.
* A cited premise has to be the formula of the step.
* A step by definition has to be compatible with some fact.
* A macro is expanded first.  The synthesized steps are checked like written ones, and each of them
  is a fact for what follows it.

Whatever comes of a step, its formula counts as a fact for the steps after it, so one mistake is
reported once.  The last formula has to be compatible with the assertion of the theorem.
-/

namespace Deduction

/-! ## Elementary steps -/

namespace RuleRef

/-- What is reported when the assertion of a rule does not match. -/
def assertionKind : RuleRef → ErrorKind
  | .ofAxiom _ => .axiomAssertionNotSubstitutable
  | .ofTheorem _ => .theoremAssertionNotSubstitutable

/-- What is reported when the premises of a rule do not match. -/
def premisesKind : RuleRef → ErrorKind
  | .ofAxiom _ => .axiomNotSubstitutable
  | .ofTheorem _ => .theoremNotSubstitutable

end RuleRef

namespace Directory

variable (D : Directory)

/-- The alternatives that are left when every premise in turn is matched with the facts. -/
def matchPremises (facts : List Formula) :
    List Formula → List Bindings → Except ContractError (List Bindings)
  | [], candidates => .ok candidates
  | premise :: premises, candidates => do
    let found ← Bindings.findAll D premise facts
    let candidates ← Bindings.mergeAll D candidates found
    if candidates.isEmpty then return [] else matchPremises facts premises candidates

/-- What keeps a formula from being an instance of a rule's assertion whose premises are facts. -/
def ruleFault? (ref : RuleRef) (f : Formula) (facts : List Formula) :
    Except ContractError (Option Fault) :=
  match D.rule? ref with
  | none => .error (.citeUnverified ref)
  | some rule => do
    match ← Bindings.ofMatch? D rule.assertion f with
    | none => return some ⟨ref.assertionKind, none⟩
    | some required =>
      let candidates ← D.matchPremises facts rule.premises [required]
      return if candidates.isEmpty then some ⟨ref.premisesKind, none⟩ else none

/-- Whether some fact is compatible with a formula. -/
def anyCompatible (f : Formula) : List Formula → Except ContractError Bool
  | [] => .ok false
  | fact :: facts => do
    let fits ← D.compatible f fact
    if fits then return true else anyCompatible f facts

/-- What is wrong with a step that is no macro, in a proof of a theorem with these premises. -/
def elementaryFault? (premises facts : List Formula) (step : Step) :
    Except ContractError (Option Fault) :=
  match step.justification with
  | .rule ref => D.ruleFault? ref step.formula facts
  | .hypothesis index =>
    match itemAt? premises (index - 1) with
    | none => .error (.hypothesisUnverified index)
    | some premise =>
      .ok (if premise ≠ step.formula then some ⟨.hypothesisMismatch, none⟩ else none)
  | .definition => do
    let fits ← D.anyCompatible step.formula facts
    return if fits then none else some ⟨.definitionMismatch, none⟩
  | .functionApplication => .error (.notElementary .functionApplication)
  | .substitution => .error (.notElementary .substitution)

end Directory

/-! ## Whole proofs -/

/-- The synthesized steps of the macro steps of a proof, by the position of the step. -/
abbrev Chains := List (Int × List Step)

/-- What came of checking a proof or some of its steps. -/
structure Derivation where
  errors : List Error := []
  chains : Chains := []
  deriving DecidableEq, Repr

/-- What came of one step: its faults, each at the step itself or at one of those synthesized for
it, and the synthesized steps, if there are any to be had. -/
structure StepOutcome where
  faults : List (Option Nat × Fault) := []
  chain : Option (List Step) := none
  deriving DecidableEq, Repr

namespace StepOutcome

/-- A step that is wrong in one way or in none. -/
def ofFault? (fault : Option Fault) : StepOutcome :=
  ⟨(fault.map fun fault => (none, fault)).toList, none⟩

/-- The formulas that count as facts after the step besides its own. -/
def facts (outcome : StepOutcome) : List Formula :=
  (outcome.chain.getD []).map Step.formula

/-- The errors of a step of a proof. -/
def errors (proof : Ref) (index : Nat) (outcome : StepOutcome) : List Error :=
  outcome.faults.map fun found =>
    let subject := Subject.atStep ⟨.proof, proof, none, none⟩ (some index) (found.1.map Int.ofNat)
    found.2.toError .check subject

end StepOutcome

namespace Laws

variable (laws : Laws)

/-- The faults of synthesized steps, counted from `index`. -/
def chainFaults (citing : Ref) (premises : List Formula) (index : Nat) (facts : List Formula) :
    List Step → Except ContractError (List (Option Nat × Fault))
  | [] => .ok []
  | step :: steps => do
    let cited :=
      match step.justification with
      | .rule (.ofTheorem ref) => laws.directory.citationFault? ref citing
      | _ => none
    let fault ← laws.directory.elementaryFault? premises facts step
    let rest ← chainFaults citing premises (index + 1) (facts ++ [step.formula]) steps
    return (cited.toList ++ fault.toList).map (fun fault => (some index, fault)) ++ rest

/-- A macro step with what was synthesized for it. -/
def checkMacro (citing : Ref) (premises facts : List Formula) (goal : Formula)
    (synthesized : Except ErrorKind (List Step)) : Except ContractError StepOutcome :=
  match synthesized with
  | .error kind => .ok (.ofFault? (some ⟨kind, none⟩))
  | .ok chain => do
    let faults ← laws.chainFaults citing premises 0 facts chain
    let reached := goal ∈ facts ++ chain.map Step.formula
    let missed := if reached then [] else [(none, ⟨.macroGoalNotReached, none⟩)]
    return ⟨faults ++ missed, some chain⟩

/-- One step of a proof against the facts before it. -/
def checkStep (citing : Ref) (premises facts : List Formula) (step : Step) :
    Except ContractError StepOutcome :=
  match step.justification with
  | .functionApplication =>
    laws.checkMacro citing premises facts step.formula
      (synthesizeFunctionApplication laws facts step.formula)
  | .substitution => do
    let synthesized ← synthesizeSubstitution laws facts step.formula
    laws.checkMacro citing premises facts step.formula synthesized
  | _ => do
    let fault ← laws.directory.elementaryFault? premises facts step
    return .ofFault? fault

/-- The steps of a proof, counted from `index`, against the facts before them. -/
def checkSteps (citing : Ref) (premises : List Formula) (index : Nat) (facts : List Formula) :
    List Step → Except ContractError Derivation
  | [] => .ok {}
  | step :: steps => do
    let outcome ← laws.checkStep citing premises facts step
    let rest ← checkSteps citing premises (index + 1)
      (facts ++ outcome.facts ++ [step.formula]) steps
    return ⟨outcome.errors citing index ++ rest.errors,
      (outcome.chain.map fun chain => ((index : Int), chain)).toList ++ rest.chains⟩

/-- The error of a proof that ends in something else than the theorem. -/
def conclusionErrors (citing : Ref) (assertion : Formula) (steps : List Step) :
    Except ContractError (List Error) :=
  match steps.getLast? with
  | none => .ok [⟨⟨.proof, citing, none, none⟩, .emptyProof, .check, none⟩]
  | some last => do
    let fits ← laws.directory.compatible last.formula assertion
    let subject := Subject.atStep ⟨.proof, citing, none, none⟩ (some (steps.length - 1 : Nat)) none
    return if fits then [] else [⟨subject, .assertionMismatch, .check, none⟩]

/-- Checking a proof of a theorem. -/
def checkProof (citing : Ref) (goal : Rule) (proof : Proof) : Except ContractError Derivation := do
  let derivation ← laws.checkSteps citing goal.premises 0 [] proof.steps
  let conclusion ← laws.conclusionErrors citing goal.assertion proof.steps
  return { derivation with errors := derivation.errors ++ conclusion }

/-- Checking the proof at a position. -/
def checkProofAt (ref : Ref) : Except ContractError Derivation :=
  match laws.directory.proof? ref with
  | none => .error (.noProof ref)
  | some proof =>
    match laws.directory.rule? (.ofTheorem proof.theoremRef) with
    | none => .error (.proofOfUnknown ref)
    | some goal => laws.checkProof ref goal proof

end Laws

end Deduction
