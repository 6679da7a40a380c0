import Deduction.Registry.Basic

/-!
# The shapes of laws

A flag on a rule announces a law, and the rule has to have the shape of that law:

    reflexive     (no premises)            ⊢ R(x, x)
    symmetric     R(a, b)                  ⊢ R(b, a)
    transitive    R(a, b), R(b, c)         ⊢ R(a, c)
    function      R(a₁, b₁), …, R(aₙ, bₙ)  ⊢ R(f(a₁, …, aₙ), f(b₁, …, bₙ))

All letters except the relation and the function are variables.  The relation of a congruence law
has to be reflexive and transitive already, so the laws of relations are registered first.

Each check answers the head that the law is about, or the first thing that is wrong with the shape.
`Registry.verifyFlags` runs the checks for the flags of a rule and registers what passes.
-/

namespace Deduction

namespace Rule

/-- The relation of a reflexivity law. -/
def reflexiveLaw (rule : Rule) : Except Fault Head :=
  if !rule.premises.isEmpty then .error ⟨.reflexivityPremiseNotEmpty, some "premises"⟩
  else
    match rule.assertion.binaryVars? with
    | none => .error ⟨.reflexivityAssertionNotBinary, some "assertion"⟩
    | some (relation, left, right) =>
      if left ≠ right then .error ⟨.reflexivityArgumentMismatch, some "assertion"⟩
      else .ok relation

/-- The relation of a symmetry law. -/
def symmetricLaw (rule : Rule) : Except Fault Head :=
  match rule.premises with
  | [premise] =>
    match premise.binaryVars? with
    | none => .error ⟨.symmetryPremiseNotBinary, some "premises[0]"⟩
    | some (premiseRelation, premiseLeft, premiseRight) =>
      match rule.assertion.binaryVars? with
      | none => .error ⟨.symmetryAssertionNotBinary, some "assertion"⟩
      | some (relation, left, right) =>
        if premiseRelation ≠ relation then
          .error ⟨.symmetryRelationMismatch, some "assertion"⟩
        else if premiseLeft ≠ right ∨ premiseRight ≠ left then
          .error ⟨.symmetryArgumentMismatch, some "assertion"⟩
        else .ok relation
  | _ => .error ⟨.symmetryPremiseWrongLength, some "premises"⟩

/-- The relation of a transitivity law. -/
def transitiveLaw (rule : Rule) : Except Fault Head :=
  match rule.premises with
  | [first, second] =>
    match first.binaryVars? with
    | none => .error ⟨.transitivityFirstPremiseNotBinary, some "premises[0]"⟩
    | some (relation, firstLeft, firstRight) =>
      match second.binaryVars? with
      | none => .error ⟨.transitivitySecondPremiseNotBinary, some "premises[1]"⟩
      | some (secondRelation, secondLeft, secondRight) =>
        if relation ≠ secondRelation then
          .error ⟨.transitivityPremiseRelationMismatch, some "premises[1]"⟩
        else if firstRight ≠ secondLeft then
          .error ⟨.transitivityPremiseArgumentMismatch, some "premises[1]"⟩
        else
          match rule.assertion.binaryVars? with
          | none => .error ⟨.transitivityAssertionNotBinary, some "assertion"⟩
          | some (assertionRelation, left, right) =>
            if assertionRelation ≠ relation then
              .error ⟨.transitivityAssertionRelationMismatch, some "assertion"⟩
            else if left ≠ firstLeft then
              .error ⟨.transitivityAssertionLeftMismatch, some "assertion"⟩
            else if right ≠ secondRight then
              .error ⟨.transitivityAssertionRightMismatch, some "assertion"⟩
            else .ok relation
  | _ => .error ⟨.transitivityPremiseWrongLength, some "premises"⟩

/-- The premises of a congruence law, counted from `index`, against the inputs of the function on
the two sides of the assertion. -/
def functionPremises (relation : Head) (index : Nat) :
    List Formula → List Formula → List Formula → Except Fault Unit
  | premise :: premises, left :: lefts, right :: rights =>
    match left, right with
    | .var leftRef, .var rightRef =>
      let path := some s!"premises[{index}]"
      match premise.binaryVars? with
      | none => .error ⟨.functionPremiseNotBinary, path⟩
      | some (premiseRelation, premiseLeft, premiseRight) =>
        if premiseRelation ≠ relation then .error ⟨.functionPremiseRelationMismatch, path⟩
        else if premiseLeft ≠ leftRef then .error ⟨.functionPremiseLeftMismatch, path⟩
        else if premiseRight ≠ rightRef then .error ⟨.functionPremiseRightMismatch, path⟩
        else functionPremises relation (index + 1) premises lefts rights
    | _, _ => .error ⟨.functionAssertionInputNotVariable, some "assertion"⟩
  | _, _, _ => .ok ()

/-- The function and the relation of a congruence law. -/
def functionLaw (isPreorder : Head → Bool) (rule : Rule) : Except Fault (Head × Head) :=
  if rule.premises.isEmpty then .error ⟨.functionPremiseEmpty, some "premises"⟩
  else
    match rule.assertion.binary? with
    | none => .error ⟨.functionAssertionNotBinary, some "assertion"⟩
    | some (relation, left, right) =>
      if !isPreorder relation then .error ⟨.functionRelationNotPreorder, some "assertion"⟩
      else
        match left.application? with
        | none => .error ⟨.functionAssertionLeftNotApplication, some "assertion"⟩
        | some (function, lefts) =>
          match right.application? with
          | none => .error ⟨.functionAssertionRightNotApplication, some "assertion"⟩
          | some (rightFunction, rights) =>
            if function ≠ rightFunction then
              .error ⟨.functionAssertionFunctionMismatch, some "assertion"⟩
            else if lefts.length ≠ rights.length then
              .error ⟨.functionAssertionArityMismatch, some "assertion"⟩
            else if rule.premises.length ≠ lefts.length then
              .error ⟨.functionPremiseArityMismatch, some "premises"⟩
            else
              match functionPremises relation 0 rule.premises lefts rights with
              | .error fault => .error fault
              | .ok () => .ok (function, relation)

/-- The head and the place of the law that a flag announces. -/
def law (isPreorder : Head → Bool) (rule : Rule) : Flag → Except Fault (Head × Slot)
  | .reflexive => rule.reflexiveLaw.map (·, .reflexive)
  | .symmetric => rule.symmetricLaw.map (·, .symmetric)
  | .transitive => rule.transitiveLaw.map (·, .transitive)
  | .function => (rule.functionLaw isPreorder).map fun l => (l.1, .congruence l.2)

end Rule

/-- One fault for every flag that stands in the list before, counted from `index`. -/
def duplicateFlags (seen : List Flag) (index : Nat) : List Flag → List Fault
  | [] => []
  | flag :: flags =>
    let rest := duplicateFlags (flag :: seen) (index + 1) flags
    if flag ∈ seen then ⟨.duplicateFlag, some s!"flags[{index}]"⟩ :: rest else rest

/-- The faults of a list of flags. -/
def flagListFaults (flags : List Flag) : List Fault := duplicateFlags [] 0 flags

namespace Registry

/-- Checking the law that a flag of a rule announces, and registering it. -/
def verifyFlag (r : Registry) (ref : RuleRef) (rule : Rule) (flag : Flag) :
    List Fault × Registry :=
  match rule.law r.isPreorder flag with
  | .error fault => ([fault], r)
  | .ok (head, slot) =>
    let outcome := r.put slot head ref
    (outcome.1.fault?.toList, outcome.2)

/-- The same for flags in order. -/
def verifyEach (r : Registry) (ref : RuleRef) (rule : Rule) :
    List Flag → List Fault × Registry
  | [] => ([], r)
  | flag :: flags =>
    let first := r.verifyFlag ref rule flag
    let rest := verifyEach first.2 ref rule flags
    (first.1 ++ rest.1, rest.2)

/-- Checking and registering a rule under those of the given flags that it carries, each once. -/
def verifyFlags (r : Registry) (ref : RuleRef) (rule : Rule) (flags : List Flag) :
    List Fault × Registry :=
  r.verifyEach ref rule (flags.eraseDups.filter (· ∈ rule.flags))

end Registry

end Deduction
