import Deduction.Contract
import Deduction.Registry.Basic

/-!
# Expanding macros

A macro step asks for a relation `left ~ right` and leaves the citations to the checker.  The
relation has to be reflexive and transitive.

*Function application* takes the two sides apart.  If `left ~ right` is known there is nothing to
do.  Equal sides are related by reflexivity, and if `right ~ left` is known symmetry gives the rest.
Otherwise the sides have to be the same function of inputs that are related one by one, and the
congruence law of that function joins the pieces.

*Substitution* looks for an earlier fact `middle ~ middle'`, in order, such that `left ~ middle` and
`middle' ~ right` can be had by function application, and joins the three with two transitivity
steps.

Every step of a chain rests only on the facts and on steps before it, so a chain is checked in order
like the steps of a written proof.  No step of a chain is known when it is added.

* `Chain`: the steps so far and the formulas that are known.
* `Chain.prove`: relating two formulas by function application.
* `synthesizeFunctionApplication`, `synthesizeSubstitution`: the two macros.
-/

namespace Deduction

/-- Where laws and rules are looked up. -/
structure Laws where
  directory : Directory
  registry : Registry

/-- The steps synthesized so far and every formula that is known. -/
structure Chain where
  known : List Formula
  steps : List Step := []

namespace Chain

/-- A step that cites a rule for a formula, unless the formula is known. -/
def emit (chain : Chain) (rule : RuleRef) (f : Formula) : Chain :=
  if f ∈ chain.known then chain
  else ⟨f :: chain.known, chain.steps ++ [⟨.rule rule, f⟩]⟩

@[simp] theorem mem_known_emit_self (chain : Chain) (rule : RuleRef) (f : Formula) :
    f ∈ (chain.emit rule f).known := by
  unfold emit
  split
  · assumption
  · exact List.mem_cons_self

theorem mem_known_emit {chain : Chain} {g : Formula} (h : g ∈ chain.known) (rule : RuleRef)
    (f : Formula) : g ∈ (chain.emit rule f).known := by
  unfold emit
  split
  · exact h
  · exact List.mem_cons_of_mem _ h

end Chain

namespace Laws

/-- The congruence law that relates two formulas as soon as their inputs are related, or why there
is none. -/
def congruenceFor (laws : Laws) (relation : Head) (left right : Formula) :
    Except ErrorKind RuleRef :=
  match left.spine?, right.spine? with
  | some (function, lefts), some (rightFunction, rights) =>
    if function ≠ rightFunction then .error .congruenceFunctionMismatch
    else if lefts.length ≠ rights.length then .error .congruenceArityMismatch
    else
      match laws.registry.congruence? function relation with
      | none => .error .congruenceUnregistered
      | some law =>
        match laws.directory.rule? law with
        | none => .error .congruenceArityMismatch
        | some rule =>
          if rule.premises.length ≠ lefts.length then .error .congruenceArityMismatch
          else .ok law
  | _, _ => .error .congruenceNotDecomposable

/-- What needs no decomposition: the chain that relates the two sides, if one of the first three
cases applies. -/
def direct? (laws : Laws) (relation : Head) (left right : Formula) (chain : Chain) :
    Option Chain :=
  let goal := relation.apply [left, right]
  if goal ∈ chain.known then some chain
  else
    match decide (left = right), laws.registry.reflexivity? relation with
    | true, some law => some (chain.emit law goal)
    | _, _ =>
      match laws.registry.symmetry? relation with
      | some law =>
        if relation.apply [right, left] ∈ chain.known then some (chain.emit law goal) else none
      | none => none

end Laws

namespace Chain

mutual

/-- Extending a chain until two formulas are related. -/
def prove (laws : Laws) (relation : Head) : Formula → Formula → Chain → Except ErrorKind Chain
  | .app f x, right, chain =>
    match laws.direct? relation (.app f x) right chain with
    | some chain => .ok chain
    | none => do
      let law ← laws.congruenceFor relation (.app f x) right
      let chain ←
        match right with
        | .app g y => do
          let chain ← proveArguments laws relation f g chain
          prove laws relation x y chain
        | _ => .ok chain
      return chain.emit law (relation.apply [.app f x, right])
  | .definition ref inputs, right, chain =>
    match laws.direct? relation (.definition ref inputs) right chain with
    | some chain => .ok chain
    | none => do
      let law ← laws.congruenceFor relation (.definition ref inputs) right
      let chain ←
        match right with
        | .definition _ others => proveAll laws relation inputs others chain
        | _ => .ok chain
      return chain.emit law (relation.apply [.definition ref inputs, right])
  | left, right, chain =>
    match laws.direct? relation left right chain with
    | some chain => .ok chain
    | none => do
      let law ← laws.congruenceFor relation left right
      return chain.emit law (relation.apply [left, right])

/-- Relating the arguments that two functions are applied to, the first one first. -/
def proveArguments (laws : Laws) (relation : Head) :
    Formula → Formula → Chain → Except ErrorKind Chain
  | .app f x, .app g y, chain => do
    let chain ← proveArguments laws relation f g chain
    prove laws relation x y chain
  | _, _, chain => .ok chain

/-- Relating the inputs of two definitions, the first ones first. -/
def proveAll (laws : Laws) (relation : Head) :
    List Formula → List Formula → Chain → Except ErrorKind Chain
  | x :: xs, y :: ys, chain => do
    let chain ← prove laws relation x y chain
    proveAll laws relation xs ys chain
  | _, _, chain => .ok chain

end

end Chain

/-- The relation that a macro is asked for, which is reflexive and transitive. -/
structure MacroGoal where
  relation : Head
  left : Formula
  right : Formula

/-- What a macro is asked for, or why it cannot be. -/
def macroGoal (laws : Laws) (goal : Formula) : Except ErrorKind MacroGoal :=
  match goal.binary? with
  | none => .error .macroGoalNotBinary
  | some (relation, left, right) =>
    if laws.registry.isPreorder relation then .ok ⟨relation, left, right⟩
    else .error .macroRelationNotPreorder

/-- The steps that relate the two sides of a goal by function application. -/
def synthesizeFunctionApplication (laws : Laws) (facts : List Formula) (goal : Formula) :
    Except ErrorKind (List Step) := do
  let asked ← macroGoal laws goal
  let chain ← Chain.prove laws asked.relation asked.left asked.right ⟨facts, []⟩
  return chain.steps

/-- The steps that reach a goal through a fact that relates the middle terms. -/
def throughMiddle (laws : Laws) (facts : List Formula) (goal : Formula) (asked : MacroGoal)
    (transitivity : RuleRef) (middleLeft middleRight : Formula) :
    Except ErrorKind (List Step) := do
  let chain ← Chain.prove laws asked.relation asked.left middleLeft ⟨facts, []⟩
  let chain ← Chain.prove laws asked.relation middleRight asked.right chain
  let chain := chain.emit transitivity (asked.relation.apply [asked.left, middleRight])
  return (chain.emit transitivity goal).steps

/-- The steps through the first candidate that works. -/
def firstMiddle (laws : Laws) (facts : List Formula) (goal : Formula) (asked : MacroGoal)
    (transitivity : RuleRef) : List Formula → Except ErrorKind (List Step)
  | [] => .error .substitutionNoMiddleTerm
  | candidate :: candidates =>
    match candidate.binary? with
    | some (relation, middleLeft, middleRight) =>
      if relation ≠ asked.relation then firstMiddle laws facts goal asked transitivity candidates
      else
        match throughMiddle laws facts goal asked transitivity middleLeft middleRight with
        | .ok steps => .ok steps
        | .error _ => firstMiddle laws facts goal asked transitivity candidates
    | none => firstMiddle laws facts goal asked transitivity candidates

/-- The steps that reach a goal by replacing both sides of an earlier fact.  A relation that is
known to be transitive has a law that says so, and without one there is nothing to join the sides
with. -/
def synthesizeSubstitution (laws : Laws) (facts : List Formula) (goal : Formula) :
    Except ContractError (Except ErrorKind (List Step)) :=
  match macroGoal laws goal with
  | .error kind => .ok (.error kind)
  | .ok asked =>
    match laws.registry.transitivity? asked.relation with
    | none => .error (.notTransitive asked.relation)
    | some transitivity => .ok (firstMiddle laws facts goal asked transitivity facts)

end Deduction
