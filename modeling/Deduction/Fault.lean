import Deduction.Ref

/-!
# Faults and errors

The routines that find a problem do not know which declaration or proof step they work for.  They
answer plain `Fault`s, a kind and a path inside the entity, and whoever called them turns a fault
into an `Error` by saying which `Subject` it is about and in which `Phase` it was found.
`Diagnostics` collects the errors of one phase in the order in which they are found.
-/

namespace Deduction

/-- The kinds of problems. -/
inductive ErrorKind where
  | invalidSystemRef
  | invalidTypeRef
  | invalidSymbolRef
  | invalidVariableRef
  | invalidDefinitionRef
  | invalidAxiomRef
  | invalidTheoremRef
  | definitionWrongArity
  | definitionForwardReference
  | definitionInputTypeMismatch
  | applicationNotFunction
  | applicationTypeMismatch
  | hypothesisZeroIndex
  | hypothesisIndexOutOfRange
  | theoremUnproven
  | theoremUsedBeforeProof
  | theoremCircularProof
  | duplicateFlag
  | duplicateProperty
  | reflexivityPremiseNotEmpty
  | reflexivityAssertionNotBinary
  | reflexivityArgumentMismatch
  | symmetryPremiseWrongLength
  | symmetryPremiseNotBinary
  | symmetryAssertionNotBinary
  | symmetryRelationMismatch
  | symmetryArgumentMismatch
  | transitivityPremiseWrongLength
  | transitivityFirstPremiseNotBinary
  | transitivitySecondPremiseNotBinary
  | transitivityPremiseRelationMismatch
  | transitivityPremiseArgumentMismatch
  | transitivityAssertionNotBinary
  | transitivityAssertionRelationMismatch
  | transitivityAssertionLeftMismatch
  | transitivityAssertionRightMismatch
  | functionPremiseEmpty
  | functionAssertionNotBinary
  | functionRelationNotPreorder
  | functionAssertionLeftNotApplication
  | functionAssertionRightNotApplication
  | functionAssertionFunctionMismatch
  | functionAssertionArityMismatch
  | functionPremiseArityMismatch
  | functionAssertionInputNotVariable
  | functionPremiseNotBinary
  | functionPremiseRelationMismatch
  | functionPremiseLeftMismatch
  | functionPremiseRightMismatch
  | axiomAssertionNotSubstitutable
  | axiomNotSubstitutable
  | theoremAssertionNotSubstitutable
  | theoremNotSubstitutable
  | hypothesisMismatch
  | definitionMismatch
  | macroGoalNotBinary
  | macroRelationNotPreorder
  | macroGoalNotReached
  | congruenceNotDecomposable
  | congruenceFunctionMismatch
  | congruenceArityMismatch
  | congruenceUnregistered
  | substitutionNoMiddleTerm
  | emptyProof
  | assertionMismatch
  deriving DecidableEq, Repr

namespace ErrorKind

/-- All kinds. -/
def all : List ErrorKind :=
  [.invalidSystemRef, .invalidTypeRef, .invalidSymbolRef, .invalidVariableRef,
   .invalidDefinitionRef, .invalidAxiomRef, .invalidTheoremRef, .definitionWrongArity,
   .definitionForwardReference, .definitionInputTypeMismatch, .applicationNotFunction,
   .applicationTypeMismatch, .hypothesisZeroIndex, .hypothesisIndexOutOfRange, .theoremUnproven,
   .theoremUsedBeforeProof, .theoremCircularProof, .duplicateFlag, .duplicateProperty,
   .reflexivityPremiseNotEmpty, .reflexivityAssertionNotBinary, .reflexivityArgumentMismatch,
   .symmetryPremiseWrongLength, .symmetryPremiseNotBinary, .symmetryAssertionNotBinary,
   .symmetryRelationMismatch, .symmetryArgumentMismatch, .transitivityPremiseWrongLength,
   .transitivityFirstPremiseNotBinary, .transitivitySecondPremiseNotBinary,
   .transitivityPremiseRelationMismatch, .transitivityPremiseArgumentMismatch,
   .transitivityAssertionNotBinary, .transitivityAssertionRelationMismatch,
   .transitivityAssertionLeftMismatch, .transitivityAssertionRightMismatch, .functionPremiseEmpty,
   .functionAssertionNotBinary, .functionRelationNotPreorder,
   .functionAssertionLeftNotApplication, .functionAssertionRightNotApplication,
   .functionAssertionFunctionMismatch, .functionAssertionArityMismatch,
   .functionPremiseArityMismatch, .functionAssertionInputNotVariable, .functionPremiseNotBinary,
   .functionPremiseRelationMismatch, .functionPremiseLeftMismatch, .functionPremiseRightMismatch,
   .axiomAssertionNotSubstitutable, .axiomNotSubstitutable, .theoremAssertionNotSubstitutable,
   .theoremNotSubstitutable, .hypothesisMismatch, .definitionMismatch, .macroGoalNotBinary,
   .macroRelationNotPreorder, .macroGoalNotReached, .congruenceNotDecomposable,
   .congruenceFunctionMismatch, .congruenceArityMismatch, .congruenceUnregistered,
   .substitutionNoMiddleTerm, .emptyProof, .assertionMismatch]

/-- The word for a kind. -/
def name : ErrorKind → String
  | .invalidSystemRef => "invalid_system_ref"
  | .invalidTypeRef => "invalid_type_ref"
  | .invalidSymbolRef => "invalid_symbol_ref"
  | .invalidVariableRef => "invalid_variable_ref"
  | .invalidDefinitionRef => "invalid_definition_ref"
  | .invalidAxiomRef => "invalid_axiom_ref"
  | .invalidTheoremRef => "invalid_theorem_ref"
  | .definitionWrongArity => "definition_wrong_arity"
  | .definitionForwardReference => "definition_forward_reference"
  | .definitionInputTypeMismatch => "definition_input_type_mismatch"
  | .applicationNotFunction => "application_not_function"
  | .applicationTypeMismatch => "application_type_mismatch"
  | .hypothesisZeroIndex => "hypothesis_zero_index"
  | .hypothesisIndexOutOfRange => "hypothesis_index_out_of_range"
  | .theoremUnproven => "theorem_unproven"
  | .theoremUsedBeforeProof => "theorem_used_before_proof"
  | .theoremCircularProof => "theorem_circular_proof"
  | .duplicateFlag => "duplicate_flag"
  | .duplicateProperty => "duplicate_property"
  | .reflexivityPremiseNotEmpty => "reflexivity_premise_not_empty"
  | .reflexivityAssertionNotBinary => "reflexivity_assertion_not_binary"
  | .reflexivityArgumentMismatch => "reflexivity_argument_mismatch"
  | .symmetryPremiseWrongLength => "symmetry_premise_wrong_length"
  | .symmetryPremiseNotBinary => "symmetry_premise_not_binary"
  | .symmetryAssertionNotBinary => "symmetry_assertion_not_binary"
  | .symmetryRelationMismatch => "symmetry_relation_mismatch"
  | .symmetryArgumentMismatch => "symmetry_argument_mismatch"
  | .transitivityPremiseWrongLength => "transitivity_premise_wrong_length"
  | .transitivityFirstPremiseNotBinary => "transitivity_first_premise_not_binary"
  | .transitivitySecondPremiseNotBinary => "transitivity_second_premise_not_binary"
  | .transitivityPremiseRelationMismatch => "transitivity_premise_relation_mismatch"
  | .transitivityPremiseArgumentMismatch => "transitivity_premise_argument_mismatch"
  | .transitivityAssertionNotBinary => "transitivity_assertion_not_binary"
  | .transitivityAssertionRelationMismatch => "transitivity_assertion_relation_mismatch"
  | .transitivityAssertionLeftMismatch => "transitivity_assertion_left_mismatch"
  | .transitivityAssertionRightMismatch => "transitivity_assertion_right_mismatch"
  | .functionPremiseEmpty => "function_premise_empty"
  | .functionAssertionNotBinary => "function_assertion_not_binary"
  | .functionRelationNotPreorder => "function_relation_not_preorder"
  | .functionAssertionLeftNotApplication => "function_assertion_left_not_application"
  | .functionAssertionRightNotApplication => "function_assertion_right_not_application"
  | .functionAssertionFunctionMismatch => "function_assertion_function_mismatch"
  | .functionAssertionArityMismatch => "function_assertion_arity_mismatch"
  | .functionPremiseArityMismatch => "function_premise_arity_mismatch"
  | .functionAssertionInputNotVariable => "function_assertion_input_not_variable"
  | .functionPremiseNotBinary => "function_premise_not_binary"
  | .functionPremiseRelationMismatch => "function_premise_relation_mismatch"
  | .functionPremiseLeftMismatch => "function_premise_left_mismatch"
  | .functionPremiseRightMismatch => "function_premise_right_mismatch"
  | .axiomAssertionNotSubstitutable => "axiom_assertion_not_substitutable"
  | .axiomNotSubstitutable => "axiom_not_substitutable"
  | .theoremAssertionNotSubstitutable => "theorem_assertion_not_substitutable"
  | .theoremNotSubstitutable => "theorem_not_substitutable"
  | .hypothesisMismatch => "hypothesis_mismatch"
  | .definitionMismatch => "definition_mismatch"
  | .macroGoalNotBinary => "macro_goal_not_binary"
  | .macroRelationNotPreorder => "macro_relation_not_preorder"
  | .macroGoalNotReached => "macro_goal_not_reached"
  | .congruenceNotDecomposable => "congruence_not_decomposable"
  | .congruenceFunctionMismatch => "congruence_function_mismatch"
  | .congruenceArityMismatch => "congruence_arity_mismatch"
  | .congruenceUnregistered => "congruence_unregistered"
  | .substitutionNoMiddleTerm => "substitution_no_middle_term"
  | .emptyProof => "empty_proof"
  | .assertionMismatch => "assertion_mismatch"

/-- The kind of a word. -/
def ofName? (s : String) : Option ErrorKind := all.find? fun k => k.name == s

end ErrorKind

/-- A problem that is not yet attached to an entity. -/
structure Fault where
  kind : ErrorKind
  path : Option String := none
  deriving DecidableEq, Repr

/-- The two phases of checking. -/
inductive Phase where
  | verify
  | check
  deriving DecidableEq, Repr

namespace Phase

/-- The word for a phase. -/
def name : Phase → String
  | .verify => "verify"
  | .check => "check"

/-- The phase of a word. -/
def ofName? (s : String) : Option Phase := [Phase.verify, .check].find? fun p => p.name == s

end Phase

/-- The kinds of entities that errors are about. -/
inductive SubjectKind where
  | type
  | symbol
  | definition
  | ofAxiom
  | ofTheorem
  | proof
  deriving DecidableEq, Repr

namespace SubjectKind

/-- All kinds. -/
def all : List SubjectKind := [.type, .symbol, .definition, .ofAxiom, .ofTheorem, .proof]

/-- The word for a kind. -/
def name : SubjectKind → String
  | .type => "type"
  | .symbol => "symbol"
  | .definition => "definition"
  | .ofAxiom => "axiom"
  | .ofTheorem => "theorem"
  | .proof => "proof"

/-- The kind of a word. -/
def ofName? (s : String) : Option SubjectKind := all.find? fun k => k.name == s

end SubjectKind

/-- What an error is about: an entity, for a proof also one of its steps, and for a macro step also
one of the steps synthesized for it.  Both are counted from zero. -/
structure Subject where
  kind : SubjectKind
  index : Ref
  step : Option Int := none
  substep : Option Int := none
  deriving DecidableEq, Repr

namespace Subject

/-- The same entity at another place: a step, and for a macro step one of those synthesized for
it. -/
def atStep (s : Subject) (step substep : Option Int) : Subject :=
  { s with step, substep }

/-- How a message names a subject; steps are counted from one there. -/
def describe (s : Subject) : String :=
  let entity := s!"{s.kind.name} #{s.index}"
  let step := s.step.elim "" fun i => s!" step {i + 1}"
  let substep := s.substep.elim "" fun i => s!" (synthesized {i + 1})"
  entity ++ step ++ substep

end Subject

/-- A problem of a document. -/
structure Error where
  subject : Subject
  kind : ErrorKind
  phase : Phase
  path : Option String := none
  deriving DecidableEq, Repr

/-- The error that a fault of a subject is. -/
def Fault.toError (phase : Phase) (subject : Subject) (fault : Fault) : Error :=
  ⟨subject, fault.kind, phase, fault.path⟩

/-- The errors of one phase, in the order in which they were found. -/
structure Diagnostics where
  phase : Phase
  errors : List Error := []
  deriving DecidableEq, Repr

namespace Diagnostics

/-- Whether there is an error. -/
def found (d : Diagnostics) : Bool := !d.errors.isEmpty

/-- Adding the faults of a subject. -/
def reportAll (d : Diagnostics) (subject : Subject) (faults : List Fault) : Diagnostics :=
  { d with errors := d.errors ++ faults.map (Fault.toError d.phase subject) }

/-- Adding one fault of a subject. -/
def report (d : Diagnostics) (subject : Subject) (fault : Fault) : Diagnostics :=
  d.reportAll subject [fault]

@[simp] theorem reportAll_nil (d : Diagnostics) (subject : Subject) :
    d.reportAll subject [] = d := by
  simp [reportAll]

@[simp] theorem errors_report (d : Diagnostics) (subject : Subject) (fault : Fault) :
    (d.report subject fault).errors = d.errors ++ [fault.toError d.phase subject] := rfl

end Diagnostics

end Deduction
