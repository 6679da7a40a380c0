import Deduction.Log
import Deduction.Proof.Derivation
import Deduction.Registry.Laws

/-!
# Checking a directory

A directory is checked in two phases.

The first one verifies the structure and collects every problem of every declaration: references
that do not resolve, formulas that are not well typed, flags on rules that do not have the shape of
a law, citations of theorems that are not proved yet.  Rules without problems of their own enter
their laws into the registry.  A congruence law needs its relation to be reflexive and transitive
already, so the laws of relations of all rules are entered before any law of a function.

The second phase runs only if the first one found nothing, and checks the derivations.

* `Directory.verify`: the first phase.
* `Directory.check`: both phases.
-/

namespace Deduction

/-- The subject of errors about a rule. -/
def RuleRef.subject : RuleRef → Subject
  | .ofAxiom ref => ⟨.ofAxiom, ref, none, none⟩
  | .ofTheorem ref => ⟨.ofTheorem, ref, none, none⟩

/-! ## Structure -/

/-- What the first phase found. -/
structure Verification where
  errors : List Error
  registry : Registry
  definitionSignatures : List (Option Signature)
  deriving DecidableEq, Repr

/-- The errors of the entities of a list, which are all of one kind. -/
def entityErrors {α : Type} (kind : SubjectKind) (faults : Nat → α → List Fault)
    (entities : List α) : List Error :=
  entities.zipIdx.flatMap fun e =>
    (faults e.2 e.1).map (Fault.toError .verify ⟨kind, e.2, none, none⟩)

namespace Directory

variable (D : Directory)

/-- The faults of a definition at a position.  Its expansion may use only what is declared before
it. -/
def definitionFaults (index : Nat) (d : Definition) : List Fault :=
  D.systemFaults d.system ++ D.scopeFaults d.inputs ++
    D.formulaFaults d.inputs "expansion" (some index) d.expansion

/-- The faults of the premises of a rule. -/
def premiseFaults (rule : Rule) : List Fault :=
  rule.premises.zipIdx.flatMap fun p =>
    D.formulaFaults rule.scope s!"premises[{p.2}]" none p.1

/-- The faults of a rule on its own. -/
def ruleFaults (rule : Rule) : List Fault :=
  D.systemFaults rule.system ++ D.scopeFaults rule.scope ++ D.premiseFaults rule ++
    D.formulaFaults rule.scope "assertion" none rule.assertion ++ flagListFaults rule.flags

/-- The rules without faults of their own, which are the ones whose laws are entered. -/
def soundRules : List (RuleRef × Rule) := D.rules.filter fun r => (D.ruleFaults r.2).isEmpty

end Directory

namespace Registry

/-- Entering the laws that rules announce by the given flags. -/
def enterLaws (flags : List Flag) (r : Registry) :
    List (RuleRef × Rule) → List Error × Registry
  | [] => ([], r)
  | (ref, rule) :: rules =>
    let entered := r.verifyFlags ref rule flags
    let rest := enterLaws flags entered.2 rules
    (entered.1.map (Fault.toError .verify ref.subject) ++ rest.1, rest.2)

/-- Entering all laws: those of relations, then those of functions. -/
def ofRules (rules : List (RuleRef × Rule)) : List Error × Registry :=
  let relations := enterLaws [.reflexive, .symmetric, .transitive] {} rules
  let functions := enterLaws [.function] relations.2 rules
  (relations.1 ++ functions.1, functions.2)

end Registry

namespace Directory

variable (D : Directory)

/-- The errors of the declarations on their own. -/
def declarationErrors : List Error :=
  entityErrors .type (fun _ t => D.systemFaults t.system) D.types ++
    entityErrors .symbol (fun _ s => D.systemFaults s.system ++ D.signatureFaults s.signature)
      D.symbols ++
    entityErrors .definition D.definitionFaults D.definitions ++
    D.rules.flatMap fun r => (D.ruleFaults r.2).map (Fault.toError .verify r.1.subject)

/-- The errors in the parts of all proofs. -/
def allProofErrors : List Error :=
  D.proofs.zipIdx.flatMap fun p => D.proofErrors p.2 p.1

/-- The signature that each definition declares. -/
def definitionSignatures : List (Option Signature) :=
  (List.range D.definitions.length).map fun (index : Nat) =>
    ((D.definitionSignature index).run {}).1

/-- The first phase. -/
def verify : Verification :=
  let laws := Registry.ofRules D.soundRules
  ⟨D.declarationErrors ++ laws.1 ++ D.allProofErrors, laws.2, D.definitionSignatures⟩

end Directory

/-! ## Both phases -/

/-- What checking a directory found. -/
structure CheckResult where
  errors : List Error
  phase : Phase
  registry : Registry := {}
  chains : List (Ref × Chains) := []
  deriving DecidableEq, Repr

namespace CheckResult

/-- A directory without errors. -/
def isValid (result : CheckResult) : Bool := result.errors.isEmpty

/-- The errors about one kind of entity. -/
def errorsFor (result : CheckResult) (kind : SubjectKind) : List Error :=
  result.errors.filter fun e => e.subject.kind = kind

/-- What is noted of a result on so many proofs. -/
def logEntry (result : CheckResult) (proofCount : Nat) : LogEntry :=
  let count := result.errors.length
  match result.phase, result.isValid with
  | .verify, _ =>
    ⟨.warning, s!"Structural verification failed with {count} error(s); skipping proofs"⟩
  | .check, false => ⟨.warning, s!"Derivation check failed with {count} error(s)"⟩
  | .check, true => ⟨.info, s!"All {proofCount} proof(s) valid"⟩

end CheckResult

namespace Laws

variable (laws : Laws)

/-- Checking proofs, counted from `index`.  Proofs for which nothing was synthesized have no
chains. -/
def checkProofs (index : Nat) : List Proof → Except ContractError (List Error × List (Ref × Chains))
  | [] => .ok ([], [])
  | _ :: proofs => do
    let derivation ← laws.checkProofAt index
    let rest ← checkProofs (index + 1) proofs
    let chains := if derivation.chains.isEmpty then [] else [((index : Int), derivation.chains)]
    return (derivation.errors ++ rest.1, chains ++ rest.2)

end Laws

namespace Directory

/-- Both phases. -/
def check (D : Directory) : Except ContractError CheckResult :=
  let verification := D.verify
  if !verification.errors.isEmpty then
    .ok ⟨verification.errors, .verify, verification.registry, []⟩
  else do
    let checked ← Laws.checkProofs ⟨D, verification.registry⟩ 0 D.proofs
    return ⟨checked.1, .check, verification.registry, checked.2⟩

end Directory

end Deduction
