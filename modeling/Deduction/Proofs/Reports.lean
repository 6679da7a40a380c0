import Deduction.Proofs.Checking
import Deduction.Proofs.FirstLaws
import Deduction.Proofs.Search
import Deduction.Proofs.Typing.Faults

/-!
# What is reported, and by which part of the checker

Some kinds of problems are about macros (`ErrorKind.isMacro`): the synthesis did not find a chain, or
a chain did not reach its goal.  They come from nowhere else.  The first phase knows nothing of
chains, and neither do steps without macro, citations and conclusions.  So whoever wants to know
whether a problem about macros can be reported has to look at macro steps only, and there at what the
synthesis answered (`Laws.Synthesizes`, `Laws.Reports`).

What a step reports depends on the facts before it, and these grow from step to step.
`Laws.forall_mem_checkSteps` carries a property of the facts along and collects what the steps
report.

* `Directory.isMacro_eq_false_of_mem_verify_errors`: the first phase.
* `Laws.mem_faults_checkStep`: one step of the second phase.
* `Laws.forall_mem_checkSteps`, `Laws.kind_ne_of_mem_checkProofAt`: whole proofs.
* `Directory.yields_check_kind_ne`: both phases.
-/

namespace Deduction

/-- The kinds of problems that are about macros. -/
def ErrorKind.isMacro : ErrorKind → Bool
  | .macroGoalNotBinary | .macroRelationNotPreorder | .macroGoalNotReached
  | .congruenceNotDecomposable | .congruenceFunctionMismatch | .congruenceArityMismatch
  | .congruenceUnregistered | .substitutionNoMiddleTerm => true
  | _ => false

theorem ErrorKind.ne_of_isMacro {kind other : ErrorKind} (h : kind.isMacro = true)
    (hother : other.isMacro = false) : other ≠ kind := by
  rintro rfl
  rw [h] at hother
  cases hother

/-! ## The first phase -/

namespace Formula

theorem NodeFault.isMacro_eq_false {D : Directory} {scope : List Variable} {limit : Option Ref}
    {node : Formula} {p : Position} {kind : ErrorKind} (h : NodeFault D scope limit node p kind) :
    kind.isMacro = false := by
  cases h <;> rfl

end Formula

theorem isMacro_eq_false_of_mem_duplicateFlags {seen flags : List Flag} {index : Nat}
    {fault : Fault} (h : fault ∈ duplicateFlags seen index flags) : fault.kind.isMacro = false := by
  induction flags generalizing seen index with
  | nil => cases h
  | cons flag flags ih =>
    rw [duplicateFlags] at h
    split at h
    · rcases List.mem_cons.mp h with rfl | h
      · rfl
      · exact ih h
    · exact ih h

theorem Flag.isMacro_eq_false_of_mem_shapeKinds {flag : Flag} {kind : ErrorKind}
    (h : kind ∈ flag.shapeKinds) : kind.isMacro = false := by
  have hall : ∀ kind ∈ flag.shapeKinds, kind.isMacro = false := by cases flag <;> decide
  exact hall kind h

namespace Directory

variable {D : Directory} {fault : Fault} {error : Error}

theorem isMacro_eq_false_of_mem_formulaFaults {scope : List Variable} {base : String}
    {limit : Option Ref} {f : Formula} (h : fault ∈ D.formulaFaults scope base limit f) :
    fault.kind.isMacro = false := by
  rw [formulaFaults, run_analyse] at h
  obtain ⟨⟨p, kind⟩, hmem, rfl⟩ := List.mem_map.mp h
  obtain ⟨q, node, r, -, hnode, -⟩ := mem_faults_iff_faultAt.mp hmem
  exact hnode.isMacro_eq_false

theorem isMacro_eq_false_of_mem_systemFaults {ref : Ref} (h : fault ∈ D.systemFaults ref) :
    fault.kind.isMacro = false := by
  rw [systemFaults] at h
  split at h
  · rw [List.mem_singleton.mp h]
    rfl
  · cases h

theorem isMacro_eq_false_of_mem_signatureFaults {s : Signature} (h : fault ∈ D.signatureFaults s) :
    fault.kind.isMacro = false := by
  obtain ⟨ref, -, rfl⟩ := List.mem_map.mp h
  rfl

theorem isMacro_eq_false_of_mem_scopeFaults {scope : List Variable}
    (h : fault ∈ D.scopeFaults scope) : fault.kind.isMacro = false := by
  obtain ⟨v, -, hv⟩ := List.mem_flatMap.mp h
  obtain ⟨found, hfound, rfl⟩ := List.mem_map.mp hv
  have hkind : found.kind.isMacro = false := isMacro_eq_false_of_mem_signatureFaults hfound
  exact hkind

theorem isMacro_eq_false_of_mem_definitionFaults {n : Nat} {d : Definition}
    (h : fault ∈ D.definitionFaults n d) : fault.kind.isMacro = false := by
  simp only [definitionFaults, List.mem_append] at h
  rcases h with (h | h) | h
  · exact isMacro_eq_false_of_mem_systemFaults h
  · exact isMacro_eq_false_of_mem_scopeFaults h
  · exact isMacro_eq_false_of_mem_formulaFaults h

theorem isMacro_eq_false_of_mem_ruleFaults {rule : Rule} (h : fault ∈ D.ruleFaults rule) :
    fault.kind.isMacro = false := by
  simp only [ruleFaults, List.mem_append] at h
  rcases h with (((h | h) | h) | h) | h
  · exact isMacro_eq_false_of_mem_systemFaults h
  · exact isMacro_eq_false_of_mem_scopeFaults h
  · obtain ⟨p, -, hp⟩ := List.mem_flatMap.mp h
    exact isMacro_eq_false_of_mem_formulaFaults hp
  · exact isMacro_eq_false_of_mem_formulaFaults h
  · exact isMacro_eq_false_of_mem_duplicateFlags h

theorem isMacro_eq_false_of_mem_declarationErrors (h : error ∈ D.declarationErrors) :
    error.kind.isMacro = false := by
  simp only [declarationErrors, List.mem_append, mem_entityErrors_iff, List.mem_flatMap,
    List.mem_map] at h
  rcases h with ((⟨n, t, -, fault, hfault, rfl⟩ | ⟨n, c, -, fault, hfault, rfl⟩) |
    ⟨n, d, -, fault, hfault, rfl⟩) | ⟨r, -, fault, hfault, rfl⟩
  · exact isMacro_eq_false_of_mem_systemFaults hfault
  · rcases hfault with hfault | hfault
    · exact isMacro_eq_false_of_mem_systemFaults hfault
    · exact isMacro_eq_false_of_mem_signatureFaults hfault
  · exact isMacro_eq_false_of_mem_definitionFaults hfault
  · exact isMacro_eq_false_of_mem_ruleFaults hfault

/-- While laws are entered, only shapes and places that are taken are reported. -/
theorem isMacro_eq_false_of_mem_ofRules (h : error ∈ (Registry.ofRules D.soundRules).1) :
    error.kind.isMacro = false := by
  rw [Registry.ofRules_fst D.nodup_soundRules] at h
  obtain ⟨⟨ref, rule, flag⟩, -, ha⟩ := List.mem_flatMap.mp h
  obtain ⟨fault, hfault, rfl⟩ := List.mem_map.mp ha
  have hkind := Registry.kind_of_report (Option.mem_toList.mp hfault)
  by_cases hqualifies : (Registry.ofRules D.soundRules).2.Qualifies rule flag
  · rw [Fault.toError, hkind.1 hqualifies]
    rfl
  · exact Flag.isMacro_eq_false_of_mem_shapeKinds (hkind.2 hqualifies)

theorem isMacro_eq_false_of_citationFault? {ref citing : Ref}
    (h : D.citationFault? ref citing = some fault) : fault.kind.isMacro = false := by
  rw [citationFault?] at h
  split at h
  · cases h
    rfl
  · split at h
    · cases h
      rfl
    · split at h
      · cases h
        rfl
      · cases h

theorem isMacro_eq_false_of_justificationFault? {count : Nat} {citing : Ref}
    {justification : Justification}
    (h : D.justificationFault? count citing justification = some fault) :
    fault.kind.isMacro = false := by
  cases justification with
  | rule ref =>
    cases ref with
    | ofAxiom ref =>
      rw [justificationFault?] at h
      split at h
      · cases h
        rfl
      · cases h
    | ofTheorem ref =>
      rw [justificationFault?] at h
      split at h
      · cases h
        rfl
      · exact isMacro_eq_false_of_citationFault? h
  | hypothesis index =>
    rw [justificationFault?] at h
    split at h
    · cases h
      rfl
    · split at h
      · cases h
        rfl
      · cases h
  | definition | functionApplication | substitution => cases h

theorem isMacro_eq_false_of_mem_stepErrors {goal : Rule} {citing : Ref} {index : Nat}
    {steps : List Step} (h : error ∈ D.stepErrors goal citing index steps) :
    error.kind.isMacro = false := by
  induction steps generalizing index with
  | nil => cases h
  | cons step steps ih =>
    rcases List.mem_append.mp h with hfirst | hrest
    · obtain ⟨fault, hfault, rfl⟩ := List.mem_map.mp hfirst
      rcases List.mem_append.mp hfault with hfault | hfault
      · exact isMacro_eq_false_of_mem_formulaFaults hfault
      · exact isMacro_eq_false_of_justificationFault? (Option.mem_toList.mp hfault)
    · exact ih hrest

/-- **The first phase reports nothing about macros.** -/
theorem isMacro_eq_false_of_mem_verify_errors (h : error ∈ D.verify.errors) :
    error.kind.isMacro = false := by
  rw [verify, List.mem_append, List.mem_append] at h
  rcases h with (h | h) | h
  · exact isMacro_eq_false_of_mem_declarationErrors h
  · exact isMacro_eq_false_of_mem_ofRules h
  · obtain ⟨p, -, hp⟩ := List.mem_flatMap.mp h
    rw [proofErrors] at hp
    split at hp
    · rw [List.mem_singleton.mp hp]
      rfl
    · exact isMacro_eq_false_of_mem_stepErrors hp

/-! ## Steps without macro -/

theorem isMacro_eq_false_of_ruleFault? {ref : RuleRef} {f : Formula} {facts : List Formula}
    (h : D.ruleFault? ref f facts = .ok (some fault)) : fault.kind.isMacro = false := by
  rw [ruleFault?] at h
  split at h
  · cases h
  · obtain ⟨required, -, h⟩ := bind_eq_ok.mp h
    split at h
    · cases h
      cases ref <;> rfl
    · obtain ⟨candidates, -, h⟩ := bind_eq_ok.mp h
      split at h
      · cases h
        cases ref <;> rfl
      · cases h

theorem isMacro_eq_false_of_elementaryFault? {premises facts : List Formula} {step : Step}
    (h : D.elementaryFault? premises facts step = .ok (some fault)) :
    fault.kind.isMacro = false := by
  rw [elementaryFault?] at h
  split at h
  · exact isMacro_eq_false_of_ruleFault? h
  · split at h
    · cases h
    · split at h
      · cases h
        rfl
      · cases h
  · obtain ⟨fits, -, h⟩ := bind_eq_ok.mp h
    split at h
    · cases h
    · cases h
      rfl
  · cases h
  · cases h

end Directory

/-! ## Macro steps -/

namespace Laws

variable {laws : Laws} {citing : Ref} {premises facts : List Formula} {goal : Formula}

/-- What is reported of a macro step for the sake of an answer: the kind that the answer gives, or
that its chain does not lead to the goal. -/
def Reports (facts : List Formula) (goal : Formula) (answer : Except ErrorKind (List Step))
    (kind : ErrorKind) : Prop :=
  answer = .error kind ∨ kind = .macroGoalNotReached ∧
    ∃ chain, answer = .ok chain ∧ goal ∉ facts ++ chain.map Step.formula

/-- The steps of a chain are checked as steps without macro. -/
theorem isMacro_eq_false_of_mem_chainFaults {index : Nat} {steps : List Step}
    {faults : List (Option Nat × Fault)}
    (h : laws.chainFaults citing premises index facts steps = .ok faults)
    {found : Option Nat × Fault} (hfound : found ∈ faults) : found.2.kind.isMacro = false := by
  induction steps generalizing index facts faults with
  | nil =>
    cases h
    cases hfound
  | cons step steps ih =>
    rw [chainFaults] at h
    obtain ⟨fault, hfault, h⟩ := bind_eq_ok.mp h
    obtain ⟨rest, hrest, h⟩ := bind_eq_ok.mp h
    cases h
    rcases List.mem_append.mp hfound with hfound | hfound
    · obtain ⟨blamed, hblamed, rfl⟩ := List.mem_map.mp hfound
      rcases List.mem_append.mp hblamed with hcited | helementary
      · rw [Option.mem_toList] at hcited
        split at hcited
        · exact Directory.isMacro_eq_false_of_citationFault? hcited
        · cases hcited
      · rw [Option.mem_toList] at helementary
        rw [helementary] at hfault
        exact Directory.isMacro_eq_false_of_elementaryFault? hfault
    · exact ih hrest hfound

theorem mem_faults_checkMacro {answer : Except ErrorKind (List Step)} {outcome : StepOutcome}
    (h : laws.checkMacro citing premises facts goal answer = .ok outcome)
    {found : Option Nat × Fault} (hfound : found ∈ outcome.faults) :
    found.2.kind.isMacro = false ∨ Reports facts goal answer found.2.kind := by
  cases answer with
  | error kind =>
    cases h
    rw [List.mem_singleton.mp hfound]
    exact Or.inr (Or.inl rfl)
  | ok chain =>
    obtain ⟨faults, hfaults, h⟩ := bind_eq_ok.mp h
    cases h
    rcases List.mem_append.mp hfound with hfound | hfound
    · exact Or.inl (isMacro_eq_false_of_mem_chainFaults hfaults hfound)
    · split at hfound
      · cases hfound
      · next hmissed =>
        rw [List.mem_singleton.mp hfound]
        exact Or.inr (Or.inr ⟨rfl, chain, rfl, hmissed⟩)

/-- **What one step reports about macros** is for the sake of what a macro answered. -/
theorem mem_faults_checkStep {step : Step} {outcome : StepOutcome}
    (h : laws.checkStep citing premises facts step = .ok outcome)
    {found : Option Nat × Fault} (hfound : found ∈ outcome.faults) :
    found.2.kind.isMacro = false ∨ ∃ answer, laws.Synthesizes facts step.formula answer ∧
      Reports facts step.formula answer found.2.kind := by
  rw [checkStep] at h
  split at h
  · exact (mem_faults_checkMacro h hfound).imp_right fun hreports =>
      ⟨_, Or.inl rfl, hreports⟩
  · obtain ⟨answer, hanswer, h⟩ := bind_eq_ok.mp h
    exact (mem_faults_checkMacro h hfound).imp_right fun hreports =>
      ⟨answer, Or.inr hanswer, hreports⟩
  · obtain ⟨fault, hfault, h⟩ := bind_eq_ok.mp h
    cases h
    cases fault with
    | none => cases hfound
    | some fault =>
      rw [List.mem_singleton.mp hfound]
      exact Or.inl (Directory.isMacro_eq_false_of_elementaryFault? hfault)

/-! ## Whole proofs -/

/-- **What the steps of a proof report**, if what is known before a step is passed on to the next
one. -/
theorem forall_mem_checkSteps {Q : ErrorKind → Prop} (Inv : List Formula → Prop) {index : Nat}
    {steps : List Step} {d : Derivation}
    (hstep : ∀ {facts : List Formula} {step : Step} {outcome : StepOutcome}, step ∈ steps →
      Inv facts → laws.checkStep citing premises facts step = .ok outcome →
      (∀ found ∈ outcome.faults, Q found.2.kind) ∧ Inv (facts ++ outcome.facts ++ [step.formula]))
    (hfacts : Inv facts) (h : laws.checkSteps citing premises index facts steps = .ok d) :
    ∀ e ∈ d.errors, Q e.kind := by
  induction steps generalizing index facts d with
  | nil =>
    cases h
    exact List.forall_mem_nil _
  | cons step steps ih =>
    rw [checkSteps] at h
    obtain ⟨outcome, houtcome, h⟩ := bind_eq_ok.mp h
    obtain ⟨rest, hrest, h⟩ := bind_eq_ok.mp h
    cases h
    obtain ⟨hkinds, hnext⟩ := hstep List.mem_cons_self hfacts houtcome
    intro e he
    rcases List.mem_append.mp he with he | he
    · obtain ⟨found, hfound, rfl⟩ := List.mem_map.mp he
      exact hkinds found hfound
    · exact ih (fun hmem => hstep (List.mem_cons_of_mem _ hmem)) hnext hrest e he

theorem isMacro_eq_false_of_mem_conclusionErrors {assertion : Formula} {steps : List Step}
    {errors : List Error} (h : laws.conclusionErrors citing assertion steps = .ok errors)
    {e : Error} (he : e ∈ errors) : e.kind.isMacro = false := by
  rw [conclusionErrors] at h
  split at h
  · cases h
    rw [List.mem_singleton.mp he]
    rfl
  · obtain ⟨fits, -, h⟩ := bind_eq_ok.mp h
    cases h
    cases fits with
    | true => cases he
    | false =>
      rw [List.mem_singleton.mp he]
      rfl

/-- What a proof reports about macros is reported by its steps. -/
theorem mem_errors_checkProofAt {ref : Ref} {d : Derivation} (h : laws.checkProofAt ref = .ok d)
    {e : Error} (he : e ∈ d.errors) :
    e.kind.isMacro = false ∨ ∃ proof goal derivation, laws.directory.proof? ref = some proof ∧
      laws.directory.rule? (.ofTheorem proof.theoremRef) = some goal ∧
      laws.checkSteps ref goal.premises 0 [] proof.steps = .ok derivation ∧
      e ∈ derivation.errors := by
  rw [checkProofAt] at h
  split at h
  · cases h
  · next proof hproof =>
    split at h
    · cases h
    · next goal hgoal =>
      obtain ⟨derivation, hsteps, h⟩ := bind_eq_ok.mp h
      obtain ⟨conclusion, hconclusion, h⟩ := bind_eq_ok.mp h
      cases h
      rcases List.mem_append.mp he with he | he
      · exact Or.inr ⟨proof, goal, derivation, hproof, hgoal, hsteps, he⟩
      · exact Or.inl (isMacro_eq_false_of_mem_conclusionErrors hconclusion he)

/-- **What a proof does not report**: a kind of problem about macros that no answer at any of its
steps gives rise to.  What is known before a step is passed on from step to step. -/
theorem kind_ne_of_mem_checkProofAt {kind : ErrorKind} (hkind : kind.isMacro = true)
    (Inv : Rule → List Formula → Prop) (hstart : ∀ goal, Inv goal []) {ref : Ref}
    (hstep : ∀ {proof : Proof} {goal : Rule} {facts : List Formula} {step : Step}
      {outcome : StepOutcome}, laws.directory.proof? ref = some proof →
      laws.directory.rule? (.ofTheorem proof.theoremRef) = some goal → step ∈ proof.steps →
      Inv goal facts → laws.checkStep ref goal.premises facts step = .ok outcome →
      (∀ answer, laws.Synthesizes facts step.formula answer →
        ¬ Reports facts step.formula answer kind) ∧
      Inv goal (facts ++ outcome.facts ++ [step.formula]))
    {d : Derivation} (h : laws.checkProofAt ref = .ok d) : ∀ e ∈ d.errors, e.kind ≠ kind := by
  intro e he
  rcases mem_errors_checkProofAt h he with hother | ⟨proof, goal, derivation, hp, hg, hsteps, he⟩
  · exact ErrorKind.ne_of_isMacro hkind hother
  · refine forall_mem_checkSteps (Q := (· ≠ kind)) (Inv goal) ?_ (hstart goal) hsteps e he
    intro facts step outcome hmem hfacts houtcome
    obtain ⟨hanswers, hnext⟩ := hstep hp hg hmem hfacts houtcome
    refine ⟨fun found hfound => ?_, hnext⟩
    rcases mem_faults_checkStep houtcome hfound with hother | ⟨answer, hanswer, hreports⟩
    · exact ErrorKind.ne_of_isMacro hkind hother
    · rintro rfl
      exact hanswers answer hanswer hreports

/-- What all proofs report is reported by one of them. -/
theorem exists_checkProofAt_of_mem {index : Nat} {proofs : List Proof}
    {r : List Error × List (Ref × Chains)} (h : laws.checkProofs index proofs = .ok r)
    {e : Error} (he : e ∈ r.1) :
    ∃ (n : Nat) (d : Derivation), laws.checkProofAt n = .ok d ∧ e ∈ d.errors := by
  induction proofs generalizing index r with
  | nil =>
    cases h
    cases he
  | cons proof proofs ih =>
    rw [checkProofs] at h
    obtain ⟨d, hd, h⟩ := bind_eq_ok.mp h
    obtain ⟨rest, hrest, h⟩ := bind_eq_ok.mp h
    cases h
    rcases List.mem_append.mp he with he | he
    · exact ⟨index, d, hd, he⟩
    · exact ih hrest he

end Laws

/-! ## Both phases -/

/-- **What checking a directory does not report**: a kind of problem about macros that no proof of a
verified directory reports. -/
theorem Directory.yields_check_kind_ne {D : Directory} {kind : ErrorKind}
    (hkind : kind.isMacro = true)
    (hproofs : D.Verified → ∀ {n : Nat} {d : Derivation},
      Laws.checkProofAt ⟨D, D.verify.registry⟩ n = .ok d → ∀ e ∈ d.errors, e.kind ≠ kind) :
    Yields D.check fun result => ∀ e ∈ result.errors, e.kind ≠ kind := by
  by_cases hD : D.verify.errors = []
  · have hverified := verify_errors_eq_nil_iff.mp hD
    obtain ⟨checked, hchecked, -⟩ := hverified.yields_checkProofs
    rw [hverified.check_eq, hchecked]
    refine .pure fun e he => ?_
    obtain ⟨n, d, hd, he⟩ := Laws.exists_checkProofAt_of_mem hchecked he
    exact hproofs hverified hd e he
  · rw [check_of_errors hD]
    exact .pure fun e he => ErrorKind.ne_of_isMacro hkind (isMacro_eq_false_of_mem_verify_errors he)

end Deduction
