import Deduction.Proofs.Extension
import Deduction.Proofs.Renaming
import Deduction.Proofs.Soundness

/-!
# Appending to a valid directory

Declarations and proofs may be appended to a valid directory without any effect on what is there.
What is appended may be wrong in every way, and then errors are reported, but all of them are about
what was appended.  The laws stay the same as long as the new rules carry no flags, and for the old
proofs the same steps are synthesized.

## What has to be seen for this

1.  *Everything established stays so.*  The longer directory extends the shorter one
    (`Proofs.Extension`).  In particular a proof that is appended cannot become the first proof of a
    theorem that has one.
2.  *The registry is the same.*  New axioms stand between the old axioms and the old theorems, but
    rules without flags announce nothing, so the announcements are the old ones in the old order.
3.  *Synthesis does the same.*  It looks at the registry, and at a rule only to see how many premises
    a congruence law has; such a law is an old rule.
4.  *Checking finds the same.*  A step of an old proof was checked without fault.  Then it is
    justified, it still is in the longer directory, and there too this means that it is checked
    without fault.  Nothing of this kind is true of steps with faults: a citation of a theorem without
    proof may turn into one before its proof.

* `Directory.append`, `Directory.Owns`: what is appended, and which errors are about what was there.
* `Directory.Verified.not_owns_of_mem_errors`: the first phase.
* `Laws.Extended.checkStep`, `Directory.Verified.checkProofs_append`: the second phase.
* `Directory.check_append`: both.
-/

namespace Deduction

/-! ## Appending -/

theorem itemAt?_append {α : Type} {items : List α} {ref : Ref} {a : α}
    (h : itemAt? items ref = some a) (more : List α) : itemAt? (items ++ more) ref = some a := by
  obtain ⟨n, rfl, hn⟩ := itemAt?_eq_some_iff.mp h
  rw [itemAt?_ofNat, List.getElem?_append_left (List.getElem?_eq_some_iff.mp hn).1]
  exact hn

namespace Directory

/-- A directory with the declarations and the proofs of another one at the ends of its own.  The
references in what is appended are read in the whole. -/
def append (D E : Directory) : Directory where
  systems := D.systems ++ E.systems
  types := D.types ++ E.types
  symbols := D.symbols ++ E.symbols
  definitions := D.definitions ++ E.definitions
  axioms := D.axioms ++ E.axioms
  theorems := D.theorems ++ E.theorems
  proofs := D.proofs ++ E.proofs

/-- How many entities of a kind there are. -/
def count (D : Directory) : SubjectKind → Nat
  | .type => D.types.length
  | .symbol => D.symbols.length
  | .definition => D.definitions.length
  | .ofAxiom => D.axioms.length
  | .ofTheorem => D.theorems.length
  | .proof => D.proofs.length

/-- An error with this subject is about an entity of the directory. -/
def Owns (D : Directory) (subject : Subject) : Prop :=
  ∃ n : Nat, subject.index = n ∧ n < D.count subject.kind

variable {D E : Directory}

theorem extends_append (D E : Directory) : D.Extends (D.append E) where
  system? := fun hs => itemAt?_append hs E.systems
  type? := fun ht => itemAt?_append ht E.types
  symbol? := fun hc => itemAt?_append hc E.symbols
  definition? := fun hd => itemAt?_append hd E.definitions
  rule? := by
    intro ref rule hrule
    cases ref with
    | ofAxiom ref => exact itemAt?_append hrule E.axioms
    | ofTheorem ref => exact itemAt?_append hrule E.theorems
  firstProof? := by
    intro ref first hfirst
    rw [firstProof?] at hfirst ⊢
    rw [append, List.findIdx?_append, hfirst, Option.some_or]

/-! ## The registry -/

/-- Rules without flags announce nothing. -/
theorem announcements_filter (flags : List Flag) (rules : List (RuleRef × Rule)) :
    Registry.announcements flags (rules.filter fun e => !e.2.flags.isEmpty) =
      Registry.announcements flags rules := by
  induction rules with
  | nil => rfl
  | cons e rules ih =>
    simp only [Registry.announcements] at ih ⊢
    by_cases hflags : e.2.flags = []
    · rw [List.filter_cons_of_neg (by simp [hflags]), ih, List.flatMap_cons, hflags]
      simp
    · rw [List.filter_cons_of_pos (by simpa using hflags), List.flatMap_cons, ih, List.flatMap_cons]

theorem filter_rules_append (hflags : ∀ rule ∈ E.axioms ++ E.theorems, rule.flags = []) :
    ((D.append E).rules.filter fun e => !e.2.flags.isEmpty) =
      D.rules.filter fun e => !e.2.flags.isEmpty := by
  have happend : ∀ (old new : List Rule) (f : Nat → RuleRef), (∀ rule ∈ new, rule.flags = []) →
      (((old ++ new).zipIdx.map fun r => (f r.2, r.1)).filter fun e => !e.2.flags.isEmpty) =
        (old.zipIdx.map fun r => (f r.2, r.1)).filter fun e => !e.2.flags.isEmpty := by
    intro old new f hnew
    rw [List.zipIdx_append, List.map_append, List.filter_append, List.append_right_eq_self,
      List.filter_eq_nil_iff]
    intro e he
    obtain ⟨r, hr, rfl⟩ := List.mem_map.mp he
    simp [hnew r.1 (List.fst_mem_of_mem_zipIdx hr)]
  rw [List.forall_mem_append] at hflags
  rw [rules, rules, List.filter_append, List.filter_append]
  exact congrArg₂ (· ++ ·) (happend D.axioms E.axioms (fun n => .ofAxiom n) hflags.1)
    (happend D.theorems E.theorems (fun n => .ofTheorem n) hflags.2)

/-- **The registry of the longer directory is that of the old rules.** -/
theorem ofRules_append (hrules : ∀ r ∈ D.rules, (D.append E).ruleFaults r.2 = [])
    (hflags : ∀ rule ∈ E.axioms ++ E.theorems, rule.flags = []) :
    Registry.ofRules (D.append E).soundRules = Registry.ofRules D.rules := by
  have hflagged : ((D.append E).soundRules.filter fun e => !e.2.flags.isEmpty) =
      D.rules.filter fun e => !e.2.flags.isEmpty := by
    rw [soundRules, List.filter_comm, filter_rules_append hflags, List.filter_eq_self]
    intro r hr
    rw [hrules r (List.mem_filter.mp hr).1]
    rfl
  have hsame : ∀ flags, Registry.announcements flags (D.append E).soundRules =
      Registry.announcements flags D.rules := by
    intro flags
    rw [← announcements_filter, hflagged, announcements_filter]
  rw [Registry.ofRules_eq_enterEach, Registry.ofRules_eq_enterEach, Registry.allAnnouncements,
    Registry.allAnnouncements, hsame, hsame]

/-! ## The first phase -/

theorem not_owns_of_mem_entityErrors {α : Type} {kind : SubjectKind}
    {faults : Nat → α → List Fault} {old new : List α} (hcount : D.count kind = old.length)
    (hold : ∀ n a, old[n]? = some a → faults n a = []) {e : Error}
    (he : e ∈ entityErrors kind faults (old ++ new)) : ¬ D.Owns e.subject := by
  obtain ⟨n, a, ha, fault, hfault, rfl⟩ := mem_entityErrors_iff.mp he
  rintro ⟨m, hm, hlt⟩
  have hmn : n = m := Int.ofNat.inj hm
  have hn : n < old.length := by
    rw [← hcount, hmn]
    exact hlt
  rw [List.getElem?_append_left hn] at ha
  rw [hold n a ha] at hfault
  cases hfault

/-- A rule is an entity of the directory if its reference resolves. -/
theorem exists_rule?_of_owns {ref : RuleRef} (h : D.Owns ref.subject) :
    ∃ rule, D.rule? ref = some rule := by
  obtain ⟨n, hn, hlt⟩ := h
  cases ref with
  | ofAxiom index =>
    have hindex : index = n := hn
    exact ⟨D.axioms[n], by rw [hindex]; exact List.getElem?_eq_getElem hlt⟩
  | ofTheorem index =>
    have hindex : index = n := hn
    exact ⟨D.theorems[n], by rw [hindex]; exact List.getElem?_eq_getElem hlt⟩

namespace Verified

variable (hD : D.Verified)

include hD

/-- Nothing is wrong with an old definition. -/
theorem definitionFaults_append {n : Nat} {d : Definition} (hd : D.definitions[n]? = some d) :
    (D.append E).definitionFaults n d = [] := by
  have h := extends_append D E
  obtain ⟨hsystem, hscope⟩ := hD.declared.definitions d (List.mem_of_getElem? hd)
  obtain ⟨s, hs⟩ := hD.typed n d hd
  rw [definitionFaults_eq_nil_iff]
  exact ⟨⟨h.systemFaults hsystem, h.scopeFaults hscope⟩,
    formulaFaults_eq_nil_of_hasSignature (h.hasSignature hs) _⟩

/-- Nothing is wrong with an old rule. -/
theorem ruleFaults_append {ref : RuleRef} {rule : Rule} (hrule : D.rule? ref = some rule) :
    (D.append E).ruleFaults rule = [] := by
  have h := extends_append D E
  obtain ⟨hsystem, hscope, hflags⟩ := hD.declared.rules (ref, rule) (mem_rules_iff.mpr hrule)
  exact ruleFaults_eq_nil ⟨h.systemFaults hsystem, h.scopeFaults hscope, hflags⟩
    (h.ruleTyped (hD.rule hrule))

/-- Nothing is wrong with the parts of an old proof. -/
theorem proofErrors_append {n : Nat} {p : Proof} (hp : D.proofs[n]? = some p) :
    (D.append E).proofErrors n p = [] := by
  have h := extends_append D E
  obtain ⟨goal, hgoal, hsteps⟩ := hD.proof hp
  rw [proofErrors, h.rule? hgoal]
  exact stepErrors_eq_nil_iff.mpr fun step hstep =>
    (h.accepted (hsteps step hstep)).stepFaults_eq_nil

theorem ofRules_append (hflags : ∀ rule ∈ E.axioms ++ E.theorems, rule.flags = []) :
    Registry.ofRules (D.append E).soundRules = Registry.ofRules D.rules :=
  Directory.ofRules_append (fun _ hr => hD.ruleFaults_append (mem_rules_iff.mp hr)) hflags

theorem registry_append (hflags : ∀ rule ∈ E.axioms ++ E.theorems, rule.flags = []) :
    (D.append E).verify.registry = D.verify.registry := by
  rw [verify, verify, hD.ofRules_append hflags, soundRules_eq_rules hD.ruleFaults]

/-- **What the first phase reports is about what was appended.** -/
theorem not_owns_of_mem_errors (hflags : ∀ rule ∈ E.axioms ++ E.theorems, rule.flags = [])
    {e : Error} (he : e ∈ (D.append E).verify.errors) : ¬ D.Owns e.subject := by
  have h := extends_append D E
  rw [verify, hD.ofRules_append hflags, hD.declared.laws, List.append_nil] at he
  rcases List.mem_append.mp he with he | he
  · simp only [declarationErrors, List.mem_append, or_assoc] at he
    rcases he with he | he | he | he
    · refine not_owns_of_mem_entityErrors rfl (fun n t ht => ?_) he
      exact h.systemFaults (hD.declared.types t (List.mem_of_getElem? ht))
    · refine not_owns_of_mem_entityErrors rfl (fun n c hc => ?_) he
      obtain ⟨hsystem, hsignature⟩ := hD.declared.symbols c (List.mem_of_getElem? hc)
      rw [h.systemFaults hsystem, h.signatureFaults hsignature]
      rfl
    · exact not_owns_of_mem_entityErrors rfl (fun n d hd => hD.definitionFaults_append hd) he
    · obtain ⟨⟨ref, rule⟩, hmem, he⟩ := List.mem_flatMap.mp he
      obtain ⟨fault, hfault, rfl⟩ := List.mem_map.mp he
      intro howns
      obtain ⟨old, hold⟩ := exists_rule?_of_owns howns
      have hsame : (D.append E).rule? ref = some rule := mem_rules_iff.mp hmem
      rw [h.rule? hold] at hsame
      cases hsame
      rw [hD.ruleFaults_append hold] at hfault
      cases hfault
  · obtain ⟨⟨p, n⟩, hmem, he⟩ := List.mem_flatMap.mp he
    obtain ⟨hkind, hindex⟩ := subject_of_mem_proofErrors he
    rintro ⟨m, hm, hlt⟩
    rw [hkind] at hlt
    have hmn : n = m := Int.ofNat.inj (hindex.symm.trans hm)
    have hn : n < D.proofs.length := hmn ▸ hlt
    have hp : (D.proofs ++ E.proofs)[n]? = some p := List.mem_zipIdx_iff_getElem?.mp hmem
    rw [List.getElem?_append_left hn] at hp
    rw [hD.proofErrors_append hp] at he
    cases he

end Verified

end Directory

/-! ## The second phase -/

namespace Laws

/-- The same laws over a directory and over one that extends it. -/
structure Extended (laws laws' : Laws) : Prop where
  directory : laws.directory.Extends laws'.directory
  registry : laws'.registry = laws.registry
  backed : laws.Backed
  typed : laws.directory.Typed
  typed' : laws'.directory.Typed

namespace Extended

variable {laws laws' : Laws} (h : laws.Extended laws') {citing : Ref} {goal : Rule}
  {facts : List Formula}

include h

/-- A congruence law is one of the old rules. -/
theorem alike : laws.Alike .refl laws' where
  registry := by
    refine ⟨fun head => by rw [h.registry], fun head slot => ?_⟩
    rw [h.registry, Renaming.refl_rule, Option.map_id, id_eq]
  rule? := by
    intro function relation law hlaw
    obtain ⟨rule, hrule, -, -⟩ := h.backed function (.congruence relation) law hlaw
    rw [Renaming.refl_rule, id_eq, hrule]
    exact h.directory.rule? hrule

theorem synthesizeFunctionApplication (facts : List Formula) (goal : Formula) :
    Deduction.synthesizeFunctionApplication laws' facts goal =
      Deduction.synthesizeFunctionApplication laws facts goal := by
  rw [h.alike.synthesizeFunctionApplication, Renaming.refl_step, List.map_id_fun, id_map]

theorem synthesizeSubstitution (facts : List Formula) (goal : Formula) :
    Deduction.synthesizeSubstitution laws' facts goal =
      Deduction.synthesizeSubstitution laws facts goal := by
  rw [h.alike.synthesizeSubstitution, Renaming.refl_step, List.map_id_fun]
  simp only [id_map, id_map']

/-- An elementary step that was checked without fault is so still. -/
theorem elementaryFault? {step : Step} (hstep : step.Elementary laws.directory goal)
    (hfacts : ∀ f ∈ facts, ∃ s, f.HasSignature laws.directory goal.scope none s)
    (hok : laws.directory.elementaryFault? goal.premises facts step = .ok none) :
    laws'.directory.elementaryFault? goal.premises facts step = .ok none := by
  have hjustified := ((h.typed.yields_elementaryFault? hstep hfacts).apply hok).mp rfl
  obtain ⟨fault, hfault, hiff⟩ := h.typed'.yields_elementaryFault? (h.directory.elementary hstep)
    (h.directory.forall_exists_hasSignature hfacts)
  rw [hfault, hiff.mpr (h.directory.justified hjustified)]

/-- Synthesized steps that were checked without fault are so still. -/
theorem chainFaults {index : Nat} {chain : List Step}
    (hchain : ∀ step ∈ chain, step.Elementary laws.directory goal)
    (hfacts : ∀ f ∈ facts, ∃ s, f.HasSignature laws.directory goal.scope none s)
    (hok : laws.chainFaults citing goal.premises index facts chain = .ok []) :
    laws'.chainFaults citing goal.premises index facts chain = .ok [] := by
  have hderives := ((yields_chainFaults h.typed hchain hfacts).apply hok).mp rfl
  obtain ⟨faults, hfaults, hiff⟩ := yields_chainFaults h.typed'
    (fun step hstep => h.directory.elementary (hchain step hstep))
    (h.directory.forall_exists_hasSignature hfacts)
  rw [hfaults, hiff.mpr (h.directory.derives hderives)]

theorem checkElementary {step : Step} (hkind : step.justification.isMacro = false)
    (hstep : step.Accepted laws.directory goal citing)
    (hfacts : ∀ f ∈ facts, ∃ s, f.HasSignature laws.directory goal.scope none s)
    {outcome : StepOutcome}
    (hok : (do
      let fault ← laws.directory.elementaryFault? goal.premises facts step
      return StepOutcome.ofFault? fault) = .ok outcome)
    (hfaults : outcome.faults = []) :
    (do
      let fault ← laws'.directory.elementaryFault? goal.premises facts step
      return StepOutcome.ofFault? fault) = .ok outcome := by
  obtain ⟨hformula, hresolves, -⟩ := Step.accepted_iff.mp hstep
  obtain ⟨fault, hfault, hok⟩ := bind_eq_ok.mp hok
  cases hok
  rw [StepOutcome.ofFault?, Option.toList_eq_nil_iff, Option.map_eq_none_iff] at hfaults
  rw [hfaults] at hfault ⊢
  rw [h.elementaryFault? ⟨hformula, hresolves, hkind⟩ hfacts hfault]
  rfl

theorem checkMacro {f : Formula} {synthesized : Except ErrorKind (List Step)}
    (hsynthesized : ∀ chain, synthesized = .ok chain →
      ∀ e ∈ chain, e.Elementary laws.directory goal)
    (hfacts : ∀ f ∈ facts, ∃ s, f.HasSignature laws.directory goal.scope none s)
    {outcome : StepOutcome}
    (hok : laws.checkMacro citing goal.premises facts f synthesized = .ok outcome)
    (hfaults : outcome.faults = []) :
    laws'.checkMacro citing goal.premises facts f synthesized = .ok outcome := by
  cases synthesized with
  | error kind => exact hok
  | ok chain =>
    rw [Laws.checkMacro] at hok ⊢
    obtain ⟨faults, hchain, hok⟩ := bind_eq_ok.mp hok
    cases hok
    obtain ⟨rfl, -⟩ := List.append_eq_nil_iff.mp hfaults
    rw [h.chainFaults (hsynthesized chain rfl) hfacts hchain]
    rfl

/-- **One step of a proof.** -/
theorem checkStep {step : Step} (hstep : step.Accepted laws.directory goal citing)
    (hfacts : ∀ f ∈ facts, ∃ s, f.HasSignature laws.directory goal.scope none s)
    {outcome : StepOutcome} (hok : laws.checkStep citing goal.premises facts step = .ok outcome)
    (hfaults : outcome.faults = []) :
    laws'.checkStep citing goal.premises facts step = .ok outcome := by
  obtain ⟨s, hs⟩ := hstep.formula
  obtain ⟨justification, f⟩ := step
  rw [Laws.checkStep] at hok ⊢
  cases justification with
  | functionApplication =>
    dsimp only at hok ⊢
    rw [h.synthesizeFunctionApplication]
    refine h.checkMacro (fun chain hchain e he => ?_) hfacts hok hfaults
    exact (h.backed.synthesized_functionApplication hchain hs e he).elementary
  | substitution =>
    dsimp only at hok ⊢
    rw [h.synthesizeSubstitution]
    obtain ⟨synthesized, hsynthesized, hok⟩ := bind_eq_ok.mp hok
    rw [hsynthesized]
    refine h.checkMacro (fun chain hchain e he => ?_) hfacts hok hfaults
    exact ((h.backed.synthesized_substitution hs hfacts).apply hsynthesized chain hchain e
      he).elementary
  | rule | hypothesis | definition => exact h.checkElementary rfl hstep hfacts hok hfaults

/-- **The steps of a proof.** -/
theorem checkSteps {index : Nat} {steps : List Step}
    (hsteps : ∀ step ∈ steps, step.Accepted laws.directory goal citing)
    (hfacts : ∀ f ∈ facts, ∃ s, f.HasSignature laws.directory goal.scope none s) {d : Derivation}
    (hok : laws.checkSteps citing goal.premises index facts steps = .ok d)
    (herrors : d.errors = []) :
    laws'.checkSteps citing goal.premises index facts steps = .ok d := by
  induction steps generalizing index facts d with
  | nil => exact hok
  | cons step steps ih =>
    rw [List.forall_mem_cons] at hsteps
    rw [Laws.checkSteps] at hok ⊢
    obtain ⟨outcome, houtcome, hok⟩ := bind_eq_ok.mp hok
    obtain ⟨rest, hrest, hok⟩ := bind_eq_ok.mp hok
    cases hok
    obtain ⟨hfirst, hothers⟩ := List.append_eq_nil_iff.mp herrors
    rw [StepOutcome.errors, List.map_eq_nil_iff] at hfirst
    -- the facts that a step adds have signatures, whether it was a macro or not
    have hfaithful := (h.backed.yields_checkStep h.typed hsteps.1 hfacts).apply houtcome
    have hfacts' : ∀ f ∈ facts ++ outcome.facts ++ [step.formula],
        ∃ s, f.HasSignature laws.directory goal.scope none s := by
      rw [List.append_assoc, hfaithful.formulas, List.forall_mem_append, List.forall_mem_map]
      exact ⟨hfacts, fun e he => (hfaithful.elementary e he).formula⟩
    rw [h.checkStep hsteps.1 hfacts houtcome hfirst]
    show (do
      let rest ← laws'.checkSteps citing goal.premises (index + 1)
        (facts ++ outcome.facts ++ [step.formula]) steps
      return (⟨_, _⟩ : Derivation)) = _
    rw [ih hsteps.2 hfacts' hrest hothers]
    rfl

theorem conclusionErrors {assertion : Formula} {steps : List Step} {errors : List Error}
    (hok : laws.conclusionErrors citing assertion steps = .ok errors) :
    laws'.conclusionErrors citing assertion steps = .ok errors := by
  rw [Laws.conclusionErrors] at hok ⊢
  cases hlast : steps.getLast? with
  | none =>
    rw [hlast] at hok
    exact hok
  | some last =>
    rw [hlast] at hok
    obtain ⟨fits, hfits, hok⟩ := bind_eq_ok.mp hok
    dsimp only
    rw [h.directory.compatible hfits]
    exact hok

/-- **A whole proof.** -/
theorem checkProof {proof : Proof}
    (hsteps : ∀ step ∈ proof.steps, step.Accepted laws.directory goal citing) {d : Derivation}
    (hok : laws.checkProof citing goal proof = .ok d) (herrors : d.errors = []) :
    laws'.checkProof citing goal proof = .ok d := by
  rw [Laws.checkProof] at hok ⊢
  obtain ⟨derivation, hderivation, hok⟩ := bind_eq_ok.mp hok
  obtain ⟨conclusion, hconclusion, hok⟩ := bind_eq_ok.mp hok
  cases hok
  obtain ⟨hnil, -⟩ := List.append_eq_nil_iff.mp herrors
  rw [h.checkSteps hsteps (List.forall_mem_nil _) hderivation hnil]
  show (do
    let conclusion ← laws'.conclusionErrors citing goal.assertion proof.steps
    return (⟨_, _⟩ : Derivation)) = _
  rw [h.conclusionErrors hconclusion]
  rfl

/-- The proof at a position that both directories have the same proof at. -/
theorem checkProofAt {n : Nat} {proof : Proof} (hproof : laws.directory.proof? n = some proof)
    (hproof' : laws'.directory.proof? n = some proof)
    (hgoal : laws.directory.rule? (.ofTheorem proof.theoremRef) = some goal)
    (hsteps : ∀ step ∈ proof.steps, step.Accepted laws.directory goal n) {d : Derivation}
    (hok : laws.checkProofAt n = .ok d) (herrors : d.errors = []) :
    laws'.checkProofAt n = .ok d := by
  rw [Laws.checkProofAt, hproof] at hok
  dsimp only at hok
  rw [hgoal] at hok
  rw [Laws.checkProofAt, hproof']
  dsimp only
  rw [h.directory.rule? hgoal]
  exact h.checkProof hsteps hok herrors

end Extended

variable {laws laws' : Laws}

/-- Proofs in which nothing is found are answered alike if each of them is. -/
theorem checkProofs_eq_ok {index : Nat} {proofs : List Proof}
    (hat : ∀ (n : Nat) (d : Derivation), n < index + proofs.length →
      laws.checkProofAt n = .ok d → d.errors = [] → laws'.checkProofAt n = .ok d)
    {r : List Error × List (Ref × Chains)} (hok : laws.checkProofs index proofs = .ok r)
    (herrors : r.1 = []) : laws'.checkProofs index proofs = .ok r := by
  induction proofs generalizing index r with
  | nil => exact hok
  | cons proof proofs ih =>
    rw [List.length_cons] at hat
    rw [checkProofs] at hok ⊢
    obtain ⟨d, hd, hok⟩ := bind_eq_ok.mp hok
    obtain ⟨rest, hrest, hok⟩ := bind_eq_ok.mp hok
    cases hok
    obtain ⟨hfirst, hothers⟩ := List.append_eq_nil_iff.mp herrors
    have hrest' := ih (fun n d' hn => hat n d' (by omega)) hrest hothers
    refine bind_eq_ok.mpr ⟨d, hat index d (by omega) hd hfirst, ?_⟩
    exact bind_eq_ok.mpr ⟨rest, hrest', rfl⟩

/-- Proofs are checked one after the other. -/
theorem exists_of_checkProofs_append {index : Nat} {old new : List Proof}
    {r : List Error × List (Ref × Chains)} (h : laws.checkProofs index (old ++ new) = .ok r) :
    ∃ a b, laws.checkProofs index old = .ok a ∧
      laws.checkProofs (index + old.length) new = .ok b ∧ r = (a.1 ++ b.1, a.2 ++ b.2) := by
  induction old generalizing index r with
  | nil => exact ⟨([], []), r, rfl, h, rfl⟩
  | cons proof old ih =>
    rw [List.cons_append, checkProofs] at h
    obtain ⟨d, hd, h⟩ := bind_eq_ok.mp h
    obtain ⟨rest, hrest, h⟩ := bind_eq_ok.mp h
    cases h
    obtain ⟨a, b, ha, hb, rfl⟩ := ih hrest
    refine ⟨_, b, bind_eq_ok.mpr ⟨d, hd, bind_eq_ok.mpr ⟨a, ha, rfl⟩⟩, ?_, ?_⟩
    · rw [List.length_cons, ← hb]
      congr 1
      omega
    · simp only [List.append_assoc]

end Laws

/-! ## Both phases -/

namespace Directory

variable {D E : Directory}

theorem isSome_proof?_iff {n : Nat} : (D.proof? n).isSome = true ↔ n < D.proofs.length := by
  rw [proof?, itemAt?_ofNat]
  simp

/-- **The second phase does the same on the old proofs.** -/
theorem Verified.checkProofs_append (hD : D.Verified) (hD' : (D.append E).Verified)
    (hregistry : (D.append E).verify.registry = D.verify.registry)
    {r : List Error × List (Ref × Chains)}
    (hok : Laws.checkProofs ⟨D, D.verify.registry⟩ 0 D.proofs = .ok r) (herrors : r.1 = []) :
    Laws.checkProofs ⟨D.append E, (D.append E).verify.registry⟩ 0 D.proofs = .ok r := by
  have hextended : Laws.Extended ⟨D, D.verify.registry⟩
      ⟨D.append E, (D.append E).verify.registry⟩ :=
    ⟨extends_append D E, hregistry, hD.backed, hD.typed, hD'.typed⟩
  refine Laws.checkProofs_eq_ok (fun n d hn => ?_) hok herrors
  have hp : D.proofs[n]? = some _ := List.getElem?_eq_getElem (by omega)
  have hproof : D.proof? n = some _ := hp
  obtain ⟨goal, hgoal, hsteps⟩ := hD.proof hp
  exact hextended.checkProofAt hproof (itemAt?_append hproof E.proofs) hgoal hsteps

/-- What is found in proofs behind the old ones is not about the old ones. -/
theorem not_owns_of_checkProofs {laws : Laws} {new : List Proof}
    {r : List Error × List (Ref × Chains)}
    (h : laws.checkProofs (0 + D.proofs.length) new = .ok r) {e : Error} (he : e ∈ r.1) :
    ¬ D.Owns e.subject := by
  obtain ⟨hkind, n, hindex, hle, -⟩ := (Laws.positions_of_checkProofs h).1 e he
  rintro ⟨m, hm, hlt⟩
  rw [hkind] at hlt
  have hmn : n = m := Int.ofNat.inj (hindex.symm.trans hm)
  have hlt : m < D.proofs.length := hlt
  omega

/-- The chains of the old proofs can be told by their positions. -/
theorem filter_chains {laws laws' : Laws} {new : List Proof}
    {a b : List Error × List (Ref × Chains)} (ha : laws.checkProofs 0 D.proofs = .ok a)
    (hb : laws'.checkProofs (0 + D.proofs.length) new = .ok b) :
    (a.2 ++ b.2).filter (fun c => (D.proof? c.1).isSome) = a.2 := by
  have hkept : a.2.filter (fun c => (D.proof? c.1).isSome) = a.2 := by
    rw [List.filter_eq_self]
    intro c hc
    obtain ⟨n, hn, -, hlt⟩ := (Laws.positions_of_checkProofs ha).2 c hc
    rw [hn, isSome_proof?_iff]
    omega
  have hdropped : b.2.filter (fun c => (D.proof? c.1).isSome) = [] := by
    rw [List.filter_eq_nil_iff]
    intro c hc hsome
    obtain ⟨n, hn, hle, -⟩ := (Laws.positions_of_checkProofs hb).2 c hc
    rw [hn, isSome_proof?_iff] at hsome
    omega
  rw [List.filter_append, hkept, hdropped, List.append_nil]

/-- **Appending to a valid directory is conservative.**  Whatever is appended, as long as new rules
carry no flags, no error is about what was there, and the registry is the same.  If what is appended
passes the first phase, the same chains are synthesized for the old proofs. -/
theorem check_append {result : CheckResult} (hcheck : D.check = .ok result)
    (hvalid : result.isValid = true)
    (hflags : ∀ rule ∈ E.axioms ++ E.theorems, rule.flags = []) :
    ∃ result', (D.append E).check = .ok result' ∧
      (∀ e ∈ result'.errors, ¬ D.Owns e.subject) ∧
      result'.registry = result.registry ∧
      ((D.append E).verify.errors = [] →
        result'.chains.filter (fun c => (D.proof? c.1).isSome) = result.chains) := by
  have hD := verified_of_isValid hcheck hvalid
  have hregistry := hD.registry_append hflags
  rw [hD.check_eq] at hcheck
  obtain ⟨checked, hchecked, hcheck⟩ := bind_eq_ok.mp hcheck
  cases hcheck
  have hnil : checked.1 = [] := List.isEmpty_iff.mp hvalid
  by_cases herrors : (D.append E).verify.errors = []
  · have hD' := verify_errors_eq_nil_iff.mp herrors
    obtain ⟨checked', hchecked', -⟩ := hD'.yields_checkProofs
    obtain ⟨old, new, hold, hnew, rfl⟩ := Laws.exists_of_checkProofs_append hchecked'
    rw [hD.checkProofs_append hD' hregistry hchecked hnil] at hold
    cases hold
    rw [hD'.check_eq, hchecked']
    refine ⟨_, rfl, fun e he => ?_, hregistry, fun _ => filter_chains hchecked hnew⟩
    rw [hnil] at he
    exact not_owns_of_checkProofs hnew he
  · refine ⟨_, check_of_errors herrors, fun e he => ?_, hregistry, fun hnone => ?_⟩
    · exact hD.not_owns_of_mem_errors hflags he
    · exact absurd hnone herrors

/-- A second proof of the first theorem, which has no steps, and an axiom that would be a law if it
carried a flag. -/
def addition : Directory where
  axioms := [⟨.null, 0, [Sample.element, Sample.element], [Sample.relation.relates 0 1],
    Sample.relation.relates 1 0, []⟩]
  proofs := [⟨0, []⟩]

/-- The sample directory with these has errors, but in its second phase, and none of them is about
the sample directory. -/
theorem check_append_sample :
    (Sample.directory.append addition).verify.errors = [] ∧
    ∃ result, (Sample.directory.append addition).check = .ok result ∧ result.isValid = false ∧
      (∀ e ∈ result.errors, ¬ Sample.directory.Owns e.subject) ∧
      result.registry = Sample.result.registry ∧
      result.chains.filter (fun c => (Sample.directory.proof? c.1).isSome) =
        Sample.result.chains := by
  have herrors : (Sample.directory.append addition).verify.errors = [] := by rfl
  have hinvalid : ((Sample.directory.append addition).check.toOption.map CheckResult.isValid) =
      some false := by rfl
  obtain ⟨result, hresult, hsubjects, hregistry, hchains⟩ :=
    check_append Sample.check_directory Sample.isValid_result
      (show ∀ rule ∈ addition.axioms ++ addition.theorems, rule.flags = [] by decide)
  rw [hresult] at hinvalid
  exact ⟨herrors, result, hresult, Option.some.inj hinvalid, hsubjects, hregistry,
    hchains herrors⟩

end Directory

end Deduction
