import Deduction.Proofs.Matching
import Deduction.Proofs.Synthesis

/-!
# Derivations

A step is *justified* by the facts before it if it is an instance of the rule that it cites with
premises among the facts, the premise that it cites, or a fact up to definitions.  A list of steps
is a *derivation* if each of them is justified by the facts and the steps before it, and cites only
theorems that may be cited.  Macros justify nothing: a proof with macros stands for the list in
which each macro step is replaced by the steps synthesized for it, followed by a step by definition
to its own formula (`Chains.expand`).

In a verified directory, checking a proof succeeds, and if nothing is reported then the expanded
steps are a derivation.  For steps without macros the converse holds as well.  That the check
succeeds at all rests on signatures: matching and unfolding need definitions that resolve, the
formulas of the steps have signatures because they were verified, and those of synthesized steps
because `Proofs.Synthesis` says so.

* `Justified`, `Derives`: what a derivation is.
* `Directory.yields_ruleFault?`, `Directory.Typed.yields_elementaryFault?`: one step.
* `Laws.Backed.yields_checkSteps`, `Laws.Backed.yields_checkProof`: whole proofs.
-/

namespace Deduction

open Formula

/-! ## Instances of rules -/

namespace Rule

/-- The assertion becomes the formula and every premise a fact. -/
def Instance (D : Directory) (rule : Rule) (σ : Ref → Formula) (f : Formula)
    (facts : List Formula) : Prop :=
  rule.assertion.Matches D σ f ∧ ∀ p ∈ rule.premises, ∃ fact ∈ facts, p.Matches D σ fact

/-- The variables of the premises and of the assertion. -/
def Mentions (rule : Rule) (v : Ref) : Prop :=
  v ∈ rule.assertion.variableRefs ∨ ∃ p ∈ rule.premises, v ∈ p.variableRefs

end Rule

namespace Directory

variable {D : Directory} {P : Formula → Prop} {facts : List Formula}

section

variable (hD : D.Grounded) (hR : ∀ {f : Formula}, P f → f.Resolved D) (hP : Hereditary P)

include hD hR hP

/-- Matching the premises in turn keeps the solutions under which all of them are facts. -/
theorem yields_matchPremises (hfacts : ∀ f ∈ facts, P f) {premises : List Formula}
    {vars : Ref → Prop} {condition : (Ref → Formula) → Prop} {candidates : List Bindings}
    (h : Represents D P vars condition candidates) :
    Yields (D.matchPremises facts premises candidates)
      (Represents D P (fun v => vars v ∨ ∃ p ∈ premises, v ∈ p.variableRefs)
        fun σ => condition σ ∧ ∀ p ∈ premises, ∃ fact ∈ facts, p.Matches D σ fact) := by
  induction premises generalizing vars condition candidates with
  | nil => exact .pure (h.congr (by simp) (by simp))
  | cons premise premises ih =>
    rw [matchPremises]
    refine (Bindings.yields_findAll hD hR hP hfacts).bind fun found hfound => ?_
    refine (Bindings.yields_mergeAll hD hR h hfound).bind fun joined hjoined => ?_
    split
    · next hempty =>
      -- no solution is left, so the other premises need not be looked at
      have hnone := (hjoined.eq_nil_iff hR).mp (List.isEmpty_iff.mp hempty)
      refine .pure (.nil fun σ hσ hc => hnone ⟨σ, hσ, hc.1, ?_⟩)
      exact hc.2 premise List.mem_cons_self
    · refine (ih hjoined).mono fun r hr => hr.congr ?_ ?_
      · intro v
        simp only [List.mem_cons, exists_eq_or_imp, or_assoc]
      · intro σ _
        rw [List.forall_mem_cons, and_assoc]

/-- **A citation is accepted exactly if the rule has an instance.**  There is then one whose values
have the property that the formula and the facts have. -/
theorem yields_ruleFault? {ref : RuleRef} {rule : Rule} (hrule : D.rule? ref = some rule)
    {f : Formula} (hf : P f) (hfacts : ∀ f ∈ facts, P f) :
    Yields (D.ruleFault? ref f facts) fun r =>
      (r = none → ∃ σ, (∀ v, (σ v).Resolved D) ∧ rule.Instance D σ f facts ∧
        ∀ v, rule.Mentions v → P (σ v)) ∧
      ((∃ σ, (∀ v, (σ v).Resolved D) ∧ rule.Instance D σ f facts) → r = none) := by
  rw [ruleFault?, hrule]
  refine (Bindings.yields_ofMatch? hD hR hP hf).bind fun required hrequired => ?_
  cases required with
  | none =>
    have hnone := (hrequired.eq_nil_iff hR).mp rfl
    refine .pure ⟨fun h => ?_, fun ⟨σ, hσ, hinstance⟩ => ?_⟩
    · cases h
    · exact absurd ⟨σ, hσ, hinstance.1⟩ hnone
  | some required =>
    refine (yields_matchPremises hD hR hP hfacts hrequired).bind fun candidates hc => .pure ?_
    cases candidates with
    | nil =>
      have hnone := (hc.eq_nil_iff hR).mp rfl
      refine ⟨fun h => ?_, fun hinstance => absurd hinstance hnone⟩
      cases h
    | cons b candidates =>
      exact ⟨fun _ => hc.exists_solution hR (List.mem_cons_self (a := b)), fun _ => rfl⟩

end

/-- Looking for a compatible fact. -/
theorem yields_anyCompatible (hD : D.Grounded) {f : Formula} (hf : f.Resolved D)
    (hfacts : ∀ f ∈ facts, f.Resolved D) :
    Yields (D.anyCompatible f facts) fun r =>
      r = true ↔ ∃ fact ∈ facts, D.compatible f fact = .ok true := by
  induction facts with
  | nil => exact .pure (by simp)
  | cons fact facts ih =>
    have hfact := hfacts fact List.mem_cons_self
    have hrest := ih fun f' hf' => hfacts f' (List.mem_cons_of_mem _ hf')
    have hok := hD.compatible_eq_ok hf hfact
    rw [anyCompatible]
    by_cases hn : D.normal f = D.normal fact
    · rw [decide_eq_true hn] at hok
      rw [hok]
      refine .pure ?_
      simp only [true_iff]
      exact ⟨fact, List.mem_cons_self, hok⟩
    · rw [decide_eq_false hn] at hok
      rw [hok]
      refine hrest.mono fun r hr => hr.trans ?_
      simp only [List.mem_cons, exists_eq_or_imp, hok]
      simp

end Directory

/-! ## Justified steps -/

/-- A step that follows from the facts before it, in a proof of a theorem with these premises. -/
inductive Justified (D : Directory) (premises facts : List Formula) : Step → Prop
  | rule {ref : RuleRef} {rule : Rule} {σ : Ref → Formula} {f : Formula} :
      D.rule? ref = some rule → (∀ v, (σ v).Resolved D) → rule.Instance D σ f facts →
      Justified D premises facts ⟨.rule ref, f⟩
  | hypothesis {index : Int} {f : Formula} : itemAt? premises (index - 1) = some f →
      Justified D premises facts ⟨.hypothesis index, f⟩
  | definition {f fact : Formula} : fact ∈ facts → D.compatible f fact = .ok true →
      Justified D premises facts ⟨.definition, f⟩

namespace Step

/-- The rule or the premise that a step cites exists. -/
def Resolves (D : Directory) (premises : List Formula) (step : Step) : Prop :=
  match step.justification with
  | .rule ref => (D.rule? ref).isSome
  | .hypothesis index => (itemAt? premises (index - 1)).isSome
  | _ => True

/-- A theorem that a step cites may be cited. -/
def Permitted (D : Directory) (citing : Ref) (step : Step) : Prop :=
  ∀ ref, step.justification = .rule (.ofTheorem ref) → D.citationFault? ref citing = none

/-- A step without macro whose parts make sense in a proof of a theorem. -/
structure Elementary (D : Directory) (goal : Rule) (step : Step) : Prop where
  formula : ∃ s, step.formula.HasSignature D goal.scope none s
  resolves : step.Resolves D goal.premises
  isMacro : step.justification.isMacro = false

variable {D : Directory} {goal : Rule} {citing : Ref} {step : Step}

/-- Premises are counted from one. -/
theorem isSome_itemAt?_sub_one_iff {α : Type} {items : List α} {index : Int} :
    (itemAt? items (index - 1)).isSome ↔ 0 < index ∧ index ≤ items.length := by
  constructor
  · intro h
    obtain ⟨a, ha⟩ := Option.isSome_iff_exists.mp h
    obtain ⟨n, hn, hlt⟩ := itemAt?_eq_some_iff.mp ha
    have hlt := (List.getElem?_eq_some_iff.mp hlt).1
    have hn : index - 1 = (n : Int) := hn
    omega
  · rintro ⟨hpos, hle⟩
    obtain ⟨n, hn⟩ : ∃ n : Nat, index - 1 = (n : Int) := ⟨(index - 1).toNat, by omega⟩
    have hlt : n < items.length := by omega
    rw [hn, itemAt?_ofNat, List.getElem?_eq_getElem hlt]
    rfl

/-- A justification makes sense if what it cites exists and may be cited. -/
theorem justificationFault?_eq_none_iff :
    D.justificationFault? goal.premises.length citing step.justification = none ↔
      step.Resolves D goal.premises ∧ step.Permitted D citing := by
  obtain ⟨justification, f⟩ := step
  rw [Resolves, Permitted]
  cases justification with
  | rule ref =>
    cases ref with
    | ofAxiom ref =>
      rw [Directory.justificationFault?]
      cases hrule : D.rule? (.ofAxiom ref) <;> simp [hrule]
    | ofTheorem ref =>
      rw [Directory.justificationFault?]
      cases hrule : D.rule? (.ofTheorem ref) <;> simp [hrule]
  | hypothesis index =>
    rw [Directory.justificationFault?]
    simp only [isSome_itemAt?_sub_one_iff, reduceCtorEq, false_implies, implies_true, and_true]
    split
    · next h => simp [h]
    · split
      · next h => simp; omega
      · next h => simp; omega
  | definition | functionApplication | substitution => simp [Directory.justificationFault?]

theorem accepted_iff : step.Accepted D goal citing ↔
    (∃ s, step.formula.HasSignature D goal.scope none s) ∧ step.Resolves D goal.premises ∧
      step.Permitted D citing :=
  ⟨fun h => ⟨h.formula, justificationFault?_eq_none_iff.mp h.justification⟩,
    fun h => ⟨h.1, justificationFault?_eq_none_iff.mpr h.2⟩⟩

theorem Synthesized.elementary {s : Signature} (h : step.Synthesized D goal.scope s) :
    step.Elementary D goal := by
  obtain ⟨⟨ref, rule, hjustification, hrule⟩, hformula⟩ := h
  refine ⟨⟨s, hformula⟩, ?_, ?_⟩
  · rw [Resolves, hjustification]
    exact Option.isSome_iff_exists.mpr ⟨rule, hrule⟩
  · rw [hjustification]
    rfl

end Step

namespace Directory

variable {D : Directory} {goal : Rule} {facts : List Formula} {step : Step}

/-- **An elementary step is accepted exactly if it is justified.** -/
theorem Typed.yields_elementaryFault? (hD : D.Typed) (hstep : step.Elementary D goal)
    (hfacts : ∀ f ∈ facts, ∃ s, f.HasSignature D goal.scope none s) :
    Yields (D.elementaryFault? goal.premises facts step) fun r =>
      r = none ↔ Justified D goal.premises facts step := by
  obtain ⟨justification, f⟩ := step
  obtain ⟨hf, hresolves, hkind⟩ := hstep
  rw [elementaryFault?]
  cases justification with
  | rule ref =>
    obtain ⟨rule, hrule⟩ := Option.isSome_iff_exists.mp hresolves
    have hP := hereditary_hasSignature D goal.scope none
    refine (yields_ruleFault? hD.grounded resolved_of_exists_hasSignature hP hrule hf hfacts).mono
      fun r hr => ⟨fun h => ?_, ?_⟩
    · obtain ⟨σ, hσ, hinstance, -⟩ := hr.1 h
      exact .rule hrule hσ hinstance
    · rintro (@⟨_, rule', σ, _, hrule', hσ, hinstance⟩)
      rw [hrule] at hrule'
      cases hrule'
      exact hr.2 ⟨σ, hσ, hinstance⟩
  | hypothesis index =>
    obtain ⟨premise, hpremise⟩ := Option.isSome_iff_exists.mp hresolves
    dsimp only
    rw [hpremise]
    refine .pure ?_
    constructor
    · intro h
      by_cases heq : premise = f
      · exact .hypothesis (heq ▸ hpremise)
      · rw [if_pos heq] at h
        cases h
    · intro h
      cases h with
      | hypothesis hf' =>
        rw [hpremise] at hf'
        cases hf'
        exact if_neg (not_not_intro rfl)
  | definition =>
    have hresolved : ∀ f ∈ facts, f.Resolved D :=
      fun f' hf' => resolved_of_exists_hasSignature (hfacts f' hf')
    refine (yields_anyCompatible hD.grounded (resolved_of_exists_hasSignature hf) hresolved).bind
      fun fits hfits => .pure ?_
    constructor
    · intro h
      cases fits with
      | true =>
        obtain ⟨fact, hmem, hc⟩ := hfits.mp rfl
        exact .definition hmem hc
      | false => cases h
    · intro h
      cases h with
      | definition hmem hc =>
        rw [hfits.mpr ⟨_, hmem, hc⟩]
        rfl
  | functionApplication => cases hkind
  | substitution => cases hkind

end Directory

/-! ## Derivations -/

/-- Steps each of which is justified by the facts and the steps before it, and cites nothing that may
not be cited. -/
inductive Derives (D : Directory) (citing : Ref) (premises : List Formula) :
    List Formula → List Step → Prop
  | nil (facts : List Formula) : Derives D citing premises facts []
  | cons {facts : List Formula} {step : Step} {steps : List Step} :
      Justified D premises facts step → step.Permitted D citing →
      Derives D citing premises (facts ++ [step.formula]) steps →
      Derives D citing premises facts (step :: steps)

namespace Derives

variable {D : Directory} {citing : Ref} {premises facts : List Formula} {step : Step}
  {steps more : List Step}

theorem cons_iff : Derives D citing premises facts (step :: steps) ↔
    (Justified D premises facts step ∧ step.Permitted D citing) ∧
      Derives D citing premises (facts ++ [step.formula]) steps := by
  constructor
  · intro h
    cases h with
    | cons hj hp hrest => exact ⟨⟨hj, hp⟩, hrest⟩
  · rintro ⟨⟨hj, hp⟩, hrest⟩
    exact .cons hj hp hrest

theorem append_iff : Derives D citing premises facts (steps ++ more) ↔
    Derives D citing premises facts steps ∧
      Derives D citing premises (facts ++ steps.map Step.formula) more := by
  induction steps generalizing facts with
  | nil =>
    rw [List.nil_append, List.map_nil, List.append_nil]
    exact ⟨fun h => ⟨.nil facts, h⟩, And.right⟩
  | cons step steps ih =>
    rw [List.cons_append, cons_iff, cons_iff, ih, ← and_assoc, List.map_cons, List.append_assoc,
      List.singleton_append]

theorem singleton_iff : Derives D citing premises facts [step] ↔
    Justified D premises facts step ∧ step.Permitted D citing := by
  rw [cons_iff]
  exact ⟨And.left, fun h => ⟨h, .nil _⟩⟩

theorem permitted (h : Derives D citing premises facts steps) :
    ∀ step ∈ steps, step.Permitted D citing := by
  induction h with
  | nil facts => exact fun step hstep => nomatch hstep
  | cons _ hp _ ih => exact List.forall_mem_cons.mpr ⟨hp, ih⟩

end Derives

/-! ## Expanded proofs -/

/-- What a step stands for: a macro stands for the steps synthesized for it and a step by definition
to its own formula. -/
def Step.expand (chain : Option (List Step)) (step : Step) : List Step :=
  if step.justification.isMacro then chain.getD [] ++ [⟨.definition, step.formula⟩] else [step]

theorem Step.expand_of_isMacro {step : Step} (h : step.justification.isMacro = true)
    (chain : Option (List Step)) :
    step.expand chain = chain.getD [] ++ [⟨.definition, step.formula⟩] := by
  rw [expand, if_pos h]

theorem Step.expand_of_isMacro_eq_false {step : Step} (h : step.justification.isMacro = false)
    (chain : Option (List Step)) : step.expand chain = [step] := by
  rw [expand, h]
  rfl

/-- Steps, counted from `index`, with every macro replaced by its recorded chain. -/
def Chains.expand (chains : Chains) (index : Nat) : List Step → List Step
  | [] => []
  | step :: steps => step.expand (chains.lookup (index : Int)) ++ expand chains (index + 1) steps

namespace Chains

variable {chains chains' : Chains} {index : Nat} {steps : List Step}

/-- Only chains at the positions of the steps matter. -/
theorem expand_congr (h : ∀ n : Nat, index ≤ n → chains.lookup (n : Int) = chains'.lookup (n : Int)) :
    chains.expand index steps = chains'.expand index steps := by
  induction steps generalizing index with
  | nil => rfl
  | cons step steps ih =>
    rw [expand, expand, h index (Nat.le_refl index)]
    rw [ih fun n hn => h n (by omega)]

/-- A proof ends in the same formula after its macros are expanded. -/
theorem getLast?_expand (chains : Chains) (index : Nat) (steps : List Step) :
    (chains.expand index steps).getLast?.map Step.formula = steps.getLast?.map Step.formula := by
  induction steps generalizing index with
  | nil => rfl
  | cons step steps ih =>
    cases steps with
    | nil =>
      rw [expand, expand, List.append_nil, Step.expand]
      split
      · rw [List.getLast?_append]
        rfl
      · rfl
    | cons next rest =>
      have hne : chains.expand (index + 1) (next :: rest) ≠ [] := by
        intro hnil
        have h := ih (index + 1)
        rw [hnil, List.getLast?_eq_some_getLast (List.cons_ne_nil next rest)] at h
        cases h
      rw [List.getLast?_cons_cons, ← ih (index + 1), expand,
        List.getLast?_append_of_ne_nil _ hne]

end Chains

/-! ## Checking steps -/

namespace Laws

variable {laws : Laws} {citing : Ref} {goal : Rule} {facts : List Formula}

section

variable (hD : laws.directory.Typed)

include hD

/-- Synthesized steps without faults are a derivation, and the other way round. -/
theorem yields_chainFaults {index : Nat} {chain : List Step}
    (hchain : ∀ step ∈ chain, step.Elementary laws.directory goal)
    (hfacts : ∀ f ∈ facts, ∃ s, f.HasSignature laws.directory goal.scope none s) :
    Yields (laws.chainFaults citing goal.premises index facts chain) fun faults =>
      faults = [] ↔ Derives laws.directory citing goal.premises facts chain := by
  induction chain generalizing index facts with
  | nil => exact .pure (iff_of_true rfl (.nil facts))
  | cons step chain ih =>
    rw [List.forall_mem_cons] at hchain
    have hfacts' : ∀ f ∈ facts ++ [step.formula],
        ∃ s, f.HasSignature laws.directory goal.scope none s := by
      rw [List.forall_mem_append, List.forall_mem_singleton]
      exact ⟨hfacts, hchain.1.formula⟩
    rw [chainFaults]
    refine (hD.yields_elementaryFault? hchain.1 hfacts).bind fun fault hfault => ?_
    refine (ih hchain.2 hfacts').bind fun rest hrest => .pure ?_
    rw [Derives.cons_iff, ← hrest, ← hfault, List.append_eq_nil_iff, List.map_eq_nil_iff,
      List.append_eq_nil_iff, Option.toList_eq_nil_iff, Option.toList_eq_nil_iff, and_comm
      (a := fault = none)]
    refine and_congr (and_congr ?_ Iff.rfl) Iff.rfl
    rw [Step.Permitted]
    split
    · next ref hjustification => simp [hjustification]
    · next hne => exact iff_of_true rfl fun ref h => absurd h (hne ref)

/-- What holds of the outcome of a step, in whatever way it was checked: its synthesized steps are
elementary, and if nothing is wrong then what the step stands for is a derivation. -/
structure Faithful (laws : Laws) (citing : Ref) (goal : Rule) (facts : List Formula) (step : Step)
    (outcome : StepOutcome) : Prop where
  elementary : ∀ e ∈ step.expand outcome.chain, e.Elementary laws.directory goal
  formulas : outcome.facts ++ [step.formula] = (step.expand outcome.chain).map Step.formula
  derives : outcome.faults = [] →
    Derives laws.directory citing goal.premises facts (step.expand outcome.chain)
  complete : step.justification.isMacro = false →
    Derives laws.directory citing goal.premises facts (step.expand outcome.chain) →
    outcome.faults = []

/-- A macro step, whatever was synthesized for it, as long as the synthesized steps are
elementary. -/
theorem yields_checkMacro {step : Step} (hkind : step.justification.isMacro = true)
    (hstep : step.Accepted laws.directory goal citing)
    (hfacts : ∀ f ∈ facts, ∃ s, f.HasSignature laws.directory goal.scope none s)
    {synthesized : Except ErrorKind (List Step)}
    (hsynthesized : ∀ chain, synthesized = .ok chain →
      ∀ e ∈ chain, e.Elementary laws.directory goal) :
    Yields (laws.checkMacro citing goal.premises facts step.formula synthesized)
      (Faithful laws citing goal facts step) := by
  have hlast : Step.Elementary laws.directory goal ⟨.definition, step.formula⟩ :=
    ⟨hstep.formula, trivial, rfl⟩
  cases synthesized with
  | error kind =>
    refine .pure ⟨?_, ?_, fun h => ?_, fun h => ?_⟩
    · rw [Step.expand_of_isMacro hkind]
      exact List.forall_mem_singleton.mpr hlast
    · rw [Step.expand_of_isMacro hkind]
      rfl
    · cases h
    · rw [hkind] at h
      cases h
  | ok chain =>
    have hchain := hsynthesized chain rfl
    rw [checkMacro]
    refine (yields_chainFaults hD hchain hfacts).bind fun faults hfaults => .pure ?_
    refine ⟨?_, ?_, fun h => ?_, fun h => ?_⟩
    · rw [Step.expand_of_isMacro hkind]
      exact List.forall_mem_append.mpr ⟨hchain, List.forall_mem_singleton.mpr hlast⟩
    · rw [Step.expand_of_isMacro hkind, List.map_append]
      rfl
    · obtain ⟨hnil, hreached⟩ := List.append_eq_nil_iff.mp h
      have hmem : step.formula ∈ facts ++ chain.map Step.formula := by
        by_contra hnot
        rw [if_neg hnot] at hreached
        cases hreached
      rw [Step.expand_of_isMacro hkind, Derives.append_iff, Derives.singleton_iff]
      refine ⟨hfaults.mp hnil, .definition hmem (laws.directory.compatible_self _), ?_⟩
      intro ref href
      cases href
    · rw [hkind] at h
      cases h

/-- A step without macro. -/
theorem yields_elementary {step : Step} (hkind : step.justification.isMacro = false)
    (hstep : step.Accepted laws.directory goal citing)
    (hfacts : ∀ f ∈ facts, ∃ s, f.HasSignature laws.directory goal.scope none s) :
    Yields (do
      let fault ← laws.directory.elementaryFault? goal.premises facts step
      return StepOutcome.ofFault? fault) (Faithful laws citing goal facts step) := by
  obtain ⟨hformula, hresolves, hpermitted⟩ := Step.accepted_iff.mp hstep
  have helementary : step.Elementary laws.directory goal := ⟨hformula, hresolves, hkind⟩
  refine (hD.yields_elementaryFault? helementary hfacts).bind fun fault hfault => .pure ?_
  have hexpand := Step.expand_of_isMacro_eq_false hkind
  have hfaults : (StepOutcome.ofFault? fault).faults = [] ↔ fault = none := by
    rw [StepOutcome.ofFault?, Option.toList_eq_nil_iff, Option.map_eq_none_iff]
  refine ⟨?_, ?_, fun h => ?_, fun _ h => ?_⟩
  · rw [hexpand]
    exact List.forall_mem_singleton.mpr helementary
  · rw [hexpand]
    rfl
  · rw [hexpand, Derives.singleton_iff]
    exact ⟨hfault.mp (hfaults.mp h), hpermitted⟩
  · rw [hexpand, Derives.singleton_iff] at h
    exact hfaults.mpr (hfault.mpr h.1)

end

/-- **One step of a proof**, against facts that have signatures. -/
theorem Backed.yields_checkStep (hB : laws.Backed) (hD : laws.directory.Typed) {step : Step}
    (hstep : step.Accepted laws.directory goal citing)
    (hfacts : ∀ f ∈ facts, ∃ s, f.HasSignature laws.directory goal.scope none s) :
    Yields (laws.checkStep citing goal.premises facts step)
      (Faithful laws citing goal facts step) := by
  obtain ⟨s, hs⟩ := hstep.formula
  rw [checkStep]
  split
  · next hjustification =>
    refine yields_checkMacro hD (by rw [hjustification]; rfl) hstep hfacts fun chain hok e he => ?_
    exact (hB.synthesized_functionApplication hok hs e he).elementary
  · next hjustification =>
    refine (hB.synthesized_substitution hs hfacts).bind fun synthesized hsynthesized => ?_
    refine yields_checkMacro hD (by rw [hjustification]; rfl) hstep hfacts fun chain hok e he => ?_
    exact (hsynthesized chain hok e he).elementary
  · next hfunction hsubstitution =>
    refine yields_elementary hD ?_ hstep hfacts
    cases hjustification : step.justification with
    | functionApplication => exact absurd hjustification hfunction
    | substitution => exact absurd hjustification hsubstitution
    | rule | hypothesis | definition => rfl

/-! ## Whole proofs -/

/-- What is known after a step has signatures. -/
theorem Faithful.hasSignature_facts {step : Step} {outcome : StepOutcome}
    (h : Faithful laws citing goal facts step outcome)
    (hfacts : ∀ f ∈ facts, ∃ s, f.HasSignature laws.directory goal.scope none s) :
    ∀ f ∈ facts ++ outcome.facts ++ [step.formula],
      ∃ s, f.HasSignature laws.directory goal.scope none s := by
  rw [List.append_assoc, h.formulas, List.forall_mem_append, List.forall_mem_map]
  exact ⟨hfacts, fun e he => (h.elementary e he).formula⟩

/-- What holds of the outcome of some steps, counted from `index`. -/
structure FaithfulFrom (laws : Laws) (citing : Ref) (goal : Rule) (index : Nat)
    (facts : List Formula) (steps : List Step) (r : Derivation) : Prop where
  positions : ∀ n : Nat, n < index → r.chains.lookup (n : Int) = none
  elementary : ∀ e ∈ r.chains.expand index steps, e.Elementary laws.directory goal
  derives : r.errors = [] →
    Derives laws.directory citing goal.premises facts (r.chains.expand index steps)
  complete : (∀ step ∈ steps, step.justification.isMacro = false) →
    Derives laws.directory citing goal.premises facts steps → r.errors = []

/-- The chain recorded for a position is found there, and the others where they were. -/
theorem lookup_recorded {α : Type} (index n : Nat) (chain : Option α) (rest : List (Int × α)) :
    ((chain.map fun c => ((index : Int), c)).toList ++ rest).lookup (n : Int) =
      if n = index then chain.or (rest.lookup (n : Int)) else rest.lookup (n : Int) := by
  cases chain with
  | none => simp
  | some c =>
    rw [Option.map_some, Option.toList_some, List.singleton_append, List.lookup_cons]
    by_cases h : n = index
    · rw [h, beq_self_eq_true, if_pos rfl, Option.some_or]
    · have hne : ((n : Int) == (index : Int)) = false := by
        rw [beq_eq_false_iff_ne]
        omega
      rw [hne, if_neg h]

/-- The recorded chains of a step and of those after it are found at their positions. -/
theorem expand_recorded {index : Nat} {rest : Chains} (chain : Option (List Step)) (step : Step)
    (steps : List Step) (hrest : ∀ n : Nat, n < index + 1 → rest.lookup (n : Int) = none) :
    Chains.expand ((chain.map fun c => ((index : Int), c)).toList ++ rest) index (step :: steps) =
      step.expand chain ++ rest.expand (index + 1) steps := by
  have hhere : ((chain.map fun c => ((index : Int), c)).toList ++ rest).lookup (index : Int) =
      chain := by
    rw [lookup_recorded, if_pos rfl, hrest index (Nat.lt_succ_self index), Option.or_none]
  rw [Chains.expand, hhere]
  refine congrArg _ (Chains.expand_congr fun n hn => ?_)
  rw [lookup_recorded, if_neg (by omega)]

/-- **The steps of a proof**, against facts that have signatures. -/
theorem Backed.yields_checkSteps (hB : laws.Backed) (hD : laws.directory.Typed) {index : Nat}
    {steps : List Step} (hsteps : ∀ step ∈ steps, step.Accepted laws.directory goal citing)
    (hfacts : ∀ f ∈ facts, ∃ s, f.HasSignature laws.directory goal.scope none s) :
    Yields (laws.checkSteps citing goal.premises index facts steps)
      (FaithfulFrom laws citing goal index facts steps) := by
  induction steps generalizing index facts with
  | nil =>
    refine .pure ⟨fun n _ => rfl, fun e he => ?_, fun _ => .nil facts, fun _ _ => rfl⟩
    cases he
  | cons step steps ih =>
    rw [List.forall_mem_cons] at hsteps
    rw [checkSteps]
    refine (hB.yields_checkStep hD hsteps.1 hfacts).bind fun outcome houtcome => ?_
    -- the facts after the step are those before it and the formulas of what it stands for
    have hfacts' := houtcome.hasSignature_facts hfacts
    rw [List.append_assoc, houtcome.formulas] at hfacts' ⊢
    refine (ih hsteps.2 hfacts').bind fun rest hrest => .pure ?_
    have hexpand := expand_recorded outcome.chain step steps hrest.positions
    have herrors : outcome.errors citing index ++ rest.errors = [] ↔
        outcome.faults = [] ∧ rest.errors = [] := by
      rw [List.append_eq_nil_iff, StepOutcome.errors, List.map_eq_nil_iff]
    refine ⟨fun n hn => ?_, ?_, fun h => ?_, fun hkind h => ?_⟩
    · rw [lookup_recorded, if_neg (by omega)]
      exact hrest.positions n (by omega)
    · rw [hexpand, List.forall_mem_append]
      exact ⟨houtcome.elementary, hrest.elementary⟩
    · obtain ⟨hfaults, hnil⟩ := herrors.mp h
      rw [hexpand, Derives.append_iff]
      exact ⟨houtcome.derives hfaults, hrest.derives hnil⟩
    · rw [List.forall_mem_cons] at hkind
      have hself := Step.expand_of_isMacro_eq_false hkind.1 outcome.chain
      rw [hself] at hrest
      rw [Derives.cons_iff] at h
      refine herrors.mpr ⟨houtcome.complete hkind.1 ?_, hrest.complete hkind.2 h.2⟩
      rw [hself, Derives.singleton_iff]
      exact h.1

end Laws

/-- Steps that derive the assertion of a theorem from its premises. -/
structure Proves (D : Directory) (citing : Ref) (goal : Rule) (steps : List Step) : Prop where
  derives : Derives D citing goal.premises [] steps
  reaches : ∃ f, steps.getLast?.map Step.formula = some f ∧
    D.compatible f goal.assertion = .ok true

namespace Laws

variable {laws : Laws} {citing : Ref} {goal : Rule}

/-- The last formula is compared with the assertion. -/
theorem yields_conclusionErrors (hD : laws.directory.Typed) {steps : List Step}
    (hsteps : ∀ step ∈ steps, ∃ s, step.formula.HasSignature laws.directory goal.scope none s)
    (hgoal : goal.Typed laws.directory) :
    Yields (laws.conclusionErrors citing goal.assertion steps) fun errors =>
      errors = [] ↔ ∃ f, steps.getLast?.map Step.formula = some f ∧
        laws.directory.compatible f goal.assertion = .ok true := by
  obtain ⟨t, ht⟩ := hgoal.assertion
  rw [conclusionErrors]
  cases hlast : steps.getLast? with
  | none => exact .pure (by simp)
  | some last =>
    obtain ⟨s, hs⟩ := hsteps last (List.mem_of_getLast? hlast)
    have hok := hD.grounded.compatible_eq_ok hs.resolved ht.resolved
    dsimp only
    rw [hok]
    refine .pure ?_
    simp only [Option.map_some, Option.some.injEq, exists_eq_left', hok, Except.ok.injEq]
    cases decide (laws.directory.normal last.formula = laws.directory.normal goal.assertion)
    · simp
    · simp

/-- What holds of the outcome of a proof. -/
structure FaithfulProof (laws : Laws) (citing : Ref) (goal : Rule) (steps : List Step)
    (r : Derivation) : Prop where
  elementary : ∀ e ∈ r.chains.expand 0 steps, e.Elementary laws.directory goal
  proves : r.errors = [] → Proves laws.directory citing goal (r.chains.expand 0 steps)
  complete : (∀ step ∈ steps, step.justification.isMacro = false) →
    Proves laws.directory citing goal steps → r.errors = []

/-- **A whole proof.**  The check succeeds; if nothing is reported, the expanded steps prove the
theorem, and steps without macros that prove it are accepted. -/
theorem Backed.yields_checkProof (hB : laws.Backed) (hD : laws.directory.Typed)
    (hgoal : goal.Typed laws.directory) {proof : Proof}
    (hsteps : ∀ step ∈ proof.steps, step.Accepted laws.directory goal citing) :
    Yields (laws.checkProof citing goal proof)
      (FaithfulProof laws citing goal proof.steps) := by
  have hnone : ∀ f ∈ ([] : List Formula),
      ∃ s, f.HasSignature laws.directory goal.scope none s := List.forall_mem_nil _
  rw [checkProof]
  refine (hB.yields_checkSteps hD hsteps hnone).bind fun r hr => ?_
  refine (yields_conclusionErrors hD (fun step hstep => (hsteps step hstep).formula) hgoal).bind
    fun conclusion hconclusion => .pure ?_
  refine ⟨hr.elementary, fun h => ?_, fun hkind h => ?_⟩
  · obtain ⟨hnil, hreached⟩ := List.append_eq_nil_iff.mp h
    refine ⟨hr.derives hnil, ?_⟩
    rw [Chains.getLast?_expand]
    exact hconclusion.mp hreached
  · exact List.append_eq_nil_iff.mpr ⟨hr.complete hkind h.derives, hconclusion.mpr h.reaches⟩

end Laws

end Deduction
