import Deduction.Proofs.Reports
import Deduction.Proofs.Search

/-!
# Synthesis stays well typed

The registry stores a congruence law for a head and a relation, and neither how many inputs the head
takes nor what signatures they have.  A head may well be applied to different numbers of inputs: a
symbol of signature `a → a → a` to none, to one, or to two.  So the synthesis looks at the numbers,
and answers that they do not fit if it has to.

It never has to.  The two sides of a reflexive relation have one signature, and a head that is
applied to more inputs has a result with fewer arrows (`Head.Takes.length_eq`).  So two formulas with
one head that the relation takes have the same number of inputs, which is the number that the
congruence law is about.  Being taken by the relation is handed down to the inputs
(`Laws.Backed.hasSignature_zip`), so it holds of all formulas that a search comes to.

* `Head.Takes.length_eq`: the result determines the number of inputs.
* `Laws.Backed.prove_ne_arityMismatch`: searches.
* `Laws.Backed.fitting_of_synthesizes`: what the macros answer.
* `Directory.synthesis_well_typed`: all of it together, and what is never reported.
-/

namespace Deduction

open Formula

/-! ## Numbers of inputs -/

theorem Signature.arity_extend (s : Signature) (ts : List Signature) :
    (s.extend ts).arity = ts.length + s.arity := by
  induction ts with
  | nil => simp
  | cons t ts ih =>
    rw [extend_cons, arity, ih, List.length_cons]
    omega

namespace Head

variable {D : Directory} {limit : Option Ref} {head : Head} {ts ts' : List Signature}
  {s : Signature}

/-- **A head with a result of one signature takes one number of inputs.** -/
theorem Takes.length_eq (h : head.Takes D limit ts s) (h' : head.Takes D limit ts' s) :
    ts.length = ts'.length := by
  cases h with
  | symbol hc ht =>
    cases h' with
    | symbol hc' ht' =>
      rw [hc] at hc'
      cases hc'
      have harity := congrArg Signature.arity (ht.symm.trans ht')
      rw [Signature.arity_extend, Signature.arity_extend] at harity
      omega
  | definition hd =>
    cases h' with
    | definition hd' =>
      rw [hd] at hd'
      cases hd'
      rfl

end Head

namespace Laws

variable {laws : Laws} {scope : List Variable} {relation : Head} {A s : Signature}
  {l r goal : Formula} {facts : List Formula}

/-- Two formulas that a relation takes have as many inputs as their congruence law is about. -/
theorem Backed.congruenceFor_ne_arityMismatch (h : laws.Backed)
    (hR : relation.Takes laws.directory none [A, A] s)
    (hl : l.HasSignature laws.directory scope none A)
    (hr : r.HasSignature laws.directory scope none A) :
    laws.congruenceFor relation l r ≠ .error .congruenceArityMismatch := by
  intro herror
  rw [congruenceFor] at herror
  split at herror
  · next function lefts function' rights hlefts hrights =>
    rw [← apply_of_spine? hlefts] at hl
    rw [← apply_of_spine? hrights] at hr
    obtain ⟨ts, htakes, hinputs⟩ := Head.hasSignature_apply_iff.mp hl
    obtain ⟨ts', htakes', hinputs'⟩ := Head.hasSignature_apply_iff.mp hr
    split at herror
    · cases herror
    · next hfunction =>
      obtain rfl := not_ne_iff.mp hfunction
      split at herror
      · next hlen =>
        -- both sides have the signature `A`, so their common head takes one number of inputs
        refine hlen ?_
        rw [hinputs.length_eq, hinputs'.length_eq, htakes.length_eq htakes']
      · split at herror
        · cases herror
        · next law hlaw =>
          split at herror
          · next hnone =>
            obtain ⟨rule, hrule, -⟩ := h function (.congruence relation) law hlaw
            rw [hnone] at hrule
            cases hrule
          · next rule hrule =>
            split at herror
            · next hpremises =>
              -- and so do the two sides that the law is about
              obtain ⟨ts'', htakes'', hlen, -⟩ := h.takes_of_congruence hR hlaw hrule
              refine hpremises ?_
              rw [← hlen, htakes''.length_eq htakes, hinputs.length_eq]
            · cases herror
  · cases herror

/-- **No search gets stuck at formulas whose numbers of inputs do not fit.** -/
theorem Backed.prove_ne_arityMismatch (h : laws.Backed)
    (hR : relation.Takes laws.directory none [A, A] s)
    (hl : l.HasSignature laws.directory scope none A)
    (hr : r.HasSignature laws.directory scope none A) (c : Chain) :
    Chain.prove laws relation l r c ≠ .error .congruenceArityMismatch := by
  intro herror
  obtain ⟨l', r', ⟨hl', hr'⟩, hstuck⟩ := Chain.exists_congruenceFor_of_prove_error
    (fun l r => l.HasSignature laws.directory scope none A ∧
      r.HasSignature laws.directory scope none A)
    (fun hsides hlefts hrights hlaw =>
      h.hasSignature_zip hR hlefts hrights hlaw hsides.1 hsides.2) herror ⟨hl, hr⟩
  exact h.congruenceFor_ne_arityMismatch hR hl' hr' hstuck

/-! ## What the macros answer -/

/-- An answer to a goal of a given signature: a chain of that signature, or some reason that is not
about numbers of inputs. -/
structure Fitting (D : Directory) (scope : List Variable) (s : Signature)
    (answer : Except ErrorKind (List Step)) : Prop where
  arity : answer ≠ .error .congruenceArityMismatch
  chain : ∀ chain, answer = .ok chain → ∀ step ∈ chain, step.Synthesized D scope s

theorem Backed.fitting_of_synthesizes (h : laws.Backed)
    (hgoal : goal.HasSignature laws.directory scope none s)
    (hfacts : ∀ f ∈ facts, ∃ t, f.HasSignature laws.directory scope none t)
    {answer : Except ErrorKind (List Step)} (hanswer : laws.Synthesizes facts goal answer) :
    Fitting laws.directory scope s answer where
  arity := by
    rintro rfl
    rcases hanswer.cases with ⟨kind, hkind, herror⟩ |
      ⟨relation, l, r, transitivity, rfl, hpreorder, -, hsearch⟩
    · cases herror
      rcases kind_of_macroGoal hkind with hkind | hkind <;> cases hkind
    · obtain ⟨A, hR, hl, hr⟩ := h.takes_of_macroGoal (macroGoal_apply hpreorder l r) hgoal
      rcases hsearch with hsearch | hsearch
      · exact h.prove_ne_arityMismatch hR hl hr _ (map_eq_error.mp hsearch.symm)
      · cases kind_of_firstMiddle hsearch.symm
  chain := by
    rintro chain rfl
    rcases hanswer with hchain | hchain
    · exact h.synthesized_functionApplication hchain hgoal
    · exact (h.synthesized_substitution hgoal hfacts).apply hchain chain rfl

end Laws

/-! ## Verified directories -/

namespace Directory

variable {D : Directory}

/-- No proof of a verified directory is blamed for numbers of inputs that do not fit. -/
theorem Verified.ne_arityMismatch_of_mem (h : D.Verified) {n : Nat} {d : Derivation}
    (hd : Laws.checkProofAt ⟨D, D.verify.registry⟩ n = .ok d) :
    ∀ e ∈ d.errors, e.kind ≠ .congruenceArityMismatch := by
  refine Laws.kind_ne_of_mem_checkProofAt rfl
    (fun goal facts => ∀ f ∈ facts, ∃ s, f.HasSignature D goal.scope none s)
    (fun goal => List.forall_mem_nil _) ?_ hd
  intro proof goal facts step outcome hproof hgoal hstep hfacts houtcome
  obtain ⟨goal', hgoal', hsteps⟩ := h.proof hproof
  obtain rfl : goal' = goal := Option.some.inj (hgoal'.symm.trans hgoal)
  have haccepted := hsteps step hstep
  have hfaithful := (h.backed.yields_checkStep h.typed haccepted hfacts).apply houtcome
  refine ⟨?_, hfaithful.hasSignature_facts hfacts⟩
  rintro answer hanswer (herror | ⟨hreached, -⟩)
  · obtain ⟨s, hs⟩ := haccepted.formula
    exact (h.backed.fitting_of_synthesizes hs hfacts hanswer).arity herror
  · cases hreached

/-- **Synthesis stays well typed.**  In a directory without errors of the first phase, whatever is
synthesized for a goal from facts, all accepted in one scope, is accepted in that scope and has the
signature of the goal, and neither macro ever answers that numbers of inputs do not fit.  So that is
not reported of any directory. -/
theorem synthesis_well_typed (D : Directory) :
    (D.verify.errors = [] → ∀ (scope : List Variable) (base : String) (goal : Formula)
      (facts : List Formula), D.formulaFaults scope base none goal = [] →
      (∀ f ∈ facts, D.formulaFaults scope base none f = []) →
      ∃ s, D.inferred scope goal = some s ∧
        (∃ answer, synthesizeSubstitution ⟨D, D.verify.registry⟩ facts goal = .ok answer) ∧
        ∀ answer, Laws.Synthesizes ⟨D, D.verify.registry⟩ facts goal answer →
          answer ≠ .error .congruenceArityMismatch ∧
          ∀ chain, answer = .ok chain → ∀ step ∈ chain,
            D.formulaFaults scope base none step.formula = [] ∧
              D.inferred scope step.formula = some s) ∧
    ∃ result, D.check = .ok result ∧ ∀ e ∈ result.errors, e.kind ≠ .congruenceArityMismatch := by
  refine ⟨fun hverify scope base goal facts hgoal hfacts => ?_, ?_⟩
  · have hD := verify_errors_eq_nil_iff.mp hverify
    obtain ⟨s, hs⟩ := hD.typed.formulaFaults_eq_nil_iff.mp hgoal
    have hfacts := fun f hf => hD.typed.formulaFaults_eq_nil_iff.mp (hfacts f hf)
    obtain ⟨found, hfound, -⟩ := hD.backed.synthesized_substitution hs hfacts
    refine ⟨s, inferred_eq_some_iff.mpr hs, ⟨found, hfound⟩, fun answer hanswer => ?_⟩
    have hfitting := hD.backed.fitting_of_synthesizes hs hfacts hanswer
    refine ⟨hfitting.arity, fun chain hchain step hstep => ?_⟩
    have hformula := (hfitting.chain chain hchain step hstep).formula
    exact ⟨hD.typed.formulaFaults_eq_nil_iff.mpr ⟨s, hformula⟩, inferred_eq_some_iff.mpr hformula⟩
  · exact yields_check_kind_ne rfl fun hD => hD.ne_arityMismatch_of_mem

end Directory

namespace Sample

/-- The chain through a middle term is accepted in the scope of the rule that it is for. -/
theorem synthesis_well_typed_swap :
    directory.verify.errors = [] ∧
      directory.formulaFaults swap.scope "" none swap.assertion = [] ∧
      (∀ f ∈ swap.premises, directory.formulaFaults swap.scope "" none f = []) ∧
      laws.Synthesizes swap.premises swap.assertion (.ok swapChain) ∧
      ∃ s, directory.inferred swap.scope swap.assertion = some s ∧
        ∀ step ∈ swapChain, directory.inferred swap.scope step.formula = some s := by
  have hgoal : directory.formulaFaults swap.scope "" none swap.assertion = [] := by rfl
  have hfacts : ∀ f ∈ swap.premises, directory.formulaFaults swap.scope "" none f = [] := by
    rw [swap, List.forall_mem_cons, List.forall_mem_cons, List.forall_mem_singleton]
    exact ⟨by rfl, by rfl, by rfl⟩
  have hchain : laws.Synthesizes swap.premises swap.assertion (.ok swapChain) :=
    Or.inr (by rfl)
  obtain ⟨s, hs, -, hanswers⟩ :=
    (Directory.synthesis_well_typed directory).1 verify_errors swap.scope "" swap.assertion
      swap.premises hgoal hfacts
  refine ⟨verify_errors, hgoal, hfacts, hchain, s, hs, fun step hstep => ?_⟩
  exact ((hanswers _ hchain).2 swapChain rfl step hstep).2

end Sample

end Deduction
