import Deduction.Proofs.Generality

/-!
# Synthesized chains check

A chain grows by one step at a time, and a step is added only when the laws that were looked up say
that its formula follows from what is known.  What is known are the facts and the formulas of the
steps so far, so each step rests on the facts and on steps before it.  That is the invariant
(`Chain.Supported`), and a part of the synthesis keeps it, forgets nothing, and comes to know what it
was asked for (`Chain.Reaches`).

The synthesis does not look at the rules behind the laws.  It takes for granted that a law can be
cited for whatever stands in its roles, which is true if no registered law has one variable in two
roles (`Proofs.Generality`).  Under this condition every step of a chain is accepted.

* `Chain.Supported`, `Chain.Supported.emit`: the invariant, and one step.
* `Directory.Verified.reaches_prove`, `Directory.Verified.reaches_throughMiddle`: whole chains.
* `Directory.elementaryFault?_synthesized_eq_none`: chains are accepted step by step.
-/

namespace Deduction

open Formula

/-! ## The invariant -/

namespace Chain

/-- Everything known is a fact or the formula of a step, and each step is justified by the facts and
the steps before it. -/
structure Supported (D : Directory) (premises facts : List Formula) (c : Chain) : Prop where
  known : c.known ⊆ facts ++ c.steps.map Step.formula
  justified : ∀ (n : Nat) (step : Step), c.steps[n]? = some step →
    Justified D premises (facts ++ (c.steps.take n).map Step.formula) step

/-- A part of the synthesis that keeps the invariant and comes to know the goals. -/
structure Reaches (D : Directory) (premises facts : List Formula) (c : Chain) (goals : List Formula)
    (c' : Chain) : Prop where
  supported : c'.Supported D premises facts
  grows : c.known ⊆ c'.known
  goals : goals ⊆ c'.known

variable {D : Directory} {premises facts goals goals' : List Formula} {c c' c'' : Chain}

theorem supported_start (D : Directory) (premises facts : List Formula) :
    Supported D premises facts ⟨facts, []⟩ where
  known := by
    rw [List.map_nil, List.append_nil]
    exact List.Subset.refl facts
  justified := by
    intro n step hstep
    cases hstep

/-- A step that follows from what is known can be added. -/
theorem Supported.emit (h : c.Supported D premises facts) {law : RuleRef} {f : Formula}
    (hf : Justified D premises (facts ++ c.steps.map Step.formula) ⟨.rule law, f⟩) :
    (c.emit law f).Supported D premises facts := by
  rw [Chain.emit]
  split
  · exact h
  · constructor
    · intro g hg
      rw [List.map_append, ← List.append_assoc, List.mem_append]
      rcases List.mem_cons.mp hg with rfl | hg
      · exact Or.inr List.mem_cons_self
      · exact Or.inl (h.known hg)
    · intro n step hstep
      have hlt := (List.getElem?_eq_some_iff.mp hstep).1
      rw [List.length_append, List.length_singleton] at hlt
      by_cases hn : n < c.steps.length
      · rw [List.getElem?_append_left hn] at hstep
        rw [List.take_append_of_le_length (Nat.le_of_lt hn)]
        exact h.justified n step hstep
      · -- the new step stands right after the others
        obtain rfl : n = c.steps.length := by omega
        rw [List.getElem?_concat_length] at hstep
        cases hstep
        rw [List.take_left]
        exact hf

theorem Reaches.refl (h : c.Supported D premises facts) (hgoals : goals ⊆ c.known) :
    Reaches D premises facts c goals c :=
  ⟨h, List.Subset.refl _, hgoals⟩

theorem Reaches.trans (h : Reaches D premises facts c goals c')
    (h' : Reaches D premises facts c' goals' c'') :
    Reaches D premises facts c (goals ++ goals') c'' where
  supported := h'.supported
  grows := List.Subset.trans h.grows h'.grows
  goals := List.append_subset.mpr ⟨List.Subset.trans h.goals h'.grows, h'.goals⟩

theorem Supported.reaches_emit (h : c.Supported D premises facts) {law : RuleRef} {f : Formula}
    (hf : Justified D premises (facts ++ c.steps.map Step.formula) ⟨.rule law, f⟩) :
    Reaches D premises facts c [f] (c.emit law f) where
  supported := h.emit hf
  grows := fun _ hg => mem_known_emit hg law f
  goals := List.cons_subset.mpr ⟨mem_known_emit_self c law f, List.nil_subset _⟩

/-- What is reached for every pair of inputs is reached for all of them together. -/
theorem Through.reaches {R : Head} {xs ys : List Formula}
    (h : Through (fun x y c c' => x.Resolved D → y.Resolved D → c.Supported D premises facts →
      Reaches D premises facts c [R.apply [x, y]] c') xs ys c c')
    (hxs : ∀ x ∈ xs, x.Resolved D) (hys : ∀ y ∈ ys, y.Resolved D)
    (hc : c.Supported D premises facts) :
    Reaches D premises facts c ((xs.zip ys).map fun p => R.apply [p.1, p.2]) c' := by
  induction h with
  | nil c => exact .refl hc (List.nil_subset _)
  | cons hfirst _ ih =>
    rw [List.forall_mem_cons] at hxs hys
    have hhead := hfirst hxs.1 hys.1 hc
    exact hhead.trans (ih hxs.2 hys.2 hhead.supported)

end Chain

/-! ## Chains of a verified directory -/

namespace Directory

open Chain

variable {D : Directory} {premises facts : List Formula} {c c' : Chain} {relation : Head}

section

variable (hD : D.Verified) (hroles : D.DistinctRoles)

include hD hroles

/-- A registered law justifies what it says about formulas if its premises are known. -/
theorem Verified.justified_law (law : Law Formula) {head : Head} {ref : RuleRef} {rule : Rule}
    (hslot : (D.verify.registry.get head).slot? law.slot = some ref)
    (hrule : D.rule? ref = some rule)
    (hcount : ∀ relation, law.slot = .congruence relation → law.count = rule.premises.length)
    (hresolved : ∀ x ∈ law.roles, x.Resolved D) (hpremises : law.premises head ⊆ facts) :
    Justified D premises facts ⟨.rule ref, law.assertion head⟩ := by
  obtain ⟨⟨σ, hσ, hinstance⟩, -⟩ := hD.exists_instance hroles hslot hrule hcount hresolved
  exact .rule hrule hσ (hinstance.mono hpremises)

/-- Citing a law of a relation for what is known. -/
theorem Verified.reaches_law (hc : c.Supported D premises facts) (law : Law Formula)
    {ref : RuleRef} (hslot : (D.verify.registry.get relation).slot? law.slot = some ref)
    (hlaw : ∀ other, law.slot ≠ .congruence other)
    (hresolved : ∀ x ∈ law.roles, x.Resolved D) (hpremises : law.premises relation ⊆ c.known) :
    Reaches D premises facts c [law.assertion relation] (c.emit ref (law.assertion relation)) := by
  obtain ⟨rule, hrule, -⟩ := hD.backed relation law.slot ref hslot
  refine hc.reaches_emit (hD.justified_law hroles law hslot hrule ?_ hresolved ?_)
  · exact fun other hother => absurd hother (hlaw other)
  · exact List.Subset.trans hpremises hc.known

/-- **Relating two formulas by function application keeps the invariant** and reaches the
relation. -/
theorem Verified.reaches_prove {l r : Formula}
    (hprove : Chain.prove ⟨D, D.verify.registry⟩ relation l r c = .ok c') (hl : l.Resolved D)
    (hr : r.Resolved D) (hc : c.Supported D premises facts) :
    Reaches D premises facts c [relation.apply [l, r]] c' := by
  revert hl hr hc
  refine Chain.prove_induct (motive := fun l r c c' => l.Resolved D → r.Resolved D →
    c.Supported D premises facts → Reaches D premises facts c [relation.apply [l, r]] c')
    ?_ ?_ hprove
  · intro l r c c' hdirect hl hr hc
    rcases Laws.direct?_cases hdirect with
      ⟨hknown, rfl⟩ | ⟨rfl, law, hlaw, rfl⟩ | ⟨hknown, law, hlaw, rfl⟩
    · exact .refl hc (List.cons_subset.mpr ⟨hknown, List.nil_subset _⟩)
    · exact hD.reaches_law hroles hc (.reflexive l) hlaw (by simp [Law.slot])
        (List.forall_mem_singleton.mpr hl) (List.nil_subset _)
    · exact hD.reaches_law hroles hc (.symmetric r l) hlaw (by simp [Law.slot])
        (by simp [Law.roles, hl, hr]) (List.cons_subset.mpr ⟨hknown, List.nil_subset _⟩)
  · intro l r c c' function lefts rights law _ hl hr hcongruence hthrough hleft hright hc
    obtain ⟨-, hlen, hlaw, rule, hrule, hpremises⟩ :=
      Laws.congruence_of_spine? hl hr hcongruence
    rw [spine?_eq_some_iff] at hl hr
    subst hl hr
    have hlefts := Head.resolved_inputs hleft
    have hrights := Head.resolved_inputs hright
    have hinputs := hthrough.reaches hlefts hrights hc
    -- the law about these inputs, whose premises were reached one by one
    let inputs := Law.congruence relation (lefts.zip rights)
    have hassertion : inputs.assertion function =
        relation.apply [function.apply lefts, function.apply rights] := by
      rw [Law.assertion, List.map_fst_zip (Nat.le_of_eq hlen),
        List.map_snd_zip (Nat.le_of_eq hlen.symm)]
    have hroots : ∀ x ∈ inputs.roles, x.Resolved D := by
      intro x hx
      rw [Law.roles, List.map_fst_zip (Nat.le_of_eq hlen),
        List.map_snd_zip (Nat.le_of_eq hlen.symm)] at hx
      exact (List.mem_append.mp hx).elim (hlefts x) (hrights x)
    have hcount : inputs.count = rule.premises.length := by
      rw [hpremises, Law.count, List.length_zip, ← hlen, Nat.min_self]
    have hstep := hinputs.trans (hinputs.supported.reaches_emit
      (hD.justified_law hroles inputs hlaw hrule (fun _ _ => hcount) hroots
        (List.Subset.trans hinputs.goals hinputs.supported.known)))
    rw [hassertion] at hstep
    exact ⟨hstep.supported, hstep.grows, (List.append_subset.mp hstep.goals).2⟩

/-- The chain of function application. -/
theorem Verified.reaches_functionApplication {goal : Formula} {chain : List Step}
    (h : synthesizeFunctionApplication ⟨D, D.verify.registry⟩ facts goal = .ok chain)
    (hgoal : goal.Resolved D) :
    ∃ c, Reaches D premises facts ⟨facts, []⟩ [goal] c ∧ c.steps = chain := by
  obtain ⟨asked, hasked, h⟩ := bind_eq_ok.mp h
  obtain ⟨c, hprove, h⟩ := bind_eq_ok.mp h
  cases h
  obtain ⟨rfl, -⟩ := Laws.macroGoal_eq_ok_iff.mp hasked
  have hsides := Head.resolved_inputs hgoal
  rw [List.forall_mem_cons, List.forall_mem_singleton] at hsides
  exact ⟨c, hD.reaches_prove hroles hprove hsides.1 hsides.2 (supported_start D premises facts), rfl⟩

/-- The chain of a substitution through one fact: both sides are related to the middle terms, and
transitivity joins them to the fact. -/
theorem Verified.reaches_throughMiddle {asked : MacroGoal} {transitivity : RuleRef}
    {ml mr : Formula} {chain : List Step}
    (hlaw : D.verify.registry.transitivity? asked.relation = some transitivity)
    (hmiddle : asked.relation.apply [ml, mr] ∈ facts) (hml : ml.Resolved D) (hmr : mr.Resolved D)
    (hl : asked.left.Resolved D) (hr : asked.right.Resolved D)
    (h : throughMiddle ⟨D, D.verify.registry⟩ facts
      (asked.relation.apply [asked.left, asked.right]) asked transitivity ml mr = .ok chain) :
    ∃ c, Reaches D premises facts ⟨facts, []⟩ [asked.relation.apply [asked.left, asked.right]] c ∧
      c.steps = chain := by
  obtain ⟨c₁, hleft, h⟩ := bind_eq_ok.mp h
  obtain ⟨c₂, hright, h⟩ := bind_eq_ok.mp h
  cases h
  have hstart := hD.reaches_prove hroles hleft hl hml (supported_start D premises facts)
  have hsides := hstart.trans (hD.reaches_prove hroles hright hmr hr hstart.supported)
  obtain ⟨hfirst, hlast⟩ := List.append_subset.mp hsides.goals
  have hjoined := hD.reaches_law hroles hsides.supported (.transitive asked.left ml mr) hlaw
    (by simp [Law.slot]) (by simp [Law.roles, hl, hml, hmr])
    (List.append_subset.mpr
      ⟨hfirst, List.cons_subset.mpr ⟨hsides.grows hmiddle, List.nil_subset _⟩⟩)
  have hgoal := hD.reaches_law hroles hjoined.supported
    (.transitive asked.left mr asked.right) hlaw (by simp [Law.slot])
    (by simp [Law.roles, hl, hmr, hr])
    (List.append_subset.mpr ⟨hjoined.goals, List.Subset.trans hlast hjoined.grows⟩)
  refine ⟨_, ⟨hgoal.supported, ?_, hgoal.goals⟩, rfl⟩
  exact List.Subset.trans hsides.grows (List.Subset.trans hjoined.grows hgoal.grows)

/-- The chain of a substitution. -/
theorem Verified.reaches_substitution {goal : Formula} {chain : List Step}
    (h : synthesizeSubstitution ⟨D, D.verify.registry⟩ facts goal = .ok (.ok chain))
    (hgoal : goal.Resolved D) (hfacts : ∀ f ∈ facts, f.Resolved D) :
    ∃ c, Reaches D premises facts ⟨facts, []⟩ [goal] c ∧ c.steps = chain := by
  rw [synthesizeSubstitution] at h
  split at h
  · cases h
  · next asked hasked =>
    obtain ⟨rfl, -⟩ := Laws.macroGoal_eq_ok_iff.mp hasked
    split at h
    · cases h
    · next transitivity hlaw =>
      obtain ⟨ml, mr, hmem, hok⟩ := Laws.exists_throughMiddle (Except.ok.inj h)
      have hmiddle := Head.resolved_inputs (hfacts _ hmem)
      have hsides := Head.resolved_inputs hgoal
      rw [List.forall_mem_cons, List.forall_mem_singleton] at hmiddle hsides
      exact hD.reaches_throughMiddle hroles hlaw hmem hmiddle.1 hmiddle.2 hsides.1 hsides.2 hok

end

/-- **Synthesized chains check.**  If no registered law has one variable in two roles, every step of
a chain is accepted against the facts and the formulas of the steps before it, and the goal is
among them in the end.  The facts and the goal are accepted in the scope of the rule that is being
proved. -/
theorem elementaryFault?_synthesized_eq_none (hverify : D.verify.errors = [])
    (hroles : D.DistinctRoles) {rule : Rule} {base : String} {goal : Formula}
    (hgoal : D.formulaFaults rule.scope base none goal = [])
    (hfacts : ∀ f ∈ facts, D.formulaFaults rule.scope base none f = []) {chain : List Step}
    (hchain : synthesizeFunctionApplication ⟨D, D.verify.registry⟩ facts goal = .ok chain ∨
      synthesizeSubstitution ⟨D, D.verify.registry⟩ facts goal = .ok (.ok chain)) :
    (∀ (n : Nat) (step : Step), chain[n]? = some step →
      D.elementaryFault? rule.premises (facts ++ (chain.take n).map Step.formula) step = .ok none) ∧
    goal ∈ facts ++ chain.map Step.formula := by
  have hD := verify_errors_eq_nil_iff.mp hverify
  obtain ⟨s, hs⟩ := hD.typed.formulaFaults_eq_nil_iff.mp hgoal
  have hfacts := fun f hf => hD.typed.formulaFaults_eq_nil_iff.mp (hfacts f hf)
  -- the formulas of the steps have the signature of the goal, so checking the steps succeeds
  have hsteps : ∀ step ∈ chain, step.Synthesized D rule.scope s := by
    rcases hchain with hchain | hchain
    · exact hD.backed.synthesized_functionApplication hchain hs
    · exact (hD.backed.synthesized_substitution hs hfacts).apply hchain chain rfl
  obtain ⟨c, hreaches, rfl⟩ : ∃ c, Reaches D rule.premises facts ⟨facts, []⟩ [goal] c ∧
      c.steps = chain := by
    rcases hchain with hchain | hchain
    · exact hD.reaches_functionApplication hroles hchain hs.resolved
    · exact hD.reaches_substitution hroles hchain hs.resolved
        fun f hf => resolved_of_exists_hasSignature (hfacts f hf)
  refine ⟨fun n step hstep => ?_, ?_⟩
  · have hknown : ∀ f ∈ facts ++ (c.steps.take n).map Step.formula,
        ∃ t, f.HasSignature D rule.scope none t := by
      intro f hf
      rcases List.mem_append.mp hf with hf | hf
      · exact hfacts f hf
      · obtain ⟨earlier, hmem, rfl⟩ := List.mem_map.mp hf
        exact ⟨s, (hsteps earlier (List.mem_of_mem_take hmem)).formula⟩
    have helementary := (hsteps step (List.mem_of_getElem? hstep)).elementary
    obtain ⟨fault, hfault, hiff⟩ := hD.typed.yields_elementaryFault? helementary hknown
    rw [hfault, hiff.mpr (hreaches.supported.justified n step hstep)]
  · exact hreaches.supported.known (hreaches.goals List.mem_cons_self)

end Directory

namespace Sample

/-- From `0 ~ 1`, `f 1 ~ f 3` and `3 ~ 2` follows `f 0 ~ f 2`. -/
def swap : Rule :=
  ⟨.null, 0, [element, element, element, element],
    [relation.relates 0 1, relation.apply [function (.var 1), function (.var 3)],
      relation.relates 3 2],
    relation.apply [function (.var 0), function (.var 2)], []⟩

/-- Both sides are replaced under the function, and transitivity is used twice. -/
def swapChain : List Step :=
  [⟨.rule (.ofAxiom 2), relation.apply [function (.var 0), function (.var 1)]⟩,
    ⟨.rule (.ofAxiom 2), relation.apply [function (.var 3), function (.var 2)]⟩,
    ⟨.rule (.ofAxiom 1), relation.apply [function (.var 0), function (.var 3)]⟩,
    ⟨.rule (.ofAxiom 1), relation.apply [function (.var 0), function (.var 2)]⟩]

/-- The last step of the chain is accepted after the other three. -/
theorem elementaryFault?_swapChain :
    directory.verify.errors = [] ∧ directory.DistinctRoles ∧
      synthesizeSubstitution ⟨directory, directory.verify.registry⟩ swap.premises swap.assertion =
        .ok (.ok swapChain) ∧
      directory.elementaryFault? swap.premises
        (swap.premises ++ (swapChain.take 3).map Step.formula) swapChain[3] = .ok none := by
  have hsynthesized : synthesizeSubstitution ⟨directory, directory.verify.registry⟩ swap.premises
      swap.assertion = .ok (.ok swapChain) := by rfl
  have hgoal : directory.formulaFaults swap.scope "" none swap.assertion = [] := by rfl
  have hfacts : ∀ f ∈ swap.premises, directory.formulaFaults swap.scope "" none f = [] := by
    rw [swap, List.forall_mem_cons, List.forall_mem_cons, List.forall_mem_singleton]
    exact ⟨by rfl, by rfl, by rfl⟩
  have haccepted := Directory.elementaryFault?_synthesized_eq_none verify_errors
    distinctRoles_directory hgoal hfacts (.inr hsynthesized)
  exact ⟨verify_errors, distinctRoles_directory, hsynthesized, haccepted.1 3 _ rfl⟩

end Sample

end Deduction
