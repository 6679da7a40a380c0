import Deduction.Proofs.Reports
import Deduction.Proofs.Search

/-!
# Chains say nothing twice and reach their goal

A step is added to a chain only if its formula is not known, and what is known are the facts and the
formulas of the steps so far.  So the formulas of a chain are different from each other and from the
facts, however the parts of the synthesis follow one another (`Chain.Grown`).

A goal is known at the end, since it is what the last step is for, and it is the last formula of a
chain of function application.  That takes an argument, because a step for it is left out if it has
become known before.  The search for the inputs of a formula adds relations between formulas that
stand on the left of some search below, and these are smaller than the one it started with
(`Chain.Ends`).  So the goal does not turn up early.

* `Laws.Fresh`: a chain without repetition that cites laws of the relation.
* `Chain.ends_of_prove`: what a search adds, and what it adds last.
* `Laws.Synthesizes.reaches`: the goal of a macro is a fact or in the chain.
* `Laws.chains_reach_goal`: all of it together, and what is never reported.
-/

namespace Deduction

open Formula

namespace Laws

/-- A chain that repeats neither a fact nor itself, and cites only laws that the registry holds for
the relation. -/
structure Fresh (laws : Laws) (relation : Head) (facts : List Formula) (steps : List Step) :
    Prop where
  nodup : (steps.map Step.formula).Nodup
  new : ∀ step ∈ steps, step.formula ∉ facts
  cites : ∀ step ∈ steps, ∃ law, step.justification = .rule law ∧
    laws.registry.IsLawOf relation law

variable {laws : Laws} {relation : Head} {facts : List Formula}

theorem fresh_nil (laws : Laws) (relation : Head) (facts : List Formula) :
    laws.Fresh relation facts [] :=
  ⟨List.nodup_nil, List.forall_mem_nil _, List.forall_mem_nil _⟩

/-- A step for a formula that is not known yet. -/
theorem Fresh.concat {steps : List Step} (h : laws.Fresh relation facts steps)
    {law : RuleRef} (hlaw : laws.registry.IsLawOf relation law) {f : Formula}
    (hf : f ∉ facts ++ steps.map Step.formula) :
    laws.Fresh relation facts (steps ++ [⟨.rule law, f⟩]) := by
  rw [List.mem_append, not_or] at hf
  constructor
  · rw [List.map_append, List.map_singleton]
    exact List.nodup_append.mpr ⟨h.nodup, List.nodup_singleton f, fun g hg g' hg' => by
      rw [List.mem_singleton.mp hg']
      exact ne_of_mem_of_not_mem hg hf.2⟩
  · rw [List.forall_mem_append, List.forall_mem_singleton]
    exact ⟨h.new, hf.1⟩
  · rw [List.forall_mem_append, List.forall_mem_singleton]
    exact ⟨h.cites, law, rfl, hlaw⟩

end Laws

namespace Chain

variable {laws : Laws} {relation : Head} {facts : List Formula} {l r : Formula} {c c' : Chain}

/-! ## No repetition -/

/-- A chain that has grown from the facts. -/
structure Grown (laws : Laws) (relation : Head) (facts : List Formula) (c : Chain) : Prop where
  tracks : c.Tracks facts
  fresh : laws.Fresh relation facts c.steps

theorem grown_start (laws : Laws) (relation : Head) (facts : List Formula) :
    Grown laws relation facts ⟨facts, []⟩ :=
  ⟨tracks_start facts, laws.fresh_nil relation facts⟩

theorem Grown.emit (h : Grown laws relation facts c) {law : RuleRef}
    (hlaw : laws.registry.IsLawOf relation law) (f : Formula) :
    Grown laws relation facts (c.emit law f) := by
  refine ⟨h.tracks.emit law f, ?_⟩
  rw [Chain.emit]
  split
  · exact h.fresh
  · next hunknown => exact h.fresh.concat hlaw (mt (h.tracks f).mpr hunknown)

theorem Grown.prove (h : Grown laws relation facts c)
    (hprove : prove laws relation l r c = .ok c') : Grown laws relation facts c' :=
  preserves_of_prove (fun l r hlaw hc => hc.emit hlaw (relation.apply [l, r])) hprove h

/-! ## The last step -/

/-- A search that adds nothing but relations whose left side is no larger than its own, and the one
that it was asked for in the end. -/
structure Ends (relation : Head) (l r : Formula) (c c' : Chain) : Prop where
  added : ∀ f ∈ c'.known, f ∈ c.known ∨ ∃ x y, f = relation.apply [x, y] ∧ x.size ≤ l.size
  last : relation.apply [l, r] ∉ c.known →
    ∃ law steps, c'.steps = steps ++ [⟨.rule law, relation.apply [l, r]⟩]

/-- The inputs in turn add relations whose left side is no larger than one of them. -/
theorem Through.added {xs ys : List Formula} {bound : Nat} (h : Through (Ends relation) xs ys c c')
    (hxs : ∀ x ∈ xs, x.size < bound) :
    ∀ f ∈ c'.known, f ∈ c.known ∨ ∃ x y, f = relation.apply [x, y] ∧ x.size < bound := by
  induction h with
  | nil c => exact fun f hf => Or.inl hf
  | cons hfirst _ ih =>
    rw [List.forall_mem_cons] at hxs
    intro f hf
    rcases ih hxs.2 f hf with hf | hsmaller
    · exact (hfirst.added f hf).imp_right fun ⟨x, y, heq, hle⟩ => ⟨x, y, heq, by omega⟩
    · exact Or.inr hsmaller

/-- A step for the two formulas after nothing but smaller ones was added. -/
theorem ends_emit (law : RuleRef) (h : ∀ f ∈ c'.known, f ∈ c.known ∨
      ∃ x y, f = relation.apply [x, y] ∧ x.size < l.size) :
    Ends relation l r c (c'.emit law (relation.apply [l, r])) where
  added := by
    have hsmaller : ∀ f ∈ c'.known, f ∈ c.known ∨
        ∃ x y, f = relation.apply [x, y] ∧ x.size ≤ l.size := fun f hf =>
      (h f hf).imp_right fun ⟨x, y, heq, hlt⟩ => ⟨x, y, heq, by omega⟩
    rw [emit]
    split
    · exact hsmaller
    · rw [List.forall_mem_cons]
      exact ⟨Or.inr ⟨l, r, rfl, Nat.le_refl _⟩, hsmaller⟩
  last := by
    intro hgoal
    -- the left sides of what was added are smaller than `l`
    have hunknown : relation.apply [l, r] ∉ c'.known := by
      intro hknown
      rcases h _ hknown with hknown | ⟨x, y, heq, hlt⟩
      · exact hgoal hknown
      · obtain ⟨rfl, -⟩ := Head.apply_pair_inj.mp heq
        omega
    rw [emit, if_neg hunknown]
    exact ⟨law, c'.steps, rfl⟩

/-- **A search ends with what it was asked for**, if that was not known. -/
theorem ends_of_prove (h : prove laws relation l r c = .ok c') : Ends relation l r c c' := by
  refine prove_induct (motive := Ends relation) ?_ ?_ h
  · intro l r c c' hdirect
    rcases Laws.direct?_cases hdirect with ⟨hknown, rfl⟩ | ⟨-, law, -, rfl⟩ | ⟨-, law, -, rfl⟩
    · exact ⟨fun f hf => Or.inl hf, fun hgoal => absurd hknown hgoal⟩
    · exact ends_emit law fun f hf => Or.inl hf
    · exact ends_emit law fun f hf => Or.inl hf
  · intro l r c c' function lefts rights law _ hl _ _ hthrough
    exact ends_emit law (hthrough.added fun x hx => size_lt_of_mem_spine? hl hx)

end Chain

/-! ## The two macros -/

namespace Laws

variable {laws : Laws} {relation : Head} {facts : List Formula}

/-- A chain through a middle term is fresh and leads to the goal. -/
theorem fresh_throughMiddle {l r middleLeft middleRight : Formula} {transitivity : RuleRef}
    {chain : List Step} (hlaw : laws.registry.transitivity? relation = some transitivity)
    (h : throughMiddle laws facts (relation.apply [l, r]) ⟨relation, l, r⟩ transitivity middleLeft
      middleRight = .ok chain) :
    laws.Fresh relation facts chain ∧
      relation.apply [l, r] ∈ facts ++ chain.map Step.formula := by
  obtain ⟨c, hleft, h⟩ := bind_eq_ok.mp h
  obtain ⟨c', hright, h⟩ := bind_eq_ok.mp h
  cases h
  have hsides := ((Chain.grown_start laws relation facts).prove hleft).prove hright
  have hgrown := (hsides.emit (.transitivity hlaw) (relation.apply [l, middleRight])).emit
    (.transitivity hlaw) (relation.apply [l, r])
  exact ⟨hgrown.fresh, (hgrown.tracks _).mp (Chain.mem_known_emit_self _ _ _)⟩

/-- **The goal of a macro is a fact or in the chain**, which is fresh. -/
theorem Synthesizes.reaches {goal : Formula} {chain : List Step}
    (h : laws.Synthesizes facts goal (.ok chain)) :
    ∃ relation l r, goal = relation.apply [l, r] ∧ laws.Fresh relation facts chain ∧
      goal ∈ facts ++ chain.map Step.formula := by
  rcases h.cases with ⟨kind, -, herror⟩ | ⟨relation, l, r, transitivity, rfl, -, hlaw, h⟩
  · cases herror
  · refine ⟨relation, l, r, rfl, ?_⟩
    rcases h with h | h
    · obtain ⟨c, hprove, rfl⟩ := map_eq_ok.mp h.symm
      have hgrown := (Chain.grown_start laws relation facts).prove hprove
      exact ⟨hgrown.fresh, (hgrown.tracks _).mp (Chain.generates_of_prove hprove).2⟩
    · obtain ⟨middleLeft, middleRight, -, hchain⟩ := exists_throughMiddle h.symm
      exact fresh_throughMiddle hlaw hchain

/-- Function application adds nothing exactly if there is nothing to do, and else ends with the
goal. -/
theorem functionApplication_last {goal : Formula} {chain : List Step}
    (h : synthesizeFunctionApplication laws facts goal = .ok chain) :
    (chain = [] ↔ goal ∈ facts) ∧ ∀ last, chain.getLast? = some last → last.formula = goal := by
  obtain ⟨asked, hgoal, -⟩ := bind_eq_ok.mp h
  obtain ⟨relation, l, r⟩ := asked
  obtain ⟨rfl, hpreorder⟩ := macroGoal_eq_ok_iff.mp hgoal
  rw [functionApplication_apply hpreorder] at h
  by_cases hfact : relation.apply [l, r] ∈ facts
  · have hdirect : laws.direct? relation l r ⟨facts, []⟩ = some ⟨facts, []⟩ := if_pos hfact
    rw [Chain.prove_of_direct? hdirect] at h
    cases h
    refine ⟨iff_of_true rfl hfact, fun last hlast => ?_⟩
    cases hlast
  · obtain ⟨c, hprove, rfl⟩ := map_eq_ok.mp h
    obtain ⟨law, steps, hsteps⟩ := (Chain.ends_of_prove hprove).last hfact
    rw [hsteps]
    refine ⟨iff_of_false (List.concat_ne_nil _ _) hfact, fun last hlast => ?_⟩
    rw [List.getLast?_concat] at hlast
    cases hlast
    rfl

/-! ## What is never reported -/

theorem congruenceFor_ne_goalNotReached (laws : Laws) (relation : Head) (l r : Formula) :
    laws.congruenceFor relation l r ≠ .error .macroGoalNotReached := by
  intro h
  rw [congruenceFor] at h
  split at h
  · split at h
    · cases h
    · split at h
      · cases h
      · split at h
        · cases h
        · split at h
          · cases h
          · split at h <;> cases h
  · cases h

/-- A macro that has no chain says why. -/
theorem Synthesizes.ne_goalNotReached {goal : Formula} {kind : ErrorKind}
    (h : laws.Synthesizes facts goal (.error kind)) : kind ≠ .macroGoalNotReached := by
  rcases h.cases with ⟨kind', hgoal, herror⟩ | ⟨relation, l, r, transitivity, -, -, -, h⟩
  · cases herror
    rcases kind_of_macroGoal hgoal with rfl | rfl <;> exact ErrorKind.noConfusion
  · rcases h with h | h
    · rintro rfl
      obtain ⟨l', r', -, hstuck⟩ := Chain.exists_congruenceFor_of_prove_error
        (fun _ _ => True) (fun _ _ _ _ _ _ => trivial) (map_eq_error.mp h.symm) trivial
      exact laws.congruenceFor_ne_goalNotReached relation l' r' hstuck
    · rw [kind_of_firstMiddle h.symm]
      exact ErrorKind.noConfusion

theorem Synthesizes.not_reports {goal : Formula} {answer : Except ErrorKind (List Step)}
    (h : laws.Synthesizes facts goal answer) :
    ¬ Reports facts goal answer .macroGoalNotReached := by
  rintro (rfl | ⟨-, chain, rfl, hmissed⟩)
  · exact h.ne_goalNotReached rfl
  · obtain ⟨relation, l, r, rfl, -, hreached⟩ := h.reaches
    exact hmissed hreached

/-- No proof is blamed for a goal that was not reached. -/
theorem ne_goalNotReached_of_mem {ref : Ref} {d : Derivation} (h : laws.checkProofAt ref = .ok d) :
    ∀ e ∈ d.errors, e.kind ≠ .macroGoalNotReached :=
  kind_ne_of_mem_checkProofAt rfl (fun _ _ => True) (fun _ => trivial)
    (fun _ _ _ _ _ => ⟨fun _ hanswer => hanswer.not_reports, trivial⟩) h

/-- **Chains say nothing twice and reach their goal.**  Every step of a chain is new and by a law of
the goal's relation, the goal is a fact or in the chain, and a chain of function application that is
not empty ends with it.  So whatever the directory and the proof, it is never reported that a goal
was not reached. -/
theorem chains_reach_goal (laws : Laws) :
    (∀ (facts : List Formula) (goal : Formula) (chain : List Step),
      laws.Synthesizes facts goal (.ok chain) →
      ∃ relation l r, goal.binary? = some (relation, l, r) ∧ laws.Fresh relation facts chain ∧
        goal ∈ facts ++ chain.map Step.formula) ∧
    (∀ (facts : List Formula) (goal : Formula) (chain : List Step),
      synthesizeFunctionApplication laws facts goal = .ok chain →
      (chain = [] ↔ goal ∈ facts) ∧
        ∀ last, chain.getLast? = some last → last.formula = goal) ∧
    (∀ (ref : Ref) (d : Derivation), laws.checkProofAt ref = .ok d →
      ∀ e ∈ d.errors, e.kind ≠ .macroGoalNotReached) ∧
    ∃ result, laws.directory.check = .ok result ∧
      ∀ e ∈ result.errors, e.kind ≠ .macroGoalNotReached := by
  refine ⟨fun facts goal chain h => ?_, fun facts goal chain => functionApplication_last,
    fun ref d => ne_goalNotReached_of_mem, ?_⟩
  · obtain ⟨relation, l, r, rfl, hfresh, hreached⟩ := h.reaches
    exact ⟨relation, l, r, binary?_apply relation l r, hfresh, hreached⟩
  · exact Directory.yields_check_kind_ne rfl fun _ => ne_goalNotReached_of_mem

end Laws

namespace Sample

/-- The chain through a middle term, and the one that ends with the function applied twice. -/
theorem chains_reach_goal_swap :
    laws.Synthesizes swap.premises swap.assertion (.ok swapChain) ∧
      (∃ relation l r, swap.assertion.binary? = some (relation, l, r) ∧
        laws.Fresh relation swap.premises swapChain ∧
        swap.assertion ∈ swap.premises ++ swapChain.map Step.formula) ∧
      ∃ chain, synthesizeFunctionApplication laws [relation.relates 0 1]
          (relation.apply [function (function (.var 0)), function (function (.var 1))]) =
            .ok chain ∧
        (chain = [] ↔ relation.apply [function (function (.var 0)), function (function (.var 1))] ∈
          [relation.relates 0 1]) := by
  have hchain : laws.Synthesizes swap.premises swap.assertion (.ok swapChain) :=
    Or.inr (by rfl)
  obtain ⟨hreaches, hlast, -⟩ := Laws.chains_reach_goal laws
  exact ⟨hchain, hreaches _ _ _ hchain, _, rfl, (hlast _ _ _ rfl).1⟩

end Sample

end Deduction
