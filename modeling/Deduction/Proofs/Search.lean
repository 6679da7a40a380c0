import Deduction.Proofs.CongruenceClosure

/-!
# The course of a search

`Proofs.CongruenceClosure` says which formulas a search relates.  This module is about the way it
takes, which shows in the chain that it leaves behind and in the reason that it gives when it fails.

* Every step is by a law that the registry holds for the relation (`Registry.IsLawOf`), so what
  such steps preserve is preserved by the search (`Chain.preserves_of_prove`).  One such thing is
  that the facts and the formulas of the steps are all that is known (`Chain.Tracks`).
* The inputs of a formula are smaller than the formula (`Formula.size_lt_of_mem_spine?`), so the
  search goes down.
* Where it fails it got stuck at two formulas for which there is no congruence law, and it came to
  them by taking apart the two that it was asked for
  (`Chain.exists_congruenceFor_of_prove_error`).
-/

namespace Deduction

open Formula

/-! ## Sizes -/

namespace Formula

theorem size_le_sizeAll {x : Formula} {xs : List Formula} (hx : x ∈ xs) : x.size ≤ sizeAll xs := by
  induction xs with
  | nil => cases hx
  | cons y ys ih =>
    rw [sizeAll]
    rcases List.mem_cons.mp hx with rfl | hx
    · omega
    · have hle := ih hx
      omega

theorem size_lt_of_mem_symbolSpine? {f x : Formula} {ref : Ref} {xs : List Formula}
    (h : f.symbolSpine? = some (ref, xs)) (hx : x ∈ xs) : x.size < f.size := by
  induction f using inductionOn generalizing xs with
  | symbol =>
    cases h
    cases hx
  | var | definition => cases h
  | app f y ihf _ =>
    obtain ⟨init, hf, rfl⟩ := symbolSpine?_app_eq_some_iff.mp h
    rw [size]
    rcases List.mem_append.mp hx with hx | hx
    · have hlt := ihf hf hx
      omega
    · rw [List.mem_singleton.mp hx]
      omega

/-- The inputs of a formula are smaller than the formula. -/
theorem size_lt_of_mem_spine? {f x : Formula} {head : Head} {xs : List Formula}
    (h : f.spine? = some (head, xs)) (hx : x ∈ xs) : x.size < f.size := by
  cases f with
  | symbol =>
    cases h
    cases hx
  | var => cases h
  | app f y =>
    obtain ⟨ref, -, hf⟩ := spine?_app_eq_some_iff.mp h
    exact size_lt_of_mem_symbolSpine? hf hx
  | definition ref inputs =>
    cases h
    rw [size]
    have hle := size_le_sizeAll hx
    omega

end Formula

/-! ## Laws of a relation -/

/-- A rule that the registry holds for a relation: one of its own laws, or a congruence law of a
function that preserves it. -/
inductive Registry.IsLawOf (registry : Registry) (relation : Head) (law : RuleRef) : Prop
  | reflexivity : registry.reflexivity? relation = some law → IsLawOf registry relation law
  | symmetry : registry.symmetry? relation = some law → IsLawOf registry relation law
  | transitivity : registry.transitivity? relation = some law → IsLawOf registry relation law
  | congruence {function : Head} : registry.congruence? function relation = some law →
      IsLawOf registry relation law

namespace Chain

variable {laws : Laws} {relation : Head} {l r : Formula} {c c' : Chain}

/-- **What steps by laws of the relation preserve, the search preserves.** -/
theorem preserves_of_prove {Inv : Chain → Prop}
    (hemit : ∀ {c : Chain} {law : RuleRef} (l r : Formula), laws.registry.IsLawOf relation law →
      Inv c → Inv (c.emit law (relation.apply [l, r])))
    (h : prove laws relation l r c = .ok c') (hc : Inv c) : Inv c' := by
  refine prove_induct (motive := fun _ _ c c' => True → Inv c → Inv c') ?_ ?_ h trivial hc
  · intro l r c c' hdirect _ hc
    rcases Laws.direct?_cases hdirect with ⟨-, rfl⟩ | ⟨-, law, hlaw, rfl⟩ | ⟨-, law, hlaw, rfl⟩
    · exact hc
    · exact hemit l r (.reflexivity hlaw) hc
    · exact hemit l r (.symmetry hlaw) hc
  · intro l r c c' function lefts rights law _ hl hr hlaw hthrough _ hc
    obtain ⟨-, -, hcongruence, -⟩ := Laws.congruence_of_spine? hl hr hlaw
    exact hemit l r (.congruence hcongruence) (hthrough.preserves (fun _ _ => trivial) hc)

/-! ## What is known -/

/-- The facts and the formulas of the steps are all that is known. -/
def Tracks (facts : List Formula) (c : Chain) : Prop :=
  ∀ f, f ∈ c.known ↔ f ∈ facts ++ c.steps.map Step.formula

theorem tracks_start (facts : List Formula) : Tracks facts ⟨facts, []⟩ := by
  intro f
  rw [List.map_nil, List.append_nil]

theorem Tracks.emit {facts : List Formula} (h : Tracks facts c) (law : RuleRef) (f : Formula) :
    Tracks facts (c.emit law f) := by
  rw [Chain.emit]
  split
  · exact h
  · intro g
    dsimp only
    rw [List.map_append, List.map_singleton, ← List.append_assoc, List.mem_append, ← h g,
      List.mem_singleton, List.mem_cons, or_comm]

theorem Tracks.prove {facts : List Formula} (h : Tracks facts c)
    (hprove : prove laws relation l r c = .ok c') : Tracks facts c' :=
  preserves_of_prove (fun _ _ _ hc => hc.emit _ _) hprove h

/-! ## Where a search gets stuck -/

theorem prove_of_congruenceFor_error {kind : ErrorKind}
    (hdirect : laws.direct? relation l r c = none)
    (hlaw : laws.congruenceFor relation l r = .error kind) :
    prove laws relation l r c = .error kind := by
  rw [prove.eq_def]
  cases l <;> simp only [hdirect, hlaw] <;> rfl

/-- Of inputs that are related in turn, the first failure is the failure of all. -/
theorem exists_prove_error_of_proveAll {kind : ErrorKind} {xs ys : List Formula}
    (h : proveAll laws relation xs ys c = .error kind) :
    ∃ p ∈ xs.zip ys, ∃ c₁, prove laws relation p.1 p.2 c₁ = .error kind := by
  induction xs generalizing ys c with
  | nil =>
    rw [proveAll.eq_def] at h
    cases h
  | cons x xs ih =>
    cases ys with
    | nil =>
      rw [proveAll.eq_def] at h
      cases h
    | cons y ys =>
      rw [proveAll] at h
      rw [List.zip_cons_cons]
      rcases bind_eq_error.mp h with hfirst | ⟨c₁, -, hrest⟩
      · exact ⟨(x, y), List.mem_cons_self, c, hfirst⟩
      · obtain ⟨p, hp, c₂, hc₂⟩ := ih hrest
        exact ⟨p, List.mem_cons_of_mem _ hp, c₂, hc₂⟩

/-- **A search that fails got stuck** at two formulas for which there is no congruence law.  What is
handed down from formulas to their inputs holds of them. -/
theorem exists_congruenceFor_of_prove_error (Ready : Formula → Formula → Prop) {kind : ErrorKind}
    (hready : ∀ {l r : Formula} {function : Head} {xs ys : List Formula} {law : RuleRef},
      Ready l r → l.spine? = some (function, xs) → r.spine? = some (function, ys) →
      laws.congruenceFor relation l r = .ok law → ∀ p ∈ xs.zip ys, Ready p.1 p.2)
    (h : prove laws relation l r c = .error kind) (hlr : Ready l r) :
    ∃ l r, Ready l r ∧ laws.congruenceFor relation l r = .error kind := by
  -- on the size of the left side, whose inputs are smaller
  induction hn : l.size using Nat.strongRecOn generalizing l r c with
  | ind n ih =>
    cases hdirect : laws.direct? relation l r c with
    | some c' =>
      rw [prove_of_direct? hdirect] at h
      cases h
    | none =>
      cases hlaw : laws.congruenceFor relation l r with
      | error kind' =>
        rw [prove_of_congruenceFor_error hdirect hlaw] at h
        cases h
        exact ⟨l, r, hlr, hlaw⟩
      | ok law =>
        obtain ⟨function, xs, ys, -, hl, hr, hlen, -⟩ := Laws.congruenceFor_eq_ok_iff.mp hlaw
        rw [prove_of_spine? hl hr hlen hdirect hlaw] at h
        rcases bind_eq_error.mp h with hinputs | ⟨c', -, hemit⟩
        · obtain ⟨p, hp, c₁, hc₁⟩ := exists_prove_error_of_proveAll hinputs
          have hlt := size_lt_of_mem_spine? hl (List.of_mem_zip hp).1
          exact ih p.1.size (by omega) hc₁ (hready hlr hl hr hlaw p hp) rfl
        · cases hemit

end Chain

/-! ## The two macros -/

namespace Laws

variable {laws : Laws} {facts : List Formula} {goal : Formula}

/-- What one of the two macros answers when it is asked for a goal. -/
def Synthesizes (laws : Laws) (facts : List Formula) (goal : Formula)
    (answer : Except ErrorKind (List Step)) : Prop :=
  synthesizeFunctionApplication laws facts goal = answer ∨
    synthesizeSubstitution laws facts goal = .ok answer

/-- Substitution tries the facts one after the other. -/
theorem substitution_apply {relation : Head} {transitivity : RuleRef}
    (hpreorder : laws.registry.isPreorder relation = true)
    (hlaw : laws.registry.transitivity? relation = some transitivity) (facts : List Formula)
    (l r : Formula) :
    synthesizeSubstitution laws facts (relation.apply [l, r]) =
      .ok (firstMiddle laws facts (relation.apply [l, r]) ⟨relation, l, r⟩ transitivity facts) := by
  rw [synthesizeSubstitution, macroGoal_apply hpreorder]
  dsimp only
  rw [hlaw]

/-- **What the macros answer**: they are not asked for a relation that is a preorder, or they search
once, or through the facts. -/
theorem Synthesizes.cases {answer : Except ErrorKind (List Step)}
    (h : laws.Synthesizes facts goal answer) :
    (∃ kind, macroGoal laws goal = .error kind ∧ answer = .error kind) ∨
    ∃ relation l r transitivity, goal = relation.apply [l, r] ∧
      laws.registry.isPreorder relation = true ∧
      laws.registry.transitivity? relation = some transitivity ∧
      (answer = (Chain.prove laws relation l r ⟨facts, []⟩).map Chain.steps ∨
        answer = firstMiddle laws facts goal ⟨relation, l, r⟩ transitivity facts) := by
  cases hgoal : macroGoal laws goal with
  | error kind =>
    refine Or.inl ⟨kind, rfl, ?_⟩
    rcases h with h | h
    · rw [synthesizeFunctionApplication, hgoal] at h
      exact h.symm
    · rw [synthesizeSubstitution, hgoal] at h
      cases h
      rfl
  | ok asked =>
    obtain ⟨relation, l, r⟩ := asked
    obtain ⟨rfl, hpreorder⟩ := macroGoal_eq_ok_iff.mp hgoal
    obtain ⟨-, transitivity, hlaw⟩ := Registry.exists_of_isPreorder hpreorder
    refine Or.inr ⟨relation, l, r, transitivity, rfl, hpreorder, hlaw, ?_⟩
    rcases h with h | h
    · exact Or.inl (h.symm.trans (functionApplication_apply hpreorder facts l r))
    · rw [substitution_apply hpreorder hlaw] at h
      cases h
      exact Or.inr rfl

/-- A macro that is not asked for a relation, or not for a preorder, says so. -/
theorem kind_of_macroGoal {kind : ErrorKind} (h : macroGoal laws goal = .error kind) :
    kind = .macroGoalNotBinary ∨ kind = .macroRelationNotPreorder := by
  rw [macroGoal] at h
  split at h
  · cases h
    exact Or.inl rfl
  · split at h
    · cases h
    · cases h
      exact Or.inr rfl

/-- What fails for one candidate is never reported. -/
theorem kind_of_firstMiddle {asked : MacroGoal} {transitivity : RuleRef} {candidates : List Formula}
    {kind : ErrorKind}
    (h : firstMiddle laws facts goal asked transitivity candidates = .error kind) :
    kind = .substitutionNoMiddleTerm := by
  induction candidates with
  | nil =>
    cases h
    rfl
  | cons candidate candidates ih =>
    rw [firstMiddle] at h
    split at h
    · split at h
      · exact ih h
      · split at h
        · cases h
        · exact ih h
    · exact ih h

end Laws

end Deduction
