import Deduction.Proofs.Checking
import Mathlib.Data.Set.Defs

/-!
# Soundness

Read a set of formulas as the ones that hold.  If it is closed under unfolding definitions and under
the axioms of a valid directory, then it is closed under every theorem of the directory that has a
proof.

Two inductions are nested.  The outer one goes along the positions of proofs: a theorem may be cited
only after its first proof, so whatever a proof cites is closed under already, whether a written step
cites it or a synthesized one.  The inner one goes along the steps: an instance of a justified step
holds if the same instance of the facts before it holds.  There a rule is applied under a
substitution that was found by matching and then instantiated once more, and what was matched up to
definitions stays so under substitution.

* `Directory.ClosedUnderUnfolding`, `Rule.Preserves`: the closure conditions.
* `Derives.mem`: derivations lead from formulas of the set to formulas of the set.
* `Directory.theorem_preserves_of_isValid`: the theorems of a valid directory hold.
-/

namespace Deduction

open Formula

/-- A set of formulas in which compatible formulas can replace each other. -/
def Directory.ClosedUnderUnfolding (D : Directory) (T : Set Formula) : Prop :=
  ∀ f g, f.Resolved D → g.Resolved D → D.compatible f g = .ok true → f ∈ T → g ∈ T

/-- A set of formulas that holds an instance of the assertion of a rule as soon as it holds the same
instance of every premise. -/
def Rule.Preserves (D : Directory) (rule : Rule) (T : Set Formula) : Prop :=
  ∀ σ : Ref → Formula, (∀ v, (σ v).Resolved D) → (∀ p ∈ rule.premises, p.substitute σ ∈ T) →
    rule.assertion.substitute σ ∈ T

section

variable {D : Directory} {T : Set Formula}

theorem Directory.ClosedUnderUnfolding.mem_of_normal_eq (hT : D.ClosedUnderUnfolding T)
    (hD : D.Grounded) {f g : Formula} (hf : f.Resolved D) (hg : g.Resolved D)
    (h : D.normal f = D.normal g) (hmem : f ∈ T) : g ∈ T :=
  hT f g hf hg ((hD.compatible_iff hf hg).mpr h) hmem

/-- Compatible formulas stay compatible under substitution. -/
theorem Directory.Grounded.normal_substitute_eq (hD : D.Grounded) {f g : Formula}
    (hf : f.Resolved D) (hg : g.Resolved D) (h : D.normal f = D.normal g) {σ : Ref → Formula}
    (hσ : ∀ v, (σ v).Resolved D) : D.normal (f.substitute σ) = D.normal (g.substitute σ) := by
  rw [hD.normal_substitute hf hσ, hD.normal_substitute hg hσ, h]

/-- An instance of a matched template holds if the same instance of the target does, and the other
way round. -/
theorem Formula.Matches.mem_iff (hT : D.ClosedUnderUnfolding T) (hD : D.Grounded)
    {template target : Formula} {σ τ : Ref → Formula} (h : template.Matches D τ target)
    (htemplate : template.Resolved D) (htarget : target.Resolved D) (hτ : ∀ v, (τ v).Resolved D)
    (hσ : ∀ v, (σ v).Resolved D) :
    template.substitute (fun v => (τ v).substitute σ) ∈ T ↔ target.substitute σ ∈ T := by
  rw [← substitute_substitute]
  have hnormal := h.normal_eq hD htarget htemplate hτ
  have hinstance := htemplate.substitute hτ
  constructor
  · exact hT.mem_of_normal_eq hD (hinstance.substitute hσ) (htarget.substitute hσ)
      (hD.normal_substitute_eq hinstance htarget hnormal hσ)
  · exact hT.mem_of_normal_eq hD (htarget.substitute hσ) (hinstance.substitute hσ)
      (hD.normal_substitute_eq htarget hinstance hnormal.symm hσ)

/-- The premises and the assertion of a rule, as formulas whose definitions resolve. -/
theorem Rule.Typed.resolved {rule : Rule} (h : rule.Typed D) :
    (∀ p ∈ rule.premises, p.Resolved D) ∧ rule.assertion.Resolved D := by
  constructor
  · intro p hp
    exact resolved_of_exists_hasSignature (h.premise p hp)
  · exact resolved_of_exists_hasSignature h.assertion

/-- Applying a rule that the set is closed under. -/
theorem Rule.Preserves.mem_of_instance (hT : D.ClosedUnderUnfolding T) (hD : D.Grounded)
    {rule : Rule} (hrule : rule.Preserves D T) (htyped : rule.Typed D) {σ τ : Ref → Formula}
    {f : Formula} {facts : List Formula} (hinstance : rule.Instance D τ f facts)
    (hτ : ∀ v, (τ v).Resolved D) (hσ : ∀ v, (σ v).Resolved D) (hf : f.Resolved D)
    (hresolved : ∀ fact ∈ facts, fact.Resolved D) (hfacts : ∀ fact ∈ facts, fact.substitute σ ∈ T) :
    f.substitute σ ∈ T := by
  obtain ⟨hassertion, hpremises⟩ := hinstance
  refine (hassertion.mem_iff hT hD htyped.resolved.2 hf hτ hσ).mp ?_
  refine hrule _ (fun v => (hτ v).substitute hσ) fun p hp => ?_
  obtain ⟨fact, hmem, hmatches⟩ := hpremises p hp
  exact (hmatches.mem_iff hT hD (htyped.resolved.1 p hp) (hresolved fact hmem) hτ hσ).mpr
    (hfacts fact hmem)

end

/-! ## Along the steps of a proof -/

section

variable {D : Directory} {T : Set Formula} {citing : Ref} {premises facts : List Formula}
  {σ : Ref → Formula}

/-- **One step**: an instance of a justified step holds if the same instance of the facts does. -/
theorem Justified.mem (hD : D.Verified) (hT : D.ClosedUnderUnfolding T)
    (hσ : ∀ v, (σ v).Resolved D) {step : Step}
    (hcited : ∀ ref rule, step.justification = .rule ref → D.rule? ref = some rule →
      rule.Preserves D T)
    (hpremises : ∀ p ∈ premises, p.substitute σ ∈ T) (hf : step.formula.Resolved D)
    (hresolved : ∀ fact ∈ facts, fact.Resolved D) (hfacts : ∀ fact ∈ facts, fact.substitute σ ∈ T)
    (h : Justified D premises facts step) : step.formula.substitute σ ∈ T := by
  have hgrounded := hD.typed.grounded
  cases h with
  | rule hrule hτ hinstance =>
    exact (hcited _ _ rfl hrule).mem_of_instance hT hgrounded (hD.rule hrule) hinstance hτ hσ hf
      hresolved hfacts
  | hypothesis hpremise => exact hpremises _ (mem_of_itemAt? hpremise)
  | definition hmem hcompatible =>
    have hnormal := (hgrounded.compatible_iff hf (hresolved _ hmem)).mp hcompatible
    refine hT.mem_of_normal_eq hgrounded ((hresolved _ hmem).substitute hσ) (hf.substitute hσ) ?_
      (hfacts _ hmem)
    exact hgrounded.normal_substitute_eq (hresolved _ hmem) hf hnormal.symm hσ

/-- **All steps**: instances of a derivation hold if the set is closed under what it cites. -/
theorem Derives.mem (hD : D.Verified) (hT : D.ClosedUnderUnfolding T)
    (hσ : ∀ v, (σ v).Resolved D) {steps : List Step}
    (hcited : ∀ step ∈ steps, step.Permitted D citing → ∀ ref rule,
      step.justification = .rule ref → D.rule? ref = some rule → rule.Preserves D T)
    (hpremises : ∀ p ∈ premises, p.substitute σ ∈ T)
    (hsteps : ∀ step ∈ steps, step.formula.Resolved D)
    (hresolved : ∀ fact ∈ facts, fact.Resolved D) (hfacts : ∀ fact ∈ facts, fact.substitute σ ∈ T)
    (h : Derives D citing premises facts steps) :
    ∀ step ∈ steps, step.formula.substitute σ ∈ T := by
  induction h with
  | nil facts => exact fun step hstep => nomatch hstep
  | @cons facts step steps hjustified hpermitted _ ih =>
    rw [List.forall_mem_cons] at hcited hsteps ⊢
    have hmem := hjustified.mem hD hT hσ (hcited.1 hpermitted) hpremises hsteps.1 hresolved hfacts
    refine ⟨hmem, ih hcited.2 hsteps.2 ?_ ?_⟩
    · rw [List.forall_mem_append, List.forall_mem_singleton]
      exact ⟨hresolved, hsteps.1⟩
    · rw [List.forall_mem_append, List.forall_mem_singleton]
      exact ⟨hfacts, hmem⟩

/-- A proof in a set that is closed under everything it cites. -/
theorem Proves.preserves (hD : D.Verified) (hT : D.ClosedUnderUnfolding T) {goal : Rule}
    {steps : List Step} (hgoal : goal.Typed D) (helementary : ∀ e ∈ steps, e.Elementary D goal)
    (hcited : ∀ step ∈ steps, step.Permitted D citing → ∀ ref rule,
      step.justification = .rule ref → D.rule? ref = some rule → rule.Preserves D T)
    (h : Proves D citing goal steps) : goal.Preserves D T := by
  intro σ hσ hpremises
  have hresolved : ∀ e ∈ steps, e.formula.Resolved D := by
    intro e he
    exact resolved_of_exists_hasSignature (helementary e he).formula
  have hmem := h.derives.mem hD hT hσ hcited hpremises hresolved (by simp) (by simp)
  obtain ⟨f, hformula, hcompatible⟩ := h.reaches
  obtain ⟨last, hlast, rfl⟩ := Option.map_eq_some_iff.mp hformula
  have hin := List.mem_of_getLast? hlast
  have hassertion := hgoal.resolved.2
  have hgrounded := hD.typed.grounded
  have hnormal := (hgrounded.compatible_iff (hresolved last hin) hassertion).mp hcompatible
  exact hT.mem_of_normal_eq hgrounded ((hresolved last hin).substitute hσ)
    (hassertion.substitute hσ)
    (hgrounded.normal_substitute_eq (hresolved last hin) hassertion hnormal hσ) (hmem last hin)

end

/-! ## Along the proofs of a directory -/

namespace Directory

variable {D : Directory} {result : CheckResult} {T : Set Formula}

theorem exists_proof_of_firstProof? {ref : Ref} {n : Nat} (h : D.firstProof? ref = some n) :
    ∃ p, D.proofs[n]? = some p ∧ p.theoremRef = ref := by
  obtain ⟨hlt, htrue, -⟩ := List.findIdx?_eq_some_iff_getElem.mp h
  exact ⟨D.proofs[n], List.getElem?_eq_getElem hlt, by simpa using htrue⟩

theorem exists_firstProof? {ref : Ref} (h : ∃ p ∈ D.proofs, p.theoremRef = ref) :
    ∃ n, D.firstProof? ref = some n := by
  obtain ⟨p, hp, heq⟩ := h
  rw [← Option.isSome_iff_exists, firstProof?, List.findIdx?_isSome, List.any_eq_true]
  exact ⟨p, hp, by rw [beq_iff_eq, heq]⟩

/-- A theorem holds once every theorem with an earlier first proof does. -/
theorem preserves_of_firstProof? (hcheck : D.check = .ok result) (hvalid : result.isValid = true)
    (hT : D.ClosedUnderUnfolding T) (haxioms : ∀ rule ∈ D.axioms, rule.Preserves D T) {n : Nat}
    {ref : Ref} {rule : Rule} (hn : D.firstProof? ref = some n)
    (hrule : D.rule? (.ofTheorem ref) = some rule) : rule.Preserves D T := by
  have hD := verified_of_isValid hcheck hvalid
  induction n using Nat.strongRecOn generalizing ref rule with
  | ind n ih =>
    obtain ⟨p, hp, rfl⟩ := exists_proof_of_firstProof? hn
    obtain ⟨goal, hgoal, helementary, hproves⟩ := proves_of_isValid hcheck hvalid hp
    rw [hrule] at hgoal
    cases hgoal
    refine hproves.preserves hD hT (hD.rule hrule) helementary ?_
    intro step _ hpermitted cited citedRule hcites hcited
    cases cited with
    | ofAxiom index => exact haxioms citedRule (mem_of_itemAt? hcited)
    | ofTheorem index =>
      -- a theorem may be cited only where its first proof stands before
      obtain ⟨first, hfirst, hlt⟩ := citationFault?_eq_none_iff.mp (hpermitted index hcites)
      exact ih first (Int.ofNat_lt.mp hlt) hfirst hcited

/-- **Soundness.**  A set of formulas that is closed under unfolding and under the axioms of a valid
directory is closed under every theorem that has a proof. -/
theorem theorem_preserves_of_isValid (hcheck : D.check = .ok result)
    (hvalid : result.isValid = true) (hT : D.ClosedUnderUnfolding T)
    (haxioms : ∀ rule ∈ D.axioms, rule.Preserves D T) (ref : Ref) {rule : Rule}
    (hrule : D.rule? (.ofTheorem ref) = some rule) (hproof : ∃ p ∈ D.proofs, p.theoremRef = ref) :
    rule.Preserves D T := by
  obtain ⟨n, hn⟩ := exists_firstProof? hproof
  exact preserves_of_firstProof? hcheck hvalid hT haxioms hn hrule

end Directory

/-! ## A directory with a relation and a function that preserves it -/

namespace Sample

/-- A variable of the only type that elements have. -/
def element : Variable := ⟨.null, .ground 0⟩

/-- The relation between elements. -/
def relation : Head := .symbol 0

/-- The function on elements. -/
def function (x : Formula) : Formula := .app (.symbol 1) x

/-- The function applied twice, by definition. -/
def twice (x : Formula) : Formula := .definition 0 [x]

/-- The relation is a preorder that the function preserves.  That the function applied twice
preserves it is proved by a macro, and then again for the definition by citing that theorem. -/
def directory : Directory where
  systems := [⟨.null⟩]
  types := [⟨.null, 0⟩, ⟨.null, 0⟩]
  symbols := [⟨.null, 0, .arrow (.ground 0) (.arrow (.ground 0) (.ground 1))⟩,
    ⟨.null, 0, .arrow (.ground 0) (.ground 0)⟩]
  definitions := [⟨.null, 0, [element], function (function (.var 0))⟩]
  axioms := [
    ⟨.null, 0, [element], [], relation.relates 0 0, [.reflexive]⟩,
    ⟨.null, 0, [element, element, element], [relation.relates 0 1, relation.relates 1 2],
      relation.relates 0 2, [.transitive]⟩,
    ⟨.null, 0, [element, element], [relation.relates 0 1],
      relation.apply [function (.var 0), function (.var 1)], [.function]⟩]
  theorems := [
    ⟨.null, 0, [element, element], [relation.relates 0 1],
      relation.apply [function (function (.var 0)), function (function (.var 1))], []⟩,
    ⟨.null, 0, [element, element], [relation.relates 0 1],
      relation.apply [twice (.var 0), twice (.var 1)], []⟩]
  proofs := [
    ⟨0, [⟨.hypothesis 1, relation.relates 0 1⟩,
      ⟨.functionApplication,
        relation.apply [function (function (.var 0)), function (function (.var 1))]⟩]⟩,
    ⟨1, [⟨.hypothesis 1, relation.relates 0 1⟩,
      ⟨.rule (.ofTheorem 0),
        relation.apply [function (function (.var 0)), function (function (.var 1))]⟩,
      ⟨.definition, relation.apply [twice (.var 0), twice (.var 1)]⟩]⟩]

/-- What checking the directory gives. -/
def result : CheckResult :=
  match directory.check with
  | .ok result => result
  | .error _ => ⟨[], .check, {}, []⟩

theorem check_directory : directory.check = .ok result := by rfl

theorem isValid_result : result.isValid = true := by rfl

/-- The formulas that unfold to a relation between two formulas. -/
def relations : Set Formula :=
  {f | ∃ l r : Formula, directory.normal f = relation.apply [l, r]}

theorem grounded_directory : directory.Grounded :=
  (Directory.verified_of_isValid check_directory isValid_result).typed.grounded

theorem closedUnderUnfolding_relations : directory.ClosedUnderUnfolding relations := by
  rintro f g hf hg hcompatible ⟨l, r, hnormal⟩
  exact ⟨l, r, ((grounded_directory.compatible_iff hf hg).mp hcompatible).symm.trans hnormal⟩

theorem apply_mem_relations {x y : Formula} (hx : x.Resolved directory) (hy : y.Resolved directory) :
    relation.apply [x, y] ∈ relations := by
  refine ⟨directory.normal x, directory.normal y, ?_⟩
  show directory.normal (.app (.app (.symbol 0) x) y) = _
  rw [grounded_directory.normal_app (.app (.symbol 0) hx) hy,
    grounded_directory.normal_app (.symbol 0) hx]
  rfl

theorem axiom_preserves_relations : ∀ rule ∈ directory.axioms, rule.Preserves directory relations := by
  intro rule hrule σ hσ _
  have hcases : rule = directory.axioms[0] ∨ rule = directory.axioms[1] ∨
      rule = directory.axioms[2] := by
    simpa [directory] using hrule
  rcases hcases with rfl | rfl | rfl
  · exact apply_mem_relations (hσ 0) (hσ 0)
  · exact apply_mem_relations (hσ 0) (hσ 2)
  · exact apply_mem_relations (.app (.symbol 1) (hσ 0)) (.app (.symbol 1) (hσ 1))

/-- The theorem about the definition, which rests on the other theorem and so on a macro, holds in
the set of relations. -/
theorem twice_preserves_relations :
    directory.check = .ok result ∧ result.isValid = true ∧
      directory.ClosedUnderUnfolding relations ∧
      (∀ rule ∈ directory.axioms, rule.Preserves directory relations) ∧
      directory.theorems[1].Preserves directory relations :=
  ⟨check_directory, isValid_result, closedUnderUnfolding_relations, axiom_preserves_relations,
    Directory.theorem_preserves_of_isValid check_directory isValid_result
      closedUnderUnfolding_relations axiom_preserves_relations 1 rfl
      ⟨directory.proofs[1], by decide, rfl⟩⟩

end Sample

end Deduction
