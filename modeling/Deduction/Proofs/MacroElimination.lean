import Deduction.Proofs.Extension
import Deduction.Proofs.Soundness

/-!
# Macros can be eliminated

In a valid directory every macro step can be replaced by the steps that were synthesized for it,
followed by a step by definition to its own formula.  The directory with all macros replaced is
valid again, and its proofs prove the same theorems.

The synthesized steps were never verified, they were only checked; now they stand in the directory
like written ones and have to pass the first phase too.  Their formulas have signatures
(`Proofs.Synthesis`), the rules they cite exist, and the theorems they cite were allowed where the
macro stood.  Nothing besides the proofs has changed, so the rules, the registry and the first proof
of every theorem are what they were, and what was a derivation before is one still.

* `Directory.expandMacros`: the directory without macros.
* `Directory.withProofs`, `Directory.extends_withProofs`: what does not depend on the steps of proofs.
* `Directory.expandMacros_isValid`: macro elimination.
-/

namespace Deduction

open Formula

namespace Directory

/-- The directory with other proofs. -/
def withProofs (D : Directory) (proofs : List Proof) : Directory := { D with proofs := proofs }

/-- The directory with every macro step replaced by what was synthesized for it. -/
def expandMacros (D : Directory) (chains : List (Ref × Chains)) : Directory :=
  D.withProofs (D.proofs.zipIdx.map fun p => { p.1 with steps := expandedSteps chains p.2 p.1 })

variable {D : Directory} {proofs : List Proof}

/-! ## What does not depend on the steps -/

@[simp] theorem rule?_withProofs (ref : RuleRef) :
    (D.withProofs proofs).rule? ref = D.rule? ref := by
  cases ref <;> rfl

theorem hasSignature_withProofs {scope : List Variable} {limit : Option Ref} {f : Formula}
    {s : Signature} (h : f.HasSignature D scope limit s) :
    f.HasSignature (D.withProofs proofs) scope limit s :=
  h.mono (fun _ _ hc => hc) fun _ _ hd => hd

/-- The first proof of a theorem is found by the theorems of the proofs alone. -/
theorem firstProof?_eq (D : Directory) (ref : Ref) :
    D.firstProof? ref = (D.proofs.map Proof.theoremRef).findIdx? (· == ref) := by
  rw [List.findIdx?_map]
  rfl

/-- Whatever was established stays so when proofs get other steps. -/
theorem extends_withProofs
    (hproofs : proofs.map Proof.theoremRef = D.proofs.map Proof.theoremRef) :
    D.Extends (D.withProofs proofs) where
  system? := id
  type? := id
  symbol? := id
  definition? := id
  rule? := by
    intro ref rule hrule
    rw [rule?_withProofs]
    exact hrule
  firstProof? := by
    intro ref first hfirst
    rw [firstProof?_eq] at hfirst ⊢
    rw [← hfirst, ← hproofs]
    rfl

end Directory

section

variable {D : Directory} {proofs : List Proof}
  (hproofs : proofs.map Proof.theoremRef = D.proofs.map Proof.theoremRef)

include hproofs

theorem Proves.withProofs {citing : Ref} {goal : Rule} {steps : List Step}
    (h : Proves D citing goal steps) : Proves (D.withProofs proofs) citing goal steps :=
  (Directory.extends_withProofs hproofs).proves h

/-- An elementary step that may stand where it stands is accepted. -/
theorem Step.Elementary.accepted_withProofs {goal : Rule} {citing : Ref} {step : Step}
    (h : step.Elementary D goal) (hpermitted : step.Permitted D citing) :
    step.Accepted (D.withProofs proofs) goal citing :=
  (Directory.extends_withProofs hproofs).accepted
    (Step.accepted_iff.mpr ⟨h.formula, h.resolves, hpermitted⟩)

end

/-! ## Expanded directories -/

namespace Directory

variable {D : Directory} {proofs : List Proof}

/-- A directory stays verified under other proofs whose steps are accepted. -/
theorem Verified.withProofs (h : D.Verified)
    (hproof : ∀ (n : Nat) (p : Proof), proofs[n]? = some p →
      ∃ goal, D.rule? (.ofTheorem p.theoremRef) = some goal ∧
        ∀ step ∈ p.steps, step.Accepted (D.withProofs proofs) goal n) :
    (D.withProofs proofs).Verified where
  declared := ⟨h.declared.types, h.declared.symbols, h.declared.definitions, h.declared.rules,
    h.declared.laws⟩
  typed := by
    intro n d hn
    obtain ⟨s, hs⟩ := h.typed n d hn
    exact ⟨s, hasSignature_withProofs hs⟩
  rule := by
    intro ref rule hrule
    rw [rule?_withProofs] at hrule
    obtain ⟨hpremises, s, hs⟩ := h.rule hrule
    refine ⟨fun p hp => ?_, s, hasSignature_withProofs hs⟩
    obtain ⟨t, ht⟩ := hpremises p hp
    exact ⟨t, hasSignature_withProofs ht⟩
  proof := by
    intro n p hn
    obtain ⟨goal, hgoal, hsteps⟩ := hproof n p hn
    exact ⟨goal, by rw [rule?_withProofs]; exact hgoal, hsteps⟩

variable {chains : List (Ref × Chains)}

theorem getElem?_proofs_expandMacros {n : Nat} {p : Proof} :
    (D.expandMacros chains).proofs[n]? = some p ↔
      ∃ q, D.proofs[n]? = some q ∧ p = { q with steps := expandedSteps chains n q } := by
  show (D.proofs.zipIdx.map _)[n]? = some p ↔ _
  rw [List.getElem?_map, List.getElem?_zipIdx, Option.map_map, Option.map_eq_some_iff]
  simp only [Function.comp_apply, Nat.zero_add, eq_comm]

theorem theoremRefs_expandMacros (D : Directory) (chains : List (Ref × Chains)) :
    (D.expandMacros chains).proofs.map Proof.theoremRef = D.proofs.map Proof.theoremRef :=
  calc (D.expandMacros chains).proofs.map Proof.theoremRef
    _ = (D.proofs.zipIdx.map Prod.fst).map Proof.theoremRef := by
      rw [expandMacros, withProofs, List.map_map, List.map_map]
      rfl
    _ = D.proofs.map Proof.theoremRef := by rw [List.zipIdx_map_fst]

/-- **Macro elimination.**  With its macros replaced by what was synthesized for them, a valid
directory is valid, has no macro left, and proves the same theorems in the same order. -/
theorem expandMacros_isValid {result : CheckResult} (hcheck : D.check = .ok result)
    (hvalid : result.isValid = true) :
    (∃ result', (D.expandMacros result.chains).check = .ok result' ∧ result'.isValid = true) ∧
      (∀ p ∈ (D.expandMacros result.chains).proofs, ∀ step ∈ p.steps,
        step.justification.isMacro = false) ∧
      (D.expandMacros result.chains).theorems = D.theorems ∧
      (D.expandMacros result.chains).proofs.map Proof.theoremRef =
        D.proofs.map Proof.theoremRef := by
  have hD := verified_of_isValid hcheck hvalid
  have hrefs := theoremRefs_expandMacros D result.chains
  -- what the proof at a position has become, and what is known of its steps
  have hproof : ∀ (n : Nat) (p : Proof), (D.expandMacros result.chains).proofs[n]? = some p →
      ∃ goal, D.rule? (.ofTheorem p.theoremRef) = some goal ∧
        (∀ e ∈ p.steps, e.Elementary D goal) ∧ Proves D n goal p.steps := by
    intro n p hn
    obtain ⟨q, hq, rfl⟩ := getElem?_proofs_expandMacros.mp hn
    exact proves_of_isValid hcheck hvalid hq
  have hverified : (D.expandMacros result.chains).Verified := by
    refine hD.withProofs fun n p hn => ?_
    obtain ⟨goal, hgoal, helementary, hproves⟩ := hproof n p hn
    refine ⟨goal, hgoal, fun step hstep => ?_⟩
    exact (helementary step hstep).accepted_withProofs hrefs
      (hproves.derives.permitted step hstep)
  refine ⟨hverified.isValid_of_proves fun n p hn => ?_, fun p hp step hstep => ?_, rfl, hrefs⟩
  · obtain ⟨goal, hgoal, helementary, hproves⟩ := hproof n p hn
    refine ⟨fun step hstep => (helementary step hstep).isMacro, fun goal' hgoal' => ?_⟩
    have heq : D.rule? (.ofTheorem p.theoremRef) = some goal' := hgoal'
    rw [hgoal] at heq
    cases heq
    exact hproves.withProofs hrefs
  · obtain ⟨n, hn⟩ := List.mem_iff_getElem?.mp hp
    obtain ⟨goal, -, helementary, -⟩ := hproof n p hn
    exact (helementary step hstep).isMacro

/-- The sample directory has a macro step, which stands for the two steps synthesized for it and one
by definition. -/
theorem expandMacros_sample :
    Sample.directory.check = .ok Sample.result ∧ Sample.result.isValid = true ∧
      (∃ result', (Sample.directory.expandMacros Sample.result.chains).check = .ok result' ∧
        result'.isValid = true) ∧
      (Sample.directory.expandMacros Sample.result.chains).proofs.map
        (fun p => p.steps.length) = [4, 3] :=
  ⟨Sample.check_directory, Sample.isValid_result,
    (expandMacros_isValid Sample.check_directory Sample.isValid_result).1, by rfl⟩

end Directory

end Deduction
