import Deduction.Proofs.Renaming
import Deduction.Proofs.Soundness
import Mathlib.Data.Prod.Basic

/-!
# The order of declarations

Axioms and theorems may be declared in any order.  If the axioms of a directory are permuted, and
the theorems, and all references to them are changed accordingly, then the directory is valid if and
only if it was, and a valid one has the same laws and the same synthesized chains, up to the
references.  The order of the proofs is not touched: it decides which theorems may be cited where.
Nor is that of the definitions, which may only use earlier ones.

For a directory that is not valid nothing is said about what is reported.  If two rules ask for the
same place of the registry, it is always the second one that is refused.

* `Directory.RenamedTo.verified`, `Directory.RenamedTo.exists_check`: the two phases on directories
  with their rules renamed.
* `Directory.reorder`: permuted axioms and theorems.
* `Directory.check_reorder`: the order of declarations does not matter.
-/

namespace Deduction

/-! ## The first phase -/

namespace Directory

theorem nodup_rules (D : Directory) : D.rules.Nodup := List.Nodup.of_map Prod.fst D.nodup_refs

variable {ρ : Renaming} {D D' : Directory}

/-- The rules are the same, in some order. -/
theorem RenamedTo.perm_rules (h : D.RenamedTo ρ D') :
    (D.rules.map (Prod.map ρ.rule id)).Perm D'.rules := by
  have hinjective : Function.Injective (Prod.map ρ.rule (id : Rule → Rule)) :=
    Function.Injective.prodMap ρ.rule_injective Function.injective_id
  rw [List.perm_ext_iff_of_nodup (D.nodup_rules.map hinjective) D'.nodup_rules]
  rintro ⟨ref, rule⟩
  rw [mem_rules_iff, List.mem_map, ← h.symm.rule?]
  constructor
  · rintro ⟨⟨ref', rule'⟩, hmem, heq⟩
    cases heq
    rw [ρ.symm_rule_rule]
    exact mem_rules_iff.mp hmem
  · intro hrule
    exact ⟨(ρ.symm.rule ref, rule), mem_rules_iff.mpr hrule, by simp⟩

section

variable (h : D.RenamedTo ρ D')

include h

theorem RenamedTo.systemFaults (ref : Ref) : D'.systemFaults ref = D.systemFaults ref := by
  rw [Directory.systemFaults, Directory.systemFaults, system?, system?, h.systems]

theorem RenamedTo.signatureFaults (s : Signature) :
    D'.signatureFaults s = D.signatureFaults s := by
  simp only [Directory.signatureFaults, type?, h.types]

theorem RenamedTo.scopeFaults (scope : List Variable) :
    D'.scopeFaults scope = D.scopeFaults scope := by
  simp only [Directory.scopeFaults, h.signatureFaults]

theorem RenamedTo.hasSignature {scope : List Variable} {limit : Option Ref} {f : Formula}
    {s : Signature} (hs : f.HasSignature D scope limit s) : f.HasSignature D' scope limit s := by
  refine hs.mono (fun ref c hc => ?_) (fun ref d hd => ?_)
  · rw [symbol?, h.symbols]
    exact hc
  · rw [definition?, h.definitions]
    exact hd

theorem RenamedTo.justificationFault? (count : Nat) (citing : Ref) (j : Justification) :
    D'.justificationFault? count citing (ρ.justification j) =
      D.justificationFault? count citing j := by
  cases j with
  | rule ref =>
    have hrule := h.rule? ref
    cases ref with
    | ofAxiom ref =>
      rw [Renaming.justification, Renaming.rule, Directory.justificationFault?,
        Directory.justificationFault?, ← hrule]
      rfl
    | ofTheorem ref =>
      rw [Renaming.justification, Renaming.rule, Directory.justificationFault?,
        Directory.justificationFault?, ← hrule, h.citationFault?]
      rfl
  | hypothesis | definition | functionApplication | substitution => rfl

/-- **A directory with its rules renamed is verified if the directory is.** -/
theorem RenamedTo.verified (hD : D.Verified) : D'.Verified where
  declared := by
    refine ⟨?_, ?_, ?_, ?_, (Registry.ofRules_perm h.perm_rules hD.declared.laws).1⟩
    · simp only [h.types, h.systemFaults]
      exact hD.declared.types
    · simp only [h.symbols, h.systemFaults, h.signatureFaults]
      exact hD.declared.symbols
    · simp only [h.definitions, h.systemFaults, h.scopeFaults]
      exact hD.declared.definitions
    · intro r' hr'
      obtain ⟨r, hr, rfl⟩ := List.mem_map.mp (h.perm_rules.mem_iff.mpr hr')
      rw [h.systemFaults, h.scopeFaults]
      exact hD.declared.rules r hr
  typed := by
    intro n d hd
    rw [h.definitions] at hd
    obtain ⟨s, hs⟩ := hD.typed n d hd
    exact ⟨s, h.hasSignature hs⟩
  rule := by
    intro ref rule hrule
    rw [← h.symm.rule?] at hrule
    obtain ⟨hpremises, s, hs⟩ := hD.rule hrule
    refine ⟨fun p hp => ?_, s, h.hasSignature hs⟩
    obtain ⟨t, ht⟩ := hpremises p hp
    exact ⟨t, h.hasSignature ht⟩
  proof := by
    intro n p hn
    rw [h.proofs, List.getElem?_map, Option.map_eq_some_iff] at hn
    obtain ⟨q, hq, rfl⟩ := hn
    obtain ⟨goal, hgoal, hsteps⟩ := hD.proof hq
    refine ⟨goal, (h.rule? (.ofTheorem q.theoremRef)).trans hgoal, fun step' hstep' => ?_⟩
    obtain ⟨step, hstep, rfl⟩ := List.mem_map.mp hstep'
    obtain ⟨⟨s, hs⟩, hjustification⟩ := hsteps step hstep
    refine ⟨⟨s, h.hasSignature hs⟩, ?_⟩
    exact (h.justificationFault? _ _ step.justification).trans hjustification

/-- The registries of verified directories. -/
theorem RenamedTo.registry (hD : D.Verified) :
    D.verify.registry.RenamedTo ρ.rule D'.verify.registry := by
  have hrules := soundRules_eq_rules hD.ruleFaults
  have hrules' := soundRules_eq_rules (h.verified hD).ruleFaults
  rw [verify, verify, hrules, hrules']
  exact (Registry.ofRules_perm h.perm_rules hD.declared.laws).2

/-- **What checking verified directories gives.**  The errors are the same, and so are the chains, up
to the references in them. -/
theorem RenamedTo.exists_check (hD : D.Verified) : ∃ checked : List Error × List (Ref × Chains),
    D.check = .ok ⟨checked.1, .check, D.verify.registry, checked.2⟩ ∧
      D'.check = .ok ⟨checked.1, .check, D'.verify.registry, ρ.allChains checked.2⟩ := by
  have hlaws : Laws.RenamedTo ρ ⟨D, D.verify.registry⟩ ⟨D', D'.verify.registry⟩ :=
    ⟨h, h.registry hD⟩
  obtain ⟨checked, hchecked, -⟩ := hD.yields_checkProofs
  have hchecked' := hlaws.checkProofs 0 D.proofs checked hchecked
  rw [← h.proofs] at hchecked'
  rw [hD.check_eq, (h.verified hD).check_eq, hchecked, hchecked']
  exact ⟨checked, rfl, rfl⟩

end

end Directory

/-! ## Permuted declarations -/

section

variable {α : Type} {n : Nat}

/-- Where a permutation of the first positions moves a reference.  References that lead nowhere stay
what they are. -/
def moved (π : Equiv.Perm (Fin n)) : Ref → Ref
  | .ofNat m => if hm : m < n then ((π ⟨m, hm⟩ : Fin n) : Nat) else m
  | .negSucc m => .negSucc m

theorem moved_of_lt (π : Equiv.Perm (Fin n)) (i : Fin n) :
    moved π (i : Nat) = ((π i : Fin n) : Nat) :=
  dif_pos i.isLt

theorem moved_of_le (π : Equiv.Perm (Fin n)) {m : Nat} (hm : n ≤ m) : moved π (m : Nat) = m :=
  dif_neg (Nat.not_lt.mpr hm)

theorem moved_symm_moved (π : Equiv.Perm (Fin n)) (ref : Ref) :
    moved π.symm (moved π ref) = ref := by
  cases ref with
  | ofNat m =>
    show moved π.symm (moved π (m : Nat)) = m
    by_cases hm : m < n
    · have hi := moved_of_lt π ⟨m, hm⟩
      rw [hi, moved_of_lt, π.symm_apply_apply]
    · rw [moved_of_le π (Nat.not_lt.mp hm), moved_of_le π.symm (Nat.not_lt.mp hm)]
  | negSucc m => rfl

/-- The permutation of references. -/
def movedRefs (π : Equiv.Perm (Fin n)) : Equiv.Perm Ref where
  toFun := moved π
  invFun := moved π.symm
  left_inv := moved_symm_moved π
  right_inv := moved_symm_moved π.symm

/-- A list with the entry of each position moved. -/
def permuted (items : List α) (π : Equiv.Perm (Fin items.length)) : List α :=
  List.ofFn fun i => items.get (π.symm i)

theorem itemAt?_permuted (items : List α) (π : Equiv.Perm (Fin items.length)) (ref : Ref) :
    itemAt? (permuted items π) (moved π ref) = itemAt? items ref := by
  cases ref with
  | ofNat m =>
    show itemAt? (permuted items π) (moved π (m : Nat)) = items[m]?
    by_cases hm : m < items.length
    · have hi := moved_of_lt π ⟨m, hm⟩
      rw [hi, itemAt?_ofNat, permuted, List.getElem?_ofFn, dif_pos (π ⟨m, hm⟩).isLt]
      simp
    · have hlength : (permuted items π).length ≤ m := by
        rw [permuted, List.length_ofFn]
        exact Nat.not_lt.mp hm
      rw [moved_of_le π (Nat.not_lt.mp hm), itemAt?_ofNat, List.getElem?_eq_none hlength,
        List.getElem?_eq_none (Nat.not_lt.mp hm)]
  | negSucc m => rfl

end

/-- The renaming that goes with permutations of the axioms and of the theorems. -/
def Renaming.ofPerms {m n : Nat} (π : Equiv.Perm (Fin m)) (τ : Equiv.Perm (Fin n)) : Renaming :=
  ⟨movedRefs π, movedRefs τ⟩

namespace Directory

/-- The directory with its axioms and its theorems permuted, and with every reference to them in the
proofs changed accordingly. -/
def reorder (D : Directory) (π : Equiv.Perm (Fin D.axioms.length))
    (τ : Equiv.Perm (Fin D.theorems.length)) : Directory :=
  { D with
    axioms := permuted D.axioms π
    theorems := permuted D.theorems τ
    proofs := D.proofs.map (Renaming.ofPerms π τ).proof }

theorem renamedTo_reorder (D : Directory) (π : Equiv.Perm (Fin D.axioms.length))
    (τ : Equiv.Perm (Fin D.theorems.length)) :
    D.RenamedTo (.ofPerms π τ) (D.reorder π τ) where
  systems := rfl
  types := rfl
  symbols := rfl
  definitions := rfl
  rule? := by
    intro ref
    cases ref with
    | ofAxiom ref => exact itemAt?_permuted D.axioms π ref
    | ofTheorem ref => exact itemAt?_permuted D.theorems τ ref
  proofs := rfl

/-- **The order in which axioms and theorems are declared does not matter.**  A directory is valid
exactly if it is valid with its axioms and its theorems permuted.  Then the same heads have laws,
the same laws up to the references, and the same chains were synthesized, up to the references in
their steps. -/
theorem check_reorder (D : Directory) (π : Equiv.Perm (Fin D.axioms.length))
    (τ : Equiv.Perm (Fin D.theorems.length)) :
    ∃ result result', D.check = .ok result ∧ (D.reorder π τ).check = .ok result' ∧
      result'.isValid = result.isValid ∧ (result.isValid = true →
        result.registry.RenamedTo (Renaming.ofPerms π τ).rule result'.registry ∧
        result'.chains = (Renaming.ofPerms π τ).allChains result.chains) := by
  have h := D.renamedTo_reorder π τ
  by_cases hD : D.Verified
  · obtain ⟨checked, hcheck, hcheck'⟩ := h.exists_check hD
    exact ⟨_, _, hcheck, hcheck', rfl, fun _ => ⟨h.registry hD, rfl⟩⟩
  · -- neither of them passes the first phase, since renaming can be undone
    have herrors : D.verify.errors ≠ [] := mt verify_errors_eq_nil_iff.mp hD
    have herrors' : (D.reorder π τ).verify.errors ≠ [] :=
      fun hnil => hD (h.symm.verified (verify_errors_eq_nil_iff.mp hnil))
    refine ⟨_, _, check_of_errors herrors, check_of_errors herrors', ?_, fun hvalid => ?_⟩
    · rw [CheckResult.isValid, CheckResult.isValid, List.isEmpty_eq_false_iff.mpr herrors,
        List.isEmpty_eq_false_iff.mpr herrors']
    · exact absurd (List.isEmpty_iff.mp hvalid) herrors

/-- The sample directory with its declarations reversed: the congruence law comes before the laws
that make its relation a preorder, and the synthesized steps cite it as the first axiom. -/
theorem check_reorder_sample :
    ∃ result, (Sample.directory.reorder ⟨Fin.rev, Fin.rev, Fin.rev_rev, Fin.rev_rev⟩
        ⟨Fin.rev, Fin.rev, Fin.rev_rev, Fin.rev_rev⟩).check = .ok result ∧
      result.isValid = true ∧
      result.registry.congruence? (.symbol 1) (.symbol 0) = some (.ofAxiom 0) ∧
      result.chains.map (fun p => p.2.map fun s => s.2.map Step.justification) =
        [[[.rule (.ofAxiom 0), .rule (.ofAxiom 0)]]] := by
  obtain ⟨result, result', hresult, hresult', hvalid, hsame⟩ :=
    check_reorder Sample.directory ⟨Fin.rev, Fin.rev, Fin.rev_rev, Fin.rev_rev⟩
      ⟨Fin.rev, Fin.rev, Fin.rev_rev, Fin.rev_rev⟩
  rw [Sample.check_directory] at hresult
  cases hresult
  obtain ⟨hregistry, hchains⟩ := hsame Sample.isValid_result
  refine ⟨result', hresult', hvalid.trans Sample.isValid_result, ?_, ?_⟩
  · exact hregistry.slot (.symbol 1) (.congruence (.symbol 0))
  · rw [hchains]
    rfl

end Directory

end Deduction
