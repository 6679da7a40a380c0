import Deduction.Proofs.Derivation

/-!
# Checking always gives a result

The first phase guards the second.  A directory that does not pass the first phase is answered with
what is wrong with it, and in one that does, every proof can be checked: none of the conditions that
the second phase takes for granted can fail.  So `Directory.check` gives a result on every directory
whatever, with references that lead nowhere, definitions in a circle, or formulas without signatures.

The proofs are checked one by one, and the derivations are put together into one list of errors and
one table of chains.  `Laws.Collects` says how the whole is related to its parts, once for every
property of single proofs.

* `Laws.yields_checkProofs`: from single proofs to all of them.
* `Laws.positions_of_checkProofs`: what errors and chains are about.
* `Directory.Verified.yields_checkProofAt`: every proof of a verified directory can be checked.
* `Directory.exists_check_eq_ok`: checking gives a result.
* `Directory.proves_of_isValid`, `Directory.Verified.isValid_of_proves`: what it means to be valid.
-/

namespace Deduction

/-! ## All proofs -/

namespace Laws

variable {laws : Laws}

/-- What was found of proofs, counted from `index`, of each of which something is known. -/
structure Collects (Q : Nat → Derivation → Prop) (index count : Nat)
    (r : List Error × List (Ref × Chains)) : Prop where
  positions : ∀ n : Nat, n < index → r.2.lookup (n : Int) = none
  proof : ∀ n, index ≤ n → n < index + count → ∃ d, Q n d ∧
    (r.2.lookup (n : Int)).getD [] = d.chains ∧ (r.1 = [] → d.errors = [])
  valid : (∀ n d, index ≤ n → n < index + count → Q n d → d.errors = []) → r.1 = []

/-- **What holds of every proof holds of all of them together.** -/
theorem yields_checkProofs {Q : Nat → Derivation → Prop} {index : Nat} {proofs : List Proof}
    (h : ∀ n : Nat, index ≤ n → n < index + proofs.length → Yields (laws.checkProofAt n) (Q n)) :
    Yields (laws.checkProofs index proofs) (Collects Q index proofs.length) := by
  induction proofs generalizing index with
  | nil =>
    refine .pure ⟨fun n _ => rfl, fun n hle hlt => ?_, fun _ => rfl⟩
    rw [List.length_nil] at hlt
    omega
  | cons proof proofs ih =>
    rw [List.length_cons] at h ⊢
    rw [checkProofs]
    refine (h index (Nat.le_refl index) (by omega)).bind fun d hd => ?_
    refine (ih fun n hle hlt => h n (by omega) (by omega)).bind fun rest hrest => .pure ?_
    -- a proof without chains has no entry, and is read back as having none
    have hentry : (if d.chains.isEmpty then [] else [((index : Int), d.chains)]) =
        ((if d.chains.isEmpty then none else some d.chains).map
          fun c => ((index : Int), c)).toList := by
      split <;> rfl
    have hread : (if d.chains.isEmpty then none else some d.chains).getD [] = d.chains := by
      split
      · next hempty => exact (List.isEmpty_iff.mp hempty).symm
      · rfl
    refine ⟨fun n hn => ?_, fun n hle hlt => ?_, fun hvalid => ?_⟩
    · dsimp only
      rw [hentry, lookup_recorded, if_neg (by omega)]
      exact hrest.positions n (by omega)
    · dsimp only
      rw [hentry, lookup_recorded, List.append_eq_nil_iff]
      by_cases hn : n = index
      · subst hn
        refine ⟨d, hd, ?_, And.left⟩
        rw [if_pos rfl, hrest.positions n (by omega), Option.or_none]
        exact hread
      · rw [if_neg hn]
        obtain ⟨d', hd', hchains, herrors⟩ := hrest.proof n (by omega) (by omega)
        exact ⟨d', hd', hchains, fun hnil => herrors hnil.2⟩
    · refine List.append_eq_nil_iff.mpr ⟨hvalid index d (Nat.le_refl index) (by omega) hd, ?_⟩
      exact hrest.valid fun n d' hle hlt => hvalid n d' (by omega) (by omega)

end Laws

/-! ## What errors are about -/

namespace Laws

variable {laws : Laws} {citing : Ref}

theorem subject_of_mem_checkSteps {premises facts : List Formula} {index : Nat} {steps : List Step}
    {d : Derivation} (h : laws.checkSteps citing premises index facts steps = .ok d) {e : Error}
    (he : e ∈ d.errors) : e.subject.kind = .proof ∧ e.subject.index = citing := by
  induction steps generalizing index facts d with
  | nil =>
    cases h
    cases he
  | cons step steps ih =>
    rw [checkSteps] at h
    obtain ⟨outcome, -, h⟩ := bind_eq_ok.mp h
    obtain ⟨rest, hrest, h⟩ := bind_eq_ok.mp h
    cases h
    rcases List.mem_append.mp he with he | he
    · obtain ⟨found, -, rfl⟩ := List.mem_map.mp he
      exact ⟨rfl, rfl⟩
    · exact ih hrest he

theorem subject_of_mem_conclusionErrors {assertion : Formula} {steps : List Step}
    {errors : List Error} (h : laws.conclusionErrors citing assertion steps = .ok errors)
    {e : Error} (he : e ∈ errors) : e.subject.kind = .proof ∧ e.subject.index = citing := by
  rw [conclusionErrors] at h
  split at h
  · cases h
    rw [List.mem_singleton.mp he]
    exact ⟨rfl, rfl⟩
  · obtain ⟨fits, -, h⟩ := bind_eq_ok.mp h
    cases h
    cases fits with
    | true => cases he
    | false =>
      rw [List.mem_singleton.mp he]
      exact ⟨rfl, rfl⟩

/-- The errors that are found in a proof are about that proof. -/
theorem subject_of_mem_checkProofAt {ref : Ref} {d : Derivation}
    (h : laws.checkProofAt ref = .ok d) {e : Error} (he : e ∈ d.errors) :
    e.subject.kind = .proof ∧ e.subject.index = ref := by
  rw [checkProofAt] at h
  split at h
  · cases h
  · split at h
    · cases h
    · obtain ⟨derivation, hsteps, h⟩ := bind_eq_ok.mp h
      obtain ⟨conclusion, hconclusion, h⟩ := bind_eq_ok.mp h
      cases h
      rcases List.mem_append.mp he with he | he
      · exact subject_of_mem_checkSteps hsteps he
      · exact subject_of_mem_conclusionErrors hconclusion he

/-- Checking so many proofs, the errors and the chains are about them. -/
theorem positions_of_checkProofs {index : Nat} {proofs : List Proof}
    {r : List Error × List (Ref × Chains)} (h : laws.checkProofs index proofs = .ok r) :
    (∀ e ∈ r.1, e.subject.kind = .proof ∧ ∃ n : Nat, e.subject.index = n ∧
      index ≤ n ∧ n < index + proofs.length) ∧
    ∀ c ∈ r.2, ∃ n : Nat, c.1 = n ∧ index ≤ n ∧ n < index + proofs.length := by
  induction proofs generalizing index r with
  | nil =>
    cases h
    exact ⟨List.forall_mem_nil _, List.forall_mem_nil _⟩
  | cons proof proofs ih =>
    rw [checkProofs] at h
    obtain ⟨d, hd, h⟩ := bind_eq_ok.mp h
    obtain ⟨rest, hrest, h⟩ := bind_eq_ok.mp h
    cases h
    obtain ⟨herrors, hchains⟩ := ih hrest
    rw [List.length_cons]
    constructor
    · intro e he
      rcases List.mem_append.mp he with he | he
      · obtain ⟨hkind, hindex⟩ := subject_of_mem_checkProofAt hd he
        exact ⟨hkind, index, hindex, Nat.le_refl index, by omega⟩
      · obtain ⟨hkind, n, hindex, hle, hlt⟩ := herrors e he
        exact ⟨hkind, n, hindex, by omega, by omega⟩
    · intro c hc
      rcases List.mem_append.mp hc with hc | hc
      · split at hc
        · cases hc
        · rw [List.mem_singleton.mp hc]
          exact ⟨index, rfl, Nat.le_refl index, by omega⟩
      · obtain ⟨n, hindex, hle, hlt⟩ := hchains c hc
        exact ⟨n, hindex, by omega, by omega⟩

end Laws

/-! ## Verified directories -/

namespace Directory

variable {D : Directory}

/-- What holds of the outcome of the proof at a position. -/
def FaithfulAt (D : Directory) (n : Nat) (d : Derivation) : Prop :=
  ∃ p goal, D.proofs[n]? = some p ∧ D.rule? (.ofTheorem p.theoremRef) = some goal ∧
    Laws.FaithfulProof ⟨D, D.verify.registry⟩ n goal p.steps d

theorem Verified.yields_checkProofAt (h : D.Verified) {n : Nat} (hn : n < D.proofs.length) :
    Yields (Laws.checkProofAt ⟨D, D.verify.registry⟩ n) (D.FaithfulAt n) := by
  have hp : D.proofs[n]? = some D.proofs[n] := List.getElem?_eq_getElem hn
  obtain ⟨goal, hgoal, hsteps⟩ := h.proof hp
  have hproof : D.proof? n = some D.proofs[n] := hp
  rw [Laws.checkProofAt]
  dsimp only
  rw [hproof]
  dsimp only
  rw [hgoal]
  refine (h.backed.yields_checkProof h.typed (h.rule hgoal) hsteps).mono fun d hd => ?_
  exact ⟨D.proofs[n], goal, hp, hgoal, hd⟩

/-- **The proofs of a verified directory can all be checked.** -/
theorem Verified.yields_checkProofs (h : D.Verified) :
    Yields (Laws.checkProofs ⟨D, D.verify.registry⟩ 0 D.proofs)
      (Laws.Collects D.FaithfulAt 0 D.proofs.length) := by
  refine Laws.yields_checkProofs fun n _ hlt => h.yields_checkProofAt ?_
  omega

theorem check_of_errors (h : D.verify.errors ≠ []) :
    D.check = .ok ⟨D.verify.errors, .verify, D.verify.registry, []⟩ := by
  rw [check]
  simp [h]

theorem Verified.check_eq (h : D.Verified) :
    D.check = (do
      let checked ← Laws.checkProofs ⟨D, D.verify.registry⟩ 0 D.proofs
      return ⟨checked.1, .check, D.verify.registry, checked.2⟩) := by
  rw [check, verify_errors_eq_nil_iff.mpr h]
  rfl

/-- What a verified directory is answered with. -/
theorem Verified.yields_check (h : D.Verified) :
    Yields D.check fun result => result.phase = .check ∧
      result.registry = D.verify.registry ∧
      Laws.Collects D.FaithfulAt 0 D.proofs.length (result.errors, result.chains) := by
  rw [h.check_eq]
  exact h.yields_checkProofs.bind fun checked hchecked => .pure ⟨rfl, rfl, hchecked⟩

/-- **The first phase guards the second.**  Checking gives a result on every directory, the second
phase is entered exactly if the first one found nothing, and going deeper than the number of
definitions when signatures of expansions are looked up makes no difference. -/
theorem exists_check_eq_ok (D : Directory) :
    (∃ result, D.check = .ok result ∧ (result.phase = .check ↔ D.verify.errors = [])) ∧
      ∀ extra, D.bodySignatureWithin (D.definitions.length + extra) = D.bodySignature := by
  refine ⟨?_, fun extra => bodySignatureWithin_of_length_le (Nat.le_add_right _ extra)⟩
  by_cases h : D.verify.errors = []
  · obtain ⟨result, hresult, hphase, -⟩ := (verify_errors_eq_nil_iff.mp h).yields_check
    exact ⟨result, hresult, iff_of_true hphase h⟩
  · refine ⟨_, check_of_errors h, ?_⟩
    simp [h]

/-! ## Valid directories -/

variable {result : CheckResult}

/-- A valid directory is verified. -/
theorem verified_of_isValid (h : D.check = .ok result) (hvalid : result.isValid = true) :
    D.Verified := by
  by_contra hD
  have herrors := mt verify_errors_eq_nil_iff.mp hD
  rw [check_of_errors herrors] at h
  cases h
  exact herrors (List.isEmpty_iff.mp hvalid)

/-- The steps that the proof at a position stands for, given what was synthesized. -/
def expandedSteps (chains : List (Ref × Chains)) (n : Nat) (p : Proof) : List Step :=
  ((chains.lookup (n : Int)).getD []).expand 0 p.steps

/-- **Every proof of a valid directory proves its theorem**, once its macros are expanded. -/
theorem proves_of_isValid (h : D.check = .ok result) (hvalid : result.isValid = true) {n : Nat}
    {p : Proof} (hp : D.proofs[n]? = some p) :
    ∃ goal, D.rule? (.ofTheorem p.theoremRef) = some goal ∧
      (∀ e ∈ expandedSteps result.chains n p, e.Elementary D goal) ∧
      Proves D n goal (expandedSteps result.chains n p) := by
  have hlt := (List.getElem?_eq_some_iff.mp hp).1
  obtain ⟨-, -, hcollects⟩ := (verified_of_isValid h hvalid).yields_check.apply h
  obtain ⟨d, ⟨p', goal, hp', hgoal, hd⟩, hchains, herrors⟩ :=
    hcollects.proof n (Nat.zero_le n) (by omega)
  rw [hp] at hp'
  cases hp'
  rw [expandedSteps]
  rw [show (result.chains.lookup (n : Int)).getD [] = d.chains from hchains]
  exact ⟨goal, hgoal, hd.elementary, hd.proves (herrors (List.isEmpty_iff.mp hvalid))⟩

/-- A verified directory without macros whose steps prove what they should is valid. -/
theorem Verified.isValid_of_proves (h : D.Verified)
    (hproofs : ∀ (n : Nat) (p : Proof), D.proofs[n]? = some p →
      (∀ step ∈ p.steps, step.justification.isMacro = false) ∧
      ∀ goal, D.rule? (.ofTheorem p.theoremRef) = some goal → Proves D n goal p.steps) :
    ∃ result, D.check = .ok result ∧ result.isValid = true := by
  obtain ⟨result, hresult, -, -, hcollects⟩ := h.yields_check
  refine ⟨result, hresult, List.isEmpty_iff.mpr (hcollects.valid fun n d _ _ hd => ?_)⟩
  obtain ⟨p, goal, hp, hgoal, hd⟩ := hd
  obtain ⟨hkind, hproves⟩ := hproofs n p hp
  exact hd.complete hkind (hproves goal hgoal)

end Directory

end Deduction
