import Deduction.Proofs.Registry
import Deduction.Proofs.Typing.Relation
import Mathlib.Data.List.Nodup

/-!
# What the first phase establishes

A directory passes the first phase exactly if it is `Verified`: its declarations are in order,
every definition has a signature, the premises and the assertion of every rule have one in the scope
of the rule, and every step of every proof has one in the scope of the theorem and a justification
that makes sense where it stands.

The conditions that have nothing to do with formulas are kept together as `Declared`, since all that
matters about them later is that they do not look at proofs.

* `Directory.verify_errors_eq_nil_iff`: the first phase in terms of signatures.
* `mem_entityErrors_iff`, `Directory.subject_of_mem_proofErrors`: what errors are about.
* `Directory.citationFault?_eq_none_iff`: a theorem may be cited after its first proof.
* `Directory.Verified.backed`: every law of the registry is a rule of the directory.
-/

namespace Deduction

/-! ## Rules and positions -/

/-- Rules are the entries that references resolve to. -/
theorem Directory.mem_rules_iff {D : Directory} {ref : RuleRef} {rule : Rule} :
    (ref, rule) ∈ D.rules ↔ D.rule? ref = some rule := by
  rw [rules, List.mem_append, List.mem_map, List.mem_map]
  constructor
  · rintro (⟨⟨rule', n⟩, hn, heq⟩ | ⟨⟨rule', n⟩, hn, heq⟩)
    · cases heq
      exact List.mem_zipIdx_iff_getElem?.mp hn
    · cases heq
      exact List.mem_zipIdx_iff_getElem?.mp hn
  · intro h
    cases ref with
    | ofAxiom index =>
      obtain ⟨n, rfl, hn⟩ := itemAt?_eq_some_iff.mp h
      exact Or.inl ⟨(rule, n), List.mem_zipIdx_iff_getElem?.mpr hn, rfl⟩
    | ofTheorem index =>
      obtain ⟨n, rfl, hn⟩ := itemAt?_eq_some_iff.mp h
      exact Or.inr ⟨(rule, n), List.mem_zipIdx_iff_getElem?.mpr hn, rfl⟩

/-- No reference is used twice. -/
theorem Directory.nodup_refs (D : Directory) : (D.rules.map Prod.fst).Nodup := by
  have hpositions : ∀ (items : List Rule) (f : Int → RuleRef), Function.Injective f →
      ((items.zipIdx.map fun r => (f r.2, r.1)).map Prod.fst).Nodup := by
    intro items f hf
    have hkeys : (items.zipIdx.map fun r => (f r.2, r.1)).map Prod.fst =
        (items.zipIdx.map Prod.snd).map (fun n : Nat => f n) := by
      rw [List.map_map, List.map_map]
      rfl
    rw [hkeys, List.zipIdx_map_snd]
    exact List.Nodup.map (fun m n heq => Int.ofNat.inj (hf heq)) List.nodup_range'
  rw [rules, List.map_append, List.nodup_append]
  refine ⟨hpositions D.axioms .ofAxiom fun _ _ => RuleRef.ofAxiom.inj,
    hpositions D.theorems .ofTheorem fun _ _ => RuleRef.ofTheorem.inj, ?_⟩
  intro a ha b hb heq
  subst heq
  simp only [List.map_map, List.mem_map] at ha hb
  obtain ⟨_, -, rfl⟩ := ha
  obtain ⟨_, -, heq⟩ := hb
  cases heq

theorem forall_mem_zipIdx_iff {α : Type} {items : List α} {Q : α × Nat → Prop} :
    (∀ e ∈ items.zipIdx, Q e) ↔ ∀ n a, items[n]? = some a → Q (a, n) := by
  constructor
  · intro h n a hn
    exact h (a, n) (List.mem_zipIdx_iff_getElem?.mpr hn)
  · rintro h ⟨a, n⟩ hn
    exact h n a (List.mem_zipIdx_iff_getElem?.mp hn)

/-- Nothing is reported about a list of entities exactly if nothing is wrong with any of them. -/
theorem entityErrors_eq_nil_iff {α : Type} {kind : SubjectKind} {faults : Nat → α → List Fault}
    {entities : List α} : entityErrors kind faults entities = [] ↔
      ∀ n e, entities[n]? = some e → faults n e = [] := by
  rw [entityErrors, List.flatMap_eq_nil_iff, forall_mem_zipIdx_iff]
  simp only [List.map_eq_nil_iff]

/-! ## What errors are about -/

theorem mem_entityErrors_iff {α : Type} {kind : SubjectKind} {faults : Nat → α → List Fault}
    {entities : List α} {error : Error} : error ∈ entityErrors kind faults entities ↔
      ∃ n e, entities[n]? = some e ∧
        ∃ fault ∈ faults n e, fault.toError .verify ⟨kind, n, none, none⟩ = error := by
  simp only [entityErrors, List.mem_flatMap, List.mem_map, Prod.exists,
    List.mem_zipIdx_iff_getElem?]
  exact exists_comm

/-- Rules are told apart by the subjects of their errors. -/
theorem RuleRef.subject_injective : Function.Injective RuleRef.subject := by
  intro ref other h
  cases ref <;> cases other <;> cases h <;> rfl

theorem Directory.subject_of_mem_stepErrors {D : Directory} {goal : Rule} {citing : Ref}
    {index : Nat} {steps : List Step} {error : Error}
    (h : error ∈ D.stepErrors goal citing index steps) :
    error.subject.kind = .proof ∧ error.subject.index = citing := by
  induction steps generalizing index with
  | nil => cases h
  | cons step steps ih =>
    rcases List.mem_append.mp h with hfirst | hrest
    · obtain ⟨fault, -, rfl⟩ := List.mem_map.mp hfirst
      exact ⟨rfl, rfl⟩
    · exact ih hrest

/-- The errors in the parts of a proof are about that proof. -/
theorem Directory.subject_of_mem_proofErrors {D : Directory} {ref : Ref} {p : Proof}
    {error : Error} (h : error ∈ D.proofErrors ref p) :
    error.subject.kind = .proof ∧ error.subject.index = ref := by
  rw [proofErrors] at h
  split at h
  · rw [List.mem_singleton] at h
    rw [h]
    exact ⟨rfl, rfl⟩
  · exact subject_of_mem_stepErrors h

/-! ## Citations -/

/-- A theorem may be cited exactly by the proofs after its first one. -/
theorem Directory.citationFault?_eq_none_iff {D : Directory} {ref citing : Ref} :
    D.citationFault? ref citing = none ↔
      ∃ first : Nat, D.firstProof? ref = some first ∧ (first : Int) < citing := by
  rw [citationFault?]
  cases h : D.firstProof? ref with
  | none => simp
  | some first =>
    simp only [Option.some.injEq, exists_eq_left']
    split
    · next heq => simp [heq]
    · next hne =>
      split
      · next hlt => simpa using Int.le_of_lt hlt
      · next hlt =>
        simp only [true_iff]
        exact Int.lt_iff_le_and_ne.mpr ⟨Int.not_lt.mp hlt, hne⟩

/-! ## Verified directories -/

/-- The premises and the assertion of a rule have signatures in its scope. -/
structure Rule.Typed (D : Directory) (rule : Rule) : Prop where
  premise : ∀ p ∈ rule.premises, ∃ s, p.HasSignature D rule.scope none s
  assertion : ∃ s, rule.assertion.HasSignature D rule.scope none s

/-- A step whose parts make sense in a proof of a theorem. -/
structure Step.Accepted (D : Directory) (goal : Rule) (citing : Ref) (step : Step) : Prop where
  formula : ∃ s, step.formula.HasSignature D goal.scope none s
  justification : D.justificationFault? goal.premises.length citing step.justification = none

/-- Nothing is wrong with a step that is accepted. -/
theorem Step.Accepted.stepFaults_eq_nil {D : Directory} {goal : Rule} {citing : Ref} {step : Step}
    (h : step.Accepted D goal citing) : D.stepFaults goal citing step = [] := by
  obtain ⟨⟨s, hs⟩, hjustification⟩ := h
  rw [Directory.stepFaults, Directory.formulaFaults_eq_nil_of_hasSignature hs, hjustification]
  rfl

namespace Directory

/-- What is checked of declarations besides their formulas. -/
structure Declared (D : Directory) : Prop where
  types : ∀ t ∈ D.types, D.systemFaults t.system = []
  symbols : ∀ c ∈ D.symbols, D.systemFaults c.system = [] ∧ D.signatureFaults c.signature = []
  definitions : ∀ d ∈ D.definitions, D.systemFaults d.system = [] ∧ D.scopeFaults d.inputs = []
  rules : ∀ r ∈ D.rules, D.systemFaults r.2.system = [] ∧ D.scopeFaults r.2.scope = [] ∧
    flagListFaults r.2.flags = []
  laws : (Registry.ofRules D.rules).1 = []

/-- A directory in which everything has the signature that it should have. -/
structure Verified (D : Directory) : Prop where
  declared : D.Declared
  typed : D.Typed
  rule : ∀ {ref : RuleRef} {rule : Rule}, D.rule? ref = some rule → rule.Typed D
  proof : ∀ {n : Nat} {p : Proof}, D.proofs[n]? = some p →
    ∃ goal, D.rule? (.ofTheorem p.theoremRef) = some goal ∧
      ∀ step ∈ p.steps, step.Accepted D goal n

variable {D : Directory}

/-- Nothing is wrong with a rule whose formulas have signatures and whose declaration is in order. -/
theorem ruleFaults_eq_nil {rule : Rule} (hdeclared : D.systemFaults rule.system = [] ∧
    D.scopeFaults rule.scope = [] ∧ flagListFaults rule.flags = []) (ht : rule.Typed D) :
    D.ruleFaults rule = [] := by
  obtain ⟨hsystem, hscope, hflags⟩ := hdeclared
  obtain ⟨hpremises, s, hs⟩ := ht
  have hnil : D.premiseFaults rule = [] := by
    rw [premiseFaults, List.flatMap_eq_nil_iff, forall_mem_zipIdx_iff]
    intro n p hn
    obtain ⟨t, ht⟩ := hpremises p (List.mem_of_getElem? hn)
    exact formulaFaults_eq_nil_of_hasSignature ht _
  rw [ruleFaults, hsystem, hscope, hnil, formulaFaults_eq_nil_of_hasSignature hs, hflags]
  rfl

theorem Typed.ruleFaults_eq_nil_iff (hD : D.Typed) {rule : Rule} :
    D.ruleFaults rule = [] ↔ (D.systemFaults rule.system = [] ∧ D.scopeFaults rule.scope = [] ∧
      flagListFaults rule.flags = []) ∧ rule.Typed D := by
  constructor
  · intro h
    simp only [ruleFaults, premiseFaults, List.append_eq_nil_iff, List.flatMap_eq_nil_iff,
      forall_mem_zipIdx_iff, hD.formulaFaults_eq_nil_iff] at h
    obtain ⟨⟨⟨⟨hsystem, hscope⟩, hpremises⟩, hassertion⟩, hflags⟩ := h
    refine ⟨⟨hsystem, hscope, hflags⟩, fun p hp => ?_, hassertion⟩
    obtain ⟨n, hn⟩ := List.mem_iff_getElem?.mp hp
    exact hpremises n p hn
  · rintro ⟨hdeclared, ht⟩
    exact ruleFaults_eq_nil hdeclared ht

theorem stepErrors_eq_nil_iff {goal : Rule} {citing : Ref} {index : Nat} {steps : List Step} :
    D.stepErrors goal citing index steps = [] ↔
      ∀ step ∈ steps, D.stepFaults goal citing step = [] := by
  induction steps generalizing index with
  | nil => simp [stepErrors]
  | cons step steps ih =>
    rw [stepErrors, List.append_eq_nil_iff, List.map_eq_nil_iff, ih, List.forall_mem_cons]

theorem Typed.stepFaults_eq_nil_iff (hD : D.Typed) {goal : Rule} {citing : Ref} {step : Step} :
    D.stepFaults goal citing step = [] ↔ step.Accepted D goal citing := by
  constructor
  · intro h
    rw [stepFaults, List.append_eq_nil_iff, hD.formulaFaults_eq_nil_iff,
      Option.toList_eq_nil_iff] at h
    exact ⟨h.1, h.2⟩
  · exact Step.Accepted.stepFaults_eq_nil

theorem Typed.allProofErrors_eq_nil_iff (hD : D.Typed) :
    D.allProofErrors = [] ↔ ∀ (n : Nat) (p : Proof), D.proofs[n]? = some p →
      ∃ goal, D.rule? (.ofTheorem p.theoremRef) = some goal ∧
        ∀ step ∈ p.steps, step.Accepted D goal n := by
  have hproof : ∀ (n : Nat) (p : Proof), D.proofErrors n p = [] ↔
      ∃ goal, D.rule? (.ofTheorem p.theoremRef) = some goal ∧
        ∀ step ∈ p.steps, step.Accepted D goal n := by
    intro n p
    rw [proofErrors]
    cases hgoal : D.rule? (.ofTheorem p.theoremRef) with
    | none => simp
    | some goal => simp [stepErrors_eq_nil_iff, hD.stepFaults_eq_nil_iff]
  rw [allProofErrors, List.flatMap_eq_nil_iff, forall_mem_zipIdx_iff]
  simp only [hproof]

theorem definitionFaults_eq_nil_iff {n : Nat} {d : Definition} :
    D.definitionFaults n d = [] ↔ (D.systemFaults d.system = [] ∧ D.scopeFaults d.inputs = []) ∧
      D.formulaFaults d.inputs "expansion" (some (n : Int)) d.expansion = [] := by
  rw [definitionFaults, List.append_eq_nil_iff, List.append_eq_nil_iff]

theorem declarationErrors_eq_nil_iff : D.declarationErrors = [] ↔
    (∀ t ∈ D.types, D.systemFaults t.system = []) ∧
    (∀ c ∈ D.symbols, D.systemFaults c.system = [] ∧ D.signatureFaults c.signature = []) ∧
    (∀ n d, D.definitions[n]? = some d → D.definitionFaults n d = []) ∧
    ∀ r ∈ D.rules, D.ruleFaults r.2 = [] := by
  simp only [declarationErrors, List.append_eq_nil_iff, entityErrors_eq_nil_iff,
    List.flatMap_eq_nil_iff, List.map_eq_nil_iff, List.mem_iff_getElem?]
  constructor
  · rintro ⟨⟨⟨htypes, hsymbols⟩, hdefinitions⟩, hrules⟩
    exact ⟨fun t ⟨n, hn⟩ => htypes n t hn, fun c ⟨n, hn⟩ => hsymbols n c hn, hdefinitions, hrules⟩
  · rintro ⟨htypes, hsymbols, hdefinitions, hrules⟩
    exact ⟨⟨⟨fun n t hn => htypes t ⟨n, hn⟩, fun n c hn => hsymbols c ⟨n, hn⟩⟩, hdefinitions⟩,
      hrules⟩

/-- If nothing is wrong with any rule, the laws of all rules are entered. -/
theorem soundRules_eq_rules (h : ∀ r ∈ D.rules, D.ruleFaults r.2 = []) :
    D.soundRules = D.rules := by
  rw [soundRules, List.filter_eq_self]
  intro r hr
  rw [h r hr]
  rfl

theorem verify_errors_eq_nil_iff_parts : D.verify.errors = [] ↔
    D.declarationErrors = [] ∧ (Registry.ofRules D.soundRules).1 = [] ∧ D.allProofErrors = [] := by
  rw [verify, List.append_eq_nil_iff, List.append_eq_nil_iff, and_assoc]

theorem Verified.ruleFaults (h : D.Verified) : ∀ r ∈ D.rules, D.ruleFaults r.2 = [] := by
  intro r hr
  refine h.typed.ruleFaults_eq_nil_iff.mpr ⟨h.declared.rules r hr, ?_⟩
  exact h.rule (mem_rules_iff.mp hr)

/-- **A directory passes the first phase exactly if it is verified.** -/
theorem verify_errors_eq_nil_iff : D.verify.errors = [] ↔ D.Verified := by
  rw [verify_errors_eq_nil_iff_parts, declarationErrors_eq_nil_iff]
  constructor
  · rintro ⟨⟨htypes, hsymbols, hdefinitions, hrules⟩, hlaws, hproofs⟩
    have htyped : D.Typed := typed_of_formulaFaults fun n d hn =>
      (definitionFaults_eq_nil_iff.mp (hdefinitions n d hn)).2
    have hdeclared : D.Declared := by
      refine ⟨htypes, hsymbols, ?_, ?_, ?_⟩
      · intro d hd
        obtain ⟨n, hn⟩ := List.mem_iff_getElem?.mp hd
        exact (definitionFaults_eq_nil_iff.mp (hdefinitions n d hn)).1
      · intro r hr
        exact (htyped.ruleFaults_eq_nil_iff.mp (hrules r hr)).1
      · rw [← soundRules_eq_rules hrules]
        exact hlaws
    refine ⟨hdeclared, htyped, fun {ref rule} h => ?_, fun {n p} hn => ?_⟩
    · exact (htyped.ruleFaults_eq_nil_iff.mp (hrules (ref, rule) (mem_rules_iff.mpr h))).2
    · exact htyped.allProofErrors_eq_nil_iff.mp hproofs n p hn
  · intro h
    refine ⟨⟨h.declared.types, h.declared.symbols, fun n d hn => ?_, h.ruleFaults⟩, ?_, ?_⟩
    · refine definitionFaults_eq_nil_iff.mpr ⟨h.declared.definitions d (List.mem_of_getElem? hn), ?_⟩
      exact h.typed.formulaFaults_eq_nil_iff.mpr (h.typed n d hn)
    · rw [soundRules_eq_rules h.ruleFaults]
      exact h.declared.laws
    · exact h.typed.allProofErrors_eq_nil_iff.mpr fun n p hn => h.proof hn

end Directory

/-! ## Registered laws -/

/-- Every law of the registry is a rule of the directory that has the shape of that law and whose
formulas have signatures. -/
def Laws.Backed (laws : Laws) : Prop :=
  ∀ head slot ref, (laws.registry.get head).slot? slot = some ref →
    ∃ rule, laws.directory.rule? ref = some rule ∧ rule.IsLaw head slot ∧
      rule.Typed laws.directory

/-- **The registry of a verified directory is backed by its rules.** -/
theorem Directory.Verified.backed {D : Directory} (h : D.Verified) :
    Laws.Backed ⟨D, D.verify.registry⟩ := by
  intro head slot ref hslot
  obtain ⟨rule, hmem, hlaw⟩ := Registry.lawfulOver_ofRules D.soundRules head slot ref hslot
  have hrule := mem_rules_iff.mp (List.mem_filter.mp hmem).1
  exact ⟨rule, hrule, hlaw, h.rule hrule⟩

end Deduction
