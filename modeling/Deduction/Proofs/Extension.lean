import Deduction.Proofs.Checking

/-!
# Directories with more in them

A directory *extends* another one if every reference that resolves there resolves to the same thing
here, and the first proof of every theorem that has one is the same.  What is beyond the old
declarations may be anything at all, also something that is wrong in itself.

Whatever was established in the old directory then holds in the new one.  References are the only
way by which anything looks into a directory, so this is one lemma for each judgement, by induction
on how it was established.  Nothing can be said in the other direction: a reference that led nowhere
may lead to something new, and a formula that could not be unfolded may now be compatible with
another one.

* `Directory.Extends`: the relation.
* `Directory.Extends.compatible`: comparing formulas gives the same answer wherever it gave one.
* `Directory.Extends.hasSignature`, `Directory.Extends.accepted`: what the first phase looks at.
* `Directory.Extends.derives`, `Directory.Extends.proves`: derivations.
-/

namespace Deduction

open Formula

namespace Directory

/-- The references of one directory resolve to the same in another, and so do first proofs. -/
structure Extends (D D' : Directory) : Prop where
  system? : ∀ {ref : Ref} {s : SystemDecl}, D.system? ref = some s → D'.system? ref = some s
  type? : ∀ {ref : Ref} {t : TypeDecl}, D.type? ref = some t → D'.type? ref = some t
  symbol? : ∀ {ref : Ref} {c : SymbolDecl}, D.symbol? ref = some c → D'.symbol? ref = some c
  definition? : ∀ {ref : Ref} {d : Definition},
    D.definition? ref = some d → D'.definition? ref = some d
  rule? : ∀ {ref : RuleRef} {rule : Rule}, D.rule? ref = some rule → D'.rule? ref = some rule
  firstProof? : ∀ {ref : Ref} {first : Nat},
    D.firstProof? ref = some first → D'.firstProof? ref = some first

namespace Extends

variable {D D' : Directory} (h : D.Extends D')

include h

/-! ## Declarations -/

theorem systemFaults {ref : Ref} (hD : D.systemFaults ref = []) : D'.systemFaults ref = [] := by
  rw [Directory.systemFaults] at hD ⊢
  cases hs : D.system? ref with
  | none =>
    rw [hs] at hD
    cases hD
  | some s =>
    rw [h.system? hs]
    rfl

theorem signatureFaults {s : Signature} (hD : D.signatureFaults s = []) :
    D'.signatureFaults s = [] := by
  rw [Directory.signatureFaults, List.map_eq_nil_iff, List.filter_eq_nil_iff] at hD ⊢
  intro ref href hnone
  refine hD ref href ?_
  cases ht : D.type? ref with
  | none => rfl
  | some t =>
    rw [h.type? ht] at hnone
    cases hnone

theorem scopeFaults {scope : List Variable} (hD : D.scopeFaults scope = []) :
    D'.scopeFaults scope = [] := by
  rw [Directory.scopeFaults, List.flatMap_eq_nil_iff] at hD ⊢
  intro v hv
  have hold := hD v hv
  rw [List.map_eq_nil_iff] at hold ⊢
  exact h.signatureFaults hold

/-! ## Comparing formulas -/

theorem length_definitions_le : D.definitions.length ≤ D'.definitions.length := by
  by_contra hlt
  have hlt := Nat.lt_of_not_le hlt
  have hold : D.definition? (D'.definitions.length : Int) = some D.definitions[D'.definitions.length] :=
    List.getElem?_eq_getElem hlt
  have hnew : D'.definitions[D'.definitions.length]? = some _ := h.definition? hold
  exact Nat.lt_irrefl _ (List.getElem?_eq_some_iff.mp hnew).1

theorem definitionTaking? {ref : Ref} {count : Nat} {d : Definition}
    (hd : D.definitionTaking? ref count = some d) : D'.definitionTaking? ref count = some d := by
  rw [Directory.definitionTaking?, Option.filter_eq_some_iff] at hd ⊢
  exact ⟨h.definition? hd.1, hd.2⟩

theorem unfoldWithin {n : Nat} {ref : Ref} {inputs : List Formula} {g : Formula}
    (hg : D.unfoldWithin n ref inputs = .ok g) : D'.unfoldWithin n ref inputs = .ok g := by
  induction n generalizing ref inputs g with
  | zero => exact absurd hg unfoldWithin_zero_ne_ok
  | succ n ih =>
    obtain ⟨d, hd, hbody⟩ := unfoldWithin_succ_eq_ok_iff.mp hg
    refine unfoldWithin_succ_eq_ok_iff.mpr ⟨d, h.definitionTaking? hd, ?_⟩
    exact unfoldWith_mono (fun _ _ _ => ih) hbody

/-- More definitions allow for a greater depth, which makes no difference. -/
theorem unfold {f g : Formula} (hg : D.unfold f = .ok g) : D'.unfold f = .ok g :=
  unfoldWith_mono (fun _ _ _ hu => unfoldWithin_mono h.length_definitions_le (h.unfoldWithin hu)) hg

/-- **Where formulas could be compared, the answer stays the same.** -/
theorem compatible {f g : Formula} {b : Bool} (hb : D.compatible f g = .ok b) :
    D'.compatible f g = .ok b := by
  rw [Directory.compatible] at hb ⊢
  by_cases heq : f = g
  · rw [if_pos heq] at hb ⊢
    exact hb
  · rw [if_neg heq] at hb ⊢
    obtain ⟨f', hf, hb⟩ := bind_eq_ok.mp hb
    obtain ⟨g', hg, hb⟩ := bind_eq_ok.mp hb
    rw [h.unfold hf, h.unfold hg]
    exact hb

theorem resolved {f : Formula} (hf : f.Resolved D) : f.Resolved D' := by
  induction hf with
  | symbol ref => exact .symbol ref
  | var ref => exact .var ref
  | app _ _ ihf ihx => exact .app ihf ihx
  | definition hd _ ih => exact .definition (h.definitionTaking? hd) ih

/-- Matching compares what a variable stands for. -/
theorem matches_of_matches {σ : Ref → Formula} {template target : Formula}
    (hm : template.Matches D σ target) : template.Matches D' σ target := by
  induction hm with
  | symbol ref => exact .symbol ref
  | var hc => exact .var (h.compatible hc)
  | app _ _ ihf ihx => exact .app ihf ihx
  | definition hlen _ ih => exact .definition hlen ih

/-! ## Signatures -/

theorem hasSignature {scope : List Variable} {limit : Option Ref} {f : Formula} {s : Signature}
    (hs : f.HasSignature D scope limit s) : f.HasSignature D' scope limit s :=
  hs.mono (fun _ _ => h.symbol?) fun _ _ => h.definition?

theorem forall_exists_hasSignature {scope : List Variable} {limit : Option Ref} {fs : List Formula}
    (hfs : ∀ f ∈ fs, ∃ s, f.HasSignature D scope limit s) :
    ∀ f ∈ fs, ∃ s, f.HasSignature D' scope limit s := by
  intro f hf
  obtain ⟨s, hs⟩ := hfs f hf
  exact ⟨s, h.hasSignature hs⟩

theorem ruleTyped {rule : Rule} (ht : rule.Typed D) : rule.Typed D' := by
  obtain ⟨hpremises, s, hs⟩ := ht
  exact ⟨h.forall_exists_hasSignature hpremises, s, h.hasSignature hs⟩

/-! ## Steps -/

theorem resolves {premises : List Formula} {step : Step} (hstep : step.Resolves D premises) :
    step.Resolves D' premises := by
  rw [Step.Resolves] at hstep ⊢
  cases hj : step.justification with
  | rule ref =>
    rw [hj] at hstep
    obtain ⟨rule, hrule⟩ := Option.isSome_iff_exists.mp hstep
    exact Option.isSome_iff_exists.mpr ⟨rule, h.rule? hrule⟩
  | hypothesis index =>
    rw [hj] at hstep
    exact hstep
  | definition | functionApplication | substitution => trivial

/-- A theorem that may be cited has a first proof, and that stays where it is. -/
theorem permitted {citing : Ref} {step : Step} (hstep : step.Permitted D citing) :
    step.Permitted D' citing := by
  intro ref href
  obtain ⟨first, hfirst, hlt⟩ := citationFault?_eq_none_iff.mp (hstep ref href)
  exact citationFault?_eq_none_iff.mpr ⟨first, h.firstProof? hfirst, hlt⟩

theorem elementary {goal : Rule} {step : Step} (hstep : step.Elementary D goal) :
    step.Elementary D' goal := by
  obtain ⟨⟨s, hs⟩, hresolves, hkind⟩ := hstep
  exact ⟨⟨s, h.hasSignature hs⟩, h.resolves hresolves, hkind⟩

theorem accepted {goal : Rule} {citing : Ref} {step : Step} (hstep : step.Accepted D goal citing) :
    step.Accepted D' goal citing := by
  obtain ⟨⟨s, hs⟩, hresolves, hpermitted⟩ := Step.accepted_iff.mp hstep
  exact Step.accepted_iff.mpr ⟨⟨s, h.hasSignature hs⟩, h.resolves hresolves, h.permitted hpermitted⟩

theorem justified {premises facts : List Formula} {step : Step}
    (hstep : Justified D premises facts step) : Justified D' premises facts step := by
  cases hstep with
  | rule hrule hσ hinstance =>
    refine .rule (h.rule? hrule) (fun v => h.resolved (hσ v)) ?_
    refine ⟨h.matches_of_matches hinstance.1, fun p hp => ?_⟩
    obtain ⟨fact, hmem, hmatches⟩ := hinstance.2 p hp
    exact ⟨fact, hmem, h.matches_of_matches hmatches⟩
  | hypothesis hpremise => exact .hypothesis hpremise
  | definition hmem hc => exact .definition hmem (h.compatible hc)

/-- **Derivations stay derivations.** -/
theorem derives {citing : Ref} {premises facts : List Formula} {steps : List Step}
    (hsteps : Derives D citing premises facts steps) :
    Derives D' citing premises facts steps := by
  induction hsteps with
  | nil facts => exact .nil facts
  | cons hjustified hpermitted _ ih =>
    exact .cons (h.justified hjustified) (h.permitted hpermitted) ih

theorem proves {citing : Ref} {goal : Rule} {steps : List Step}
    (hsteps : Proves D citing goal steps) : Proves D' citing goal steps := by
  obtain ⟨hderives, f, hlast, hcompatible⟩ := hsteps
  exact ⟨h.derives hderives, f, hlast, h.compatible hcompatible⟩

end Extends

end Directory

end Deduction
