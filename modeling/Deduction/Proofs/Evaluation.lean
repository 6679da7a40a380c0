import Deduction.Proofs.Soundness
import Deduction.Proofs.Typing.Preservation
import Deduction.Proofs.Typing.Queries

/-!
# Unfolding as evaluation

Unfolding is computed with a depth that it may not exceed, and a result only says that the depth was
enough.  Without the depth, unfolding is an evaluation: the inputs of a definition are evaluated, put
into its expansion, and the outcome is evaluated in turn.  `Formula.Unfolds` states this as a
relation, one rule for each kind of node.  A derivation is finite, so it is a run that comes to an
end and at which no definition fails to resolve.

The computation and the relation agree.  A computed result has a derivation in every directory, since
each level of the depth is one use of the rule for definitions.  Conversely a formula has at most one
value, and in a grounded directory every formula whose definitions resolve has one that is computed.

So nothing has to be said about the depth any more, and what unfolding does to a formula is an
induction over its evaluation.  That the value has only variables of the formula is proved so; that
it has the signature of the formula is known from the typing rules.

* `Formula.Unfolds`: the relation.
* `Formula.Unfolds.unique`, `Directory.unfolds_of_unfold`, `Directory.Grounded.unfolds_iff`: how it
  agrees with the computation.
* `Formula.Unfolds.resolved`, `Formula.Unfolds.variableRefs_subset`: what a value says of the formula.
* `Directory.exists_unfold_of_accepted`: accepted formulas unfold, and keep their signatures.
-/

namespace Deduction

/-! ## The relation -/

/-- A formula and the formula that is left when all definitions are unfolded, the inputs of a
definition before its expansion. -/
inductive Formula.Unfolds (D : Directory) : Formula → Formula → Prop
  | symbol (ref : Ref) : Unfolds D (.symbol ref) (.symbol ref)
  | var (ref : Ref) : Unfolds D (.var ref) (.var ref)
  | app {f f' x x' : Formula} : Unfolds D f f' → Unfolds D x x' →
      Unfolds D (.app f x) (.app f' x')
  | definition {ref : Ref} {inputs values : List Formula} {d : Definition} {g : Formula} :
      D.definitionTaking? ref inputs.length = some d → inputs.length = values.length →
      (∀ p ∈ inputs.zip values, Unfolds D p.1 p.2) →
      Unfolds D (d.expansion.substitute (Formula.inputValues values)) g →
      Unfolds D (.definition ref inputs) g

namespace Formula

variable {D : Directory} {f g h : Formula}

/-- Lists in step with one list are equal if each of its entries stands for one value only. -/
theorem eq_of_forall_mem_zip {R : Formula → Formula → Prop} {xs ys zs : List Formula}
    (hys : xs.length = ys.length) (hzs : xs.length = zs.length)
    (hunique : ∀ p ∈ xs.zip ys, ∀ z, R p.1 z → p.2 = z) (h : ∀ p ∈ xs.zip zs, R p.1 p.2) :
    ys = zs := by
  induction xs generalizing ys zs with
  | nil => rw [List.length_eq_zero_iff.mp hys.symm, List.length_eq_zero_iff.mp hzs.symm]
  | cons x xs ih =>
    obtain ⟨y, ys, rfl⟩ := List.exists_cons_of_length_eq_add_one hys.symm
    obtain ⟨z, zs, rfl⟩ := List.exists_cons_of_length_eq_add_one hzs.symm
    rw [List.zip_cons_cons, List.forall_mem_cons] at hunique h
    obtain rfl : y = z := hunique.1 z h.1
    rw [ih (Nat.succ.inj hys) (Nat.succ.inj hzs) hunique.2 h.2]

/-- **A formula unfolds to at most one formula.** -/
theorem Unfolds.unique (hg : f.Unfolds D g) (hh : f.Unfolds D h) : g = h := by
  induction hg generalizing h with
  | symbol | var =>
    cases hh
    rfl
  | app _ _ ihf ihx =>
    cases hh with
    | app hf hx => rw [ihf hf, ihx hx]
  | definition hd hlen _ _ ihinputs ihbody =>
    cases hh with
    | definition hd' hlen' hinputs' hbody' =>
      rw [hd] at hd'
      cases hd'
      obtain rfl := eq_of_forall_mem_zip hlen hlen' (fun p hp z => ihinputs p hp) hinputs'
      exact ihbody hbody'

/-- The definitions of a formula that unfolds resolve. -/
theorem Unfolds.resolved (hg : f.Unfolds D g) : f.Resolved D := by
  induction hg with
  | symbol ref => exact .symbol ref
  | var ref => exact .var ref
  | app _ _ ihf ihx => exact .app ihf ihx
  | definition hd hlen _ _ ihinputs _ =>
    refine .definition hd fun x hx => ?_
    obtain ⟨value, hmem⟩ := exists_mem_zip_of_length hlen hx
    exact ihinputs _ (mem_zip_comm.mp hmem)

/-- The variables after a substitution are those of what was put in. -/
theorem mem_variableRefs_substitute {σ : Ref → Formula} {v : Ref} :
    v ∈ (f.substitute σ).variableRefs ↔ ∃ u ∈ f.variableRefs, v ∈ (σ u).variableRefs := by
  induction f using inductionOn with
  | symbol ref => simp [substitute, variableRefs]
  | var ref => simp [substitute, variableRefs]
  | app f x hf hx =>
    simp only [substitute, variableRefs, List.mem_append, hf, hx, or_and_right, exists_or]
  | definition ref inputs ih =>
    rw [substitute, substituteAll_eq_map, mem_variableRefs_definition]
    constructor
    · rintro ⟨y, hy, hv⟩
      obtain ⟨x, hx, rfl⟩ := List.mem_map.mp hy
      obtain ⟨u, hu, hvu⟩ := (ih x hx).mp hv
      exact ⟨u, mem_variableRefs_definition.mpr ⟨x, hx, hu⟩, hvu⟩
    · rintro ⟨u, hu, hvu⟩
      obtain ⟨x, hx, hux⟩ := mem_variableRefs_definition.mp hu
      exact ⟨x.substitute σ, List.mem_map_of_mem hx, (ih x hx).mpr ⟨u, hux, hvu⟩⟩

/-- **Unfolding brings in no variables.**  An expansion has only its formal inputs, and these are
replaced. -/
theorem Unfolds.variableRefs_subset (hD : D.Grounded) (hg : f.Unfolds D g) :
    g.variableRefs ⊆ f.variableRefs := by
  induction hg with
  | symbol | var => exact List.Subset.refl _
  | app _ _ ihf ihx =>
    intro v hv
    rw [variableRefs, List.mem_append] at hv ⊢
    exact hv.imp (fun h => ihf h) fun h => ihx h
  | @definition ref inputs values d g hd hlen _ _ ihinputs ihbody =>
    intro v hv
    obtain ⟨u, hu, hvu⟩ := mem_variableRefs_substitute.mp (ihbody hv)
    rw [hlen] at hd
    obtain ⟨value, hvalue⟩ := Option.isSome_iff_exists.mp (hD.isSome_itemAt? hd u hu)
    rw [inputValues_of_itemAt? hvalue] at hvu
    obtain ⟨input, hmem⟩ := exists_mem_zip_of_length hlen.symm (mem_of_itemAt? hvalue)
    rw [mem_variableRefs_definition]
    exact ⟨input, (List.of_mem_zip hmem).1, ihinputs _ hmem hvu⟩

/-! ## The computation -/

/-- If the rule for definitions evaluates expansions, unfolding by that rule is evaluation. -/
theorem unfolds_of_unfoldWith {u : Ref → List Formula → Except ContractError Formula}
    (hu : ∀ ref values g, u ref values = .ok g → ∃ d,
      D.definitionTaking? ref values.length = some d ∧
        (d.expansion.substitute (inputValues values)).Unfolds D g)
    (hg : f.unfoldWith u = .ok g) : f.Unfolds D g := by
  induction f using inductionOn generalizing g with
  | symbol ref =>
    cases hg
    exact .symbol ref
  | var ref =>
    cases hg
    exact .var ref
  | app f x ihf ihx =>
    obtain ⟨f', x', hf, hx, rfl⟩ := unfoldWith_app_eq_ok_iff.mp hg
    exact .app (ihf hf) (ihx hx)
  | definition ref inputs ih =>
    obtain ⟨values, hvalues, hg⟩ := unfoldWith_definition_eq_ok_iff.mp hg
    obtain ⟨d, hd, hbody⟩ := hu ref values g hg
    obtain ⟨hlen, hinputs⟩ := List.forall₂_iff_zip.mp hvalues
    rw [← hlen] at hd
    refine .definition hd hlen (fun p hp => ?_) hbody
    exact ih p.1 (List.of_mem_zip hp).1 (hinputs hp)

end Formula

namespace Directory

open Formula

variable {D : Directory} {f g : Formula}

/-- Each level of the depth is one use of the rule for definitions. -/
theorem unfolds_of_unfoldWithin {n : Nat} {ref : Ref} {values : List Formula}
    (h : D.unfoldWithin n ref values = .ok g) :
    ∃ d, D.definitionTaking? ref values.length = some d ∧
      (d.expansion.substitute (inputValues values)).Unfolds D g := by
  induction n generalizing ref values g with
  | zero => exact absurd h unfoldWithin_zero_ne_ok
  | succ n ih =>
    obtain ⟨d, hd, hbody⟩ := unfoldWithin_succ_eq_ok_iff.mp h
    exact ⟨d, hd, unfolds_of_unfoldWith (fun _ _ _ => ih) hbody⟩

/-- What is computed is the value of an evaluation, in every directory. -/
theorem unfolds_of_unfold (h : D.unfold f = .ok g) : f.Unfolds D g :=
  unfolds_of_unfoldWith (fun _ _ _ => unfolds_of_unfoldWithin) h

/-- **In a grounded directory, evaluation gives the normal form and nothing else.** -/
theorem Grounded.unfolds_iff (hD : D.Grounded) (hf : f.Resolved D) :
    f.Unfolds D g ↔ g = D.normal f := by
  have hnormal : f.Unfolds D (D.normal f) := unfolds_of_unfold (hD.unfold_eq_ok hf)
  constructor
  · exact fun hg => hg.unique hnormal
  · rintro rfl
    exact hnormal

/-! ## Accepted formulas -/

/-- The expansion of every definition is accepted, with only the definitions before it. -/
def ExpansionsAccepted (D : Directory) : Prop :=
  ∀ (n : Nat) (d : Definition), D.definitions[n]? = some d →
    D.formulaFaults d.inputs "expansion" (some (n : Int)) d.expansion = []

theorem ExpansionsAccepted.typed (hD : D.ExpansionsAccepted) : D.Typed :=
  typed_of_formulaFaults hD

theorem ExpansionsAccepted.grounded (hD : D.ExpansionsAccepted) : D.Grounded :=
  hD.typed.grounded

/-- After any earlier questions the pass over a formula is the plain one. -/
theorem run_analyse_memoAfter (D : Directory) (queries : List SignatureQuery)
    (scope : List Variable) (limit : Option Ref) (f : Formula) :
    ((D.analyse scope limit f).run (D.memoAfter queries)).1 =
      f.analysis D scope limit D.expansionSignature :=
  (computes_analyse scope limit f _ (D.faithful_memoAfter queries)).1

theorem analysis_eq_of_hasSignature {scope : List Variable} {limit : Option Ref} {s : Signature}
    (h : f.HasSignature D scope limit s) :
    f.analysis D scope limit D.expansionSignature = ⟨some s, []⟩ := by
  have hsignature := signature_eq_some_iff.mpr h
  have hfaults : (f.analysis D scope limit D.expansionSignature).faults = [] :=
    faults_analysis_of_isSome (by rw [hsignature]; rfl)
  rw [← hsignature, ← hfaults]

/-- Where expansions are accepted, a formula without faults has the signature that was found. -/
theorem Typed.hasSignature_of_analysis (hD : D.Typed) {scope : List Variable} {limit : Option Ref}
    {s : Option Signature}
    (h : f.analysis D scope limit D.expansionSignature = ⟨s, []⟩) :
    ∃ t, s = some t ∧ f.HasSignature D scope limit t := by
  have hfaults : D.formulaFaults scope "" limit f = [] :=
    Directory.formulaFaults_eq_nil_iff.mpr (by rw [h])
  obtain ⟨t, ht⟩ := hD.formulaFaults_eq_nil_iff.mp hfaults
  rw [analysis_eq_of_hasSignature ht] at h
  cases h
  exact ⟨t, rfl, ht⟩

/-- **Unfolding ends, and keeps signatures.**  If every expansion is accepted, a formula that is
accepted with a signature unfolds: its evaluation ends in one formula, which is also the computed
one.  No definition is left in it, its variables are variables of the formula, and in the same scope
it is accepted with the same signature, whatever was asked before and under every limit. -/
theorem exists_unfold_of_accepted (hD : D.ExpansionsAccepted) {queries : List SignatureQuery}
    {scope : List Variable} {limit : Option Ref} {s : Option Signature}
    (hf : ((D.analyse scope limit f).run (D.memoAfter queries)).1 = ⟨s, []⟩) :
    ∃ g, D.unfold f = .ok g ∧ (∀ h, f.Unfolds D h ↔ h = g) ∧ g.definitionRefs = [] ∧
      g.variableRefs ⊆ f.variableRefs ∧
      ∀ (queries' : List SignatureQuery) (limit' : Option Ref),
        ((D.analyse scope limit' g).run (D.memoAfter queries')).1 = ⟨s, []⟩ := by
  have hgrounded := hD.grounded
  rw [run_analyse_memoAfter] at hf
  obtain ⟨t, rfl, ht⟩ := hD.typed.hasSignature_of_analysis hf
  have hunfolds : ∀ h, f.Unfolds D h ↔ h = D.normal f := fun h => hgrounded.unfolds_iff ht.resolved
  refine ⟨D.normal f, hgrounded.unfold_eq_ok ht.resolved, hunfolds,
    hgrounded.definitionFree_normal ht.resolved, ?_, fun queries' limit' => ?_⟩
  · exact ((hunfolds _).mpr rfl).variableRefs_subset hgrounded
  · rw [run_analyse_memoAfter]
    exact analysis_eq_of_hasSignature (ht.normal hgrounded limit')

end Directory

/-! ## Definitions inside definitions -/

namespace Sample

/-- The sample directory with a second definition, which uses the first one twice and drops one of
its two inputs. -/
def layered : Directory :=
  { directory with
    definitions := directory.definitions ++
      [⟨.null, 0, [element, element], twice (twice (.var 1))⟩] }

/-- Both definitions, each inside an input of the second one, which is also used in its own input. -/
def nested : Formula :=
  .definition 1 [twice (.var 1), function (.definition 1 [.var 1, .var 0])]

theorem expansionsAccepted_layered : layered.ExpansionsAccepted := by
  intro n d hn
  match n with
  | 0 | 1 =>
    cases hn
    rfl
  | n + 2 => cases hn

/-- The variable in the inputs that are dropped is gone after unfolding; the other one is left. -/
theorem exists_unfold_nested :
    layered.ExpansionsAccepted ∧
      ((layered.analyse [element, element] none nested).run {}).1 = ⟨some (.ground 0), []⟩ ∧
      ∃ g, layered.unfold nested = .ok g ∧ (∀ h, nested.Unfolds layered h ↔ h = g) ∧
        g.definitionRefs = [] ∧ g.variableRefs ⊆ nested.variableRefs ∧
        nested.variableRefs = [1, 1, 0] ∧ g.variableRefs = [0] ∧
        ((layered.analyse [element, element] none g).run {}).1 = ⟨some (.ground 0), []⟩ := by
  have haccepted : ((layered.analyse [element, element] none nested).run
      (layered.memoAfter [])).1 = ⟨some (.ground 0), []⟩ := by rfl
  obtain ⟨g, hg, hunfolds, hfree, hvariables, hsignature⟩ :=
    Directory.exists_unfold_of_accepted expansionsAccepted_layered haccepted
  refine ⟨expansionsAccepted_layered, haccepted, g, hg, hunfolds, hfree, hvariables, by rfl, ?_,
    hsignature [] none⟩
  cases hg
  rfl

end Sample

end Deduction
