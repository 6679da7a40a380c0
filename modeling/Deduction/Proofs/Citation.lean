import Deduction.Proofs.Compatibility
import Deduction.Proofs.Generality
import Deduction.Proofs.Renaming

/-!
# How citations are answered

To cite a rule, the assertion is matched with the formula, and then one premise after the other with
the facts, where all alternatives that agree so far are carried along.  It is stopped as soon as
none is left, and of two compatible formulas for one variable the older one is kept.

None of this can be seen in the answer.  It depends only on which substitutions match: there is one
under which the assertion and all premises match; or there is one for the assertion, but none for
all of them; or there is none for the assertion (`Rule.Verdict`).  Here any substitution is allowed.
That its values have definitions that resolve, which the laws of the matcher suppose, is no
restriction, since a value that faces a part of the formula or of a fact resolves as that does, and
the other values do not matter (`Formula.exists_resolved_values`).

So premises and facts may stand in any order and be repeated.  As for the formulas that are kept, a
choice between two sets of bindings that agree is always alike (`Bindings.Chosen.alike`), and
alternatives that are alike have the same solutions.

* `Rule.Verdict`: the answer, by the substitutions there are.
* `Directory.Grounded.yields_verdict`: the matcher gives this answer.
* `Directory.ruleFault?_exact`: the answer, and what it does not depend on.
-/

namespace Deduction

/-! ## Substitutions that match -/

namespace Formula

variable {D : Directory} {σ τ : Ref → Formula} {f g template target : Formula}

theorem resolved_of_compatible (h : D.compatible f g = .ok true) (hg : g.Resolved D) :
    f.Resolved D := by
  rw [Directory.compatible] at h
  split at h
  · next heq =>
    rw [heq]
    exact hg
  · obtain ⟨f', hf', -⟩ := bind_eq_ok.mp h
    exact (Directory.unfolds_of_unfold hf').resolved

/-- The value of a variable that occurs resolves, because the target does. -/
theorem Matches.resolved_value (h : template.Matches D σ target) (htarget : target.Resolved D) :
    ∀ v ∈ template.variableRefs, (σ v).Resolved D := by
  induction h with
  | symbol ref =>
    intro v hv
    cases hv
  | @var ref g hc =>
    intro v hv
    rw [variableRefs, List.mem_singleton] at hv
    rw [hv]
    exact resolved_of_compatible hc htarget
  | @app f x g y _ _ ihf ihx =>
    intro v hv
    rw [variableRefs, List.mem_append] at hv
    cases htarget with
    | app hg hy => exact hv.elim (ihf hg v) (ihx hy v)
  | @definition ref xs ys hlen _ ih =>
    intro v hv
    obtain ⟨x, hx, hvx⟩ := mem_variableRefs_definition.mp hv
    obtain ⟨y, hyx⟩ := exists_mem_zip_of_length hlen hx
    have hmem := mem_zip_comm.mp hyx
    exact ih (x, y) hmem (htarget.inputs y (List.of_mem_zip hmem).2) v hvx

/-- A match depends on the values of the variables that occur. -/
theorem Matches.congr (h : template.Matches D σ target)
    (hστ : ∀ v ∈ template.variableRefs, τ v = σ v) : template.Matches D τ target := by
  induction h with
  | symbol ref => exact .symbol ref
  | @var ref g hc =>
    refine .var ?_
    rw [hστ ref (by simp [variableRefs])]
    exact hc
  | app _ _ ihf ihx =>
    rw [variableRefs, List.forall_mem_append] at hστ
    exact .app (ihf hστ.1) (ihx hστ.2)
  | definition hlen _ ih =>
    refine .definition hlen fun p hp => ih p hp fun v hv => hστ v ?_
    exact mem_variableRefs_definition.mpr ⟨p.1, (List.of_mem_zip hp).1, hv⟩

/-- Values that do not matter may be replaced by the variables themselves, which resolve. -/
theorem exists_resolved_values {vars : Ref → Prop} (h : ∀ v, vars v → (σ v).Resolved D) :
    ∃ τ : Ref → Formula, (∀ v, (τ v).Resolved D) ∧ ∀ v, vars v → τ v = σ v := by
  classical
  refine ⟨fun v => if vars v then σ v else .var v, fun v => ?_, fun v hv => if_pos hv⟩
  dsimp only
  split
  · next hv => exact h v hv
  · exact .var v

theorem exists_matches_iff (htarget : target.Resolved D) :
    (∃ σ, (∀ v, (σ v).Resolved D) ∧ template.Matches D σ target) ↔
      ∃ σ, template.Matches D σ target := by
  constructor
  · rintro ⟨σ, -, hmatches⟩
    exact ⟨σ, hmatches⟩
  · rintro ⟨σ, hmatches⟩
    obtain ⟨τ, hτ, heq⟩ := exists_resolved_values (hmatches.resolved_value htarget)
    exact ⟨τ, hτ, hmatches.congr heq⟩

end Formula

theorem RuleRef.premisesKind_ne_assertionKind (ref : RuleRef) :
    ref.premisesKind ≠ ref.assertionKind := by
  cases ref <;> simp [premisesKind, assertionKind]

namespace Rule

variable {D : Directory} {rule rule' : Rule} {f : Formula} {facts facts' : List Formula}
  {ref : RuleRef} {verdict verdict' : Option Fault}

theorem exists_instance_iff (hf : f.Resolved D) (hfacts : ∀ g ∈ facts, g.Resolved D) :
    (∃ σ, (∀ v, (σ v).Resolved D) ∧ rule.Instance D σ f facts) ↔
      ∃ σ, rule.Instance D σ f facts := by
  constructor
  · rintro ⟨σ, -, hinstance⟩
    exact ⟨σ, hinstance⟩
  · rintro ⟨σ, hassertion, hpremises⟩
    have hvalues : ∀ v, rule.Mentions v → (σ v).Resolved D := by
      rintro v (hv | ⟨p, hp, hv⟩)
      · exact hassertion.resolved_value hf v hv
      · obtain ⟨fact, hfact, hmatches⟩ := hpremises p hp
        exact hmatches.resolved_value (hfacts fact hfact) v hv
    obtain ⟨τ, hτ, heq⟩ := Formula.exists_resolved_values hvalues
    refine ⟨τ, hτ, hassertion.congr fun v hv => heq v (Or.inl hv), fun p hp => ?_⟩
    obtain ⟨fact, hfact, hmatches⟩ := hpremises p hp
    exact ⟨fact, hfact, hmatches.congr fun v hv => heq v (Or.inr ⟨p, hp, hv⟩)⟩

/-- The answer to the citation of a rule, by the substitutions there are. -/
inductive Verdict (D : Directory) (ref : RuleRef) (rule : Rule) (f : Formula)
    (facts : List Formula) : Option Fault → Prop
  | accepted : (∃ σ, rule.Instance D σ f facts) → Verdict D ref rule f facts none
  | premises : (∃ σ, rule.assertion.Matches D σ f) → (¬ ∃ σ, rule.Instance D σ f facts) →
      Verdict D ref rule f facts (some ⟨ref.premisesKind, none⟩)
  | assertion : (¬ ∃ σ, rule.assertion.Matches D σ f) →
      Verdict D ref rule f facts (some ⟨ref.assertionKind, none⟩)

theorem instance_congr (hassertion : rule'.assertion = rule.assertion)
    (hpremises : ∀ p, p ∈ rule'.premises ↔ p ∈ rule.premises)
    (hfacts : ∀ g, g ∈ facts' ↔ g ∈ facts) (σ : Ref → Formula) :
    rule'.Instance D σ f facts' ↔ rule.Instance D σ f facts := by
  simp only [Instance, hassertion, hpremises, hfacts]

namespace Verdict

theorem eq_none_iff (h : Verdict D ref rule f facts verdict) :
    verdict = none ↔ ∃ σ, rule.Instance D σ f facts := by
  cases h with
  | accepted hinstance => simp [hinstance]
  | premises _ hnone => simp [hnone]
  | assertion hnone =>
    refine iff_of_false (by simp) ?_
    rintro ⟨σ, hassertion, -⟩
    exact hnone ⟨σ, hassertion⟩

theorem eq_assertionKind_iff (h : Verdict D ref rule f facts verdict) :
    verdict = some ⟨ref.assertionKind, none⟩ ↔ ¬ ∃ σ, rule.assertion.Matches D σ f := by
  cases h with
  | accepted hinstance =>
    obtain ⟨σ, hassertion, -⟩ := hinstance
    exact iff_of_false (by simp) fun hnone => hnone ⟨σ, hassertion⟩
  | premises hassertion _ =>
    refine iff_of_false ?_ (not_not_intro hassertion)
    simp [ref.premisesKind_ne_assertionKind]
  | assertion hnone => exact iff_of_true rfl hnone

theorem eq_premisesKind_iff (h : Verdict D ref rule f facts verdict) :
    verdict = some ⟨ref.premisesKind, none⟩ ↔
      (∃ σ, rule.assertion.Matches D σ f) ∧ ¬ ∃ σ, rule.Instance D σ f facts := by
  cases h with
  | accepted hinstance => exact iff_of_false (by simp) fun hnone => hnone.2 hinstance
  | premises hassertion hnone => exact iff_of_true rfl ⟨hassertion, hnone⟩
  | assertion hnone =>
    refine iff_of_false ?_ fun hassertion => hnone hassertion.1
    simp [ref.premisesKind_ne_assertionKind.symm]

/-- The answer depends on the assertion, and on what there is among the premises and the facts. -/
theorem unique (h : Verdict D ref rule f facts verdict) (h' : Verdict D ref rule' f facts' verdict')
    (hassertion : rule'.assertion = rule.assertion)
    (hpremises : ∀ p, p ∈ rule'.premises ↔ p ∈ rule.premises)
    (hfacts : ∀ g, g ∈ facts' ↔ g ∈ facts) : verdict' = verdict := by
  have hinstance := instance_congr (D := D) (f := f) hassertion hpremises hfacts
  cases h with
  | accepted hsome =>
    rw [h'.eq_none_iff]
    simpa only [hinstance] using hsome
  | premises hsome hnone =>
    rw [h'.eq_premisesKind_iff]
    simpa only [hinstance, hassertion] using And.intro hsome hnone
  | assertion hnone =>
    rw [h'.eq_assertionKind_iff]
    simpa only [hassertion] using hnone

end Verdict

end Rule

/-! ## Bindings that are kept -/

namespace Bindings

open Formula

variable {D : Directory} {vars : Ref → Prop} {left right b c : Bindings}
  {candidates others : List Bindings}

/-- A choice between two sets of bindings: whatever either of them binds, bound to what one of them
binds it to. -/
structure Chosen (left right c : Bindings) : Prop where
  bound : ∀ ref, (c.get? ref).isSome = ((left.get? ref).isSome || (right.get? ref).isSome)
  value : ∀ {ref : Ref} {g : Formula}, c.get? ref = some g →
    left.get? ref = some g ∨ right.get? ref = some g

theorem chosen_union (left right : Bindings) : Chosen left right (left.union right) where
  bound := by
    intro ref
    rw [get?_union, Option.isSome_or]
  value := by
    intro ref g hg
    rw [get?_union, Option.or_eq_some_iff] at hg
    exact hg.imp_right And.right

/-- If two sets of bindings agree, all choices between them are alike. -/
theorem Chosen.alike (hb : Chosen left right b) (hc : Chosen left right c)
    (hagree : ∀ ref g h, left.get? ref = some g → right.get? ref = some h →
      D.compatible g h = .ok true ∧ D.compatible h g = .ok true) : b.Alike D c where
  bound := by
    intro ref
    rw [hb.bound, hc.bound]
  compatible := by
    intro ref g h hg hh
    rcases hb.value hg with hg | hg <;> rcases hc.value hh with hh | hh
    · obtain rfl : g = h := Option.some.inj (hg.symm.trans hh)
      exact D.compatible_self g
    · exact (hagree ref g h hg hh).1
    · exact (hagree ref h g hh hg).2
    · obtain rfl : g = h := Option.some.inj (hg.symm.trans hh)
      exact D.compatible_self g

section

variable (hD : D.Grounded)

include hD

/-- What a merge keeps is alike to every other choice that it could have made. -/
theorem alike_of_merge? {vars' : Ref → Prop} (hl : left.Regular (Formula.Resolved D) vars)
    (hr : right.Regular (Formula.Resolved D) vars') (hmerge : left.merge? D right = .ok (some b))
    (hc : Chosen left right c) : b.Alike D c := by
  have hentries : ∀ e ∈ right.entries, e.2.Resolved D := fun e he => hr.value (hr.entry e he)
  obtain ⟨agree, hagree, hiff⟩ := yields_agreesWith hD (fun h => h) hl hentries
  rw [merge?, hagree] at hmerge
  cases agree with
  | false => cases hmerge
  | true =>
    cases hmerge
    refine (chosen_union left right).alike hc fun ref g h hg hh => ?_
    have hnormal := hiff.mp rfl _ (hr.get?_eq_some_iff.mp hh) g hg
    rw [hD.compatible_iff (hl.value hg) (hr.value hh),
      hD.compatible_iff (hr.value hh) (hl.value hg)]
    exact ⟨hnormal, hnormal.symm⟩

theorem Solved.of_normal_eq (hb : b.Regular (Formula.Resolved D) vars)
    (hc : c.Regular (Formula.Resolved D) vars)
    (hnormal : ∀ ref g h, b.get? ref = some g → c.get? ref = some h → D.normal g = D.normal h)
    {σ : Ref → Formula} (hσ : ∀ ref, (σ ref).Resolved D) (hsolved : b.Solved D σ) :
    c.Solved D σ := by
  intro ref h hh
  have hbound : (b.get? ref).isSome := hb.binds.mpr (hc.binds.mp (by rw [hh]; rfl))
  obtain ⟨g, hg⟩ := Option.isSome_iff_exists.mp hbound
  exact (compatible_iff_of_normal_eq hD (fun h => h) (hσ ref) (hb.value hg) (hc.value hh)
    (hnormal ref g h hg hh)).mp (hsolved ref g hg)

/-- Bindings that are alike have the same solutions. -/
theorem Alike.solved_iff (hb : b.Regular (Formula.Resolved D) vars)
    (hc : c.Regular (Formula.Resolved D) vars) (h : b.Alike D c) {σ : Ref → Formula}
    (hσ : ∀ ref, (σ ref).Resolved D) : b.Solved D σ ↔ c.Solved D σ := by
  have hnormal : ∀ ref g h, b.get? ref = some g → c.get? ref = some h → D.normal g = D.normal h :=
    fun ref g h' hg hh => (hD.compatible_iff (hb.value hg) (hc.value hh)).mp (h.compatible hg hh)
  constructor
  · exact Solved.of_normal_eq hD hb hc hnormal hσ
  · exact Solved.of_normal_eq hD hc hb (fun ref g h hg hh => (hnormal ref h g hh hg).symm) hσ

theorem exists_solved_iff (hb : ∀ b ∈ candidates, b.Regular (Formula.Resolved D) vars)
    (hc : ∀ b ∈ others, b.Regular (Formula.Resolved D) vars)
    (h : List.Forall₂ (Alike D) candidates others) {σ : Ref → Formula}
    (hσ : ∀ ref, (σ ref).Resolved D) :
    (∃ b ∈ candidates, b.Solved D σ) ↔ ∃ b ∈ others, b.Solved D σ := by
  induction h with
  | nil => rfl
  | cons halike _ ih =>
    rw [List.forall_mem_cons] at hb hc
    rw [List.exists_mem_cons_iff, List.exists_mem_cons_iff, halike.solved_iff hD hb.1 hc.1 hσ,
      ih hb.2 hc.2]

end

end Bindings

/-! ## The answer -/

namespace Directory

open Formula Bindings

variable {D : Directory} {ref : RuleRef} {rule : Rule} {f : Formula} {facts : List Formula}

/-- **The matcher gives the verdict.**  The rule may come from another directory with the same
definitions. -/
theorem Grounded.yields_verdict (hD : D.Grounded) {D' : Directory}
    (hdefinitions : D'.definitions = D.definitions) (hrule : D'.rule? ref = some rule)
    (hf : f.Resolved D) (hfacts : ∀ g ∈ facts, g.Resolved D) :
    Yields (D'.ruleFault? ref f facts) (Rule.Verdict D ref rule f facts) := by
  have hP := hereditary_resolved D
  rw [ruleFault?, hrule]
  simp only [ofMatch?_congr hdefinitions, matchPremises_congr hdefinitions]
  refine (yields_ofMatch? hD (fun h => h) hP hf).bind fun required hrequired => ?_
  have hassertion := hrequired.eq_nil_iff fun h => h
  rw [exists_matches_iff hf] at hassertion
  cases required with
  | none => exact .pure (.assertion (hassertion.mp rfl))
  | some required =>
    refine (yields_matchPremises hD (fun h => h) hP hfacts hrequired).bind fun left hleft => .pure ?_
    have hpremises : left = [] ↔ ¬ ∃ σ, rule.Instance D σ f facts :=
      (hleft.eq_nil_iff fun h => h).trans (not_congr (Rule.exists_instance_iff hf hfacts))
    cases left with
    | nil =>
      refine .premises ?_ (hpremises.mp rfl)
      by_contra hnone
      cases hassertion.mpr hnone
    | cons b left =>
      refine .accepted ?_
      by_contra hnone
      cases hpremises.mpr hnone

/-- Alternatives that are alike are used up together. -/
theorem Grounded.matchPremises_alike (hD : D.Grounded) (hfacts : ∀ g ∈ facts, g.Resolved D)
    {vars : Ref → Prop} {candidates others : List Bindings}
    (hb : ∀ b ∈ candidates, b.Regular (Formula.Resolved D) vars)
    (hc : ∀ b ∈ others, b.Regular (Formula.Resolved D) vars)
    (h : List.Forall₂ (Alike D) candidates others) (premises : List Formula) :
    ∃ left left', D.matchPremises facts premises candidates = .ok left ∧
      D.matchPremises facts premises others = .ok left' ∧ (left = [] ↔ left' = []) := by
  have hP := hereditary_resolved D
  have hcandidates : Represents D (Formula.Resolved D) vars (fun σ => ∃ b ∈ candidates, b.Solved D σ)
      candidates := ⟨hb, fun _ _ => Iff.rfl⟩
  have hothers : Represents D (Formula.Resolved D) vars (fun σ => ∃ b ∈ candidates, b.Solved D σ)
      others := ⟨hc, fun _ hσ => (exists_solved_iff hD hb hc h hσ).symm⟩
  obtain ⟨left, hleft, hr⟩ : Yields (D.matchPremises facts premises candidates) _ :=
    yields_matchPremises hD (fun h => h) hP hfacts hcandidates
  obtain ⟨left', hleft', hr'⟩ : Yields (D.matchPremises facts premises others) _ :=
    yields_matchPremises hD (fun h => h) hP hfacts hothers
  refine ⟨left, left', hleft, hleft', ?_⟩
  rw [hr.eq_nil_iff fun h => h, hr'.eq_nil_iff fun h => h]

/-- **Citations are answered exactly.**  In a directory without errors, a rule may be cited for a
formula if one substitution makes the assertion match the formula and every premise some fact.  The
assertion is reported if no substitution makes it match, and the premises otherwise.  Neither the
order of premises and facts matters, nor how often they are repeated, nor which of the formulas that
agree is kept. -/
theorem ruleFault?_exact (hverify : D.verify.errors = []) (hrule : D.rule? ref = some rule)
    (hf : f.Resolved D) (hfacts : ∀ g ∈ facts, g.Resolved D) :
    (D.ruleFault? ref f facts = .ok none ↔ ∃ σ, rule.Instance D σ f facts) ∧
    (D.ruleFault? ref f facts = .ok (some ⟨ref.assertionKind, none⟩) ↔
      ¬ ∃ σ, rule.assertion.Matches D σ f) ∧
    (D.ruleFault? ref f facts = .ok (some ⟨ref.premisesKind, none⟩) ↔
      (∃ σ, rule.assertion.Matches D σ f) ∧ ¬ ∃ σ, rule.Instance D σ f facts) ∧
    (∀ (D' : Directory) (rule' : Rule) (facts' : List Formula),
      D'.definitions = D.definitions → D'.rule? ref = some rule' →
      rule'.assertion = rule.assertion → (∀ p, p ∈ rule'.premises ↔ p ∈ rule.premises) →
      (∀ g, g ∈ facts' ↔ g ∈ facts) →
      D'.ruleFault? ref f facts' = D.ruleFault? ref f facts) ∧
    (∀ (vars vars' : Ref → Prop) (left right b c : Bindings), left.Regular (Formula.Resolved D) vars →
      right.Regular (Formula.Resolved D) vars' → left.merge? D right = .ok (some b) →
      Chosen left right c → b.Alike D c) ∧
    ∀ (vars : Ref → Prop) (candidates others : List Bindings) (premises : List Formula),
      (∀ b ∈ candidates, b.Regular (Formula.Resolved D) vars) →
      (∀ b ∈ others, b.Regular (Formula.Resolved D) vars) →
      List.Forall₂ (Alike D) candidates others →
      ∃ left left', D.matchPremises facts premises candidates = .ok left ∧
        D.matchPremises facts premises others = .ok left' ∧ (left = [] ↔ left' = []) := by
  have hD := (verify_errors_eq_nil_iff.mp hverify).typed.grounded
  obtain ⟨verdict, hverdict, h⟩ := hD.yields_verdict rfl hrule hf hfacts
  simp only [hverdict, Except.ok.injEq]
  refine ⟨h.eq_none_iff, h.eq_assertionKind_iff, h.eq_premisesKind_iff, ?_, ?_, ?_⟩
  · intro D' rule' facts' hdefinitions hrule' hassertion hpremises hsame
    obtain ⟨verdict', hverdict', h'⟩ := hD.yields_verdict hdefinitions hrule' hf
      fun g hg => hfacts g ((hsame g).mp hg)
    rw [hverdict', h.unique h' hassertion hpremises hsame]
  · intro vars vars' left right b c hl hr hmerge hc
    exact alike_of_merge? hD hl hr hmerge hc
  · intro vars candidates others premises hb hc halike
    exact hD.matchPremises_alike hfacts hb hc halike premises

end Directory

namespace Sample

/-- Two links, the later one first.  What they have in common is folded up in one of them. -/
def links : List Formula :=
  [relation.apply [function (function (.var 1)), .var 2], relation.apply [.var 0, twice (.var 1)]]

/-- Transitivity joins the links in either order, and not the other way round. -/
theorem ruleFault?_links :
    directory.verify.errors = [] ∧ directory.rule? (.ofAxiom 1) = some directory.axioms[1] ∧
      (∀ g ∈ links, g.Resolved directory) ∧
      (∃ σ, directory.axioms[1].Instance directory σ (relation.relates 0 2) links) ∧
      directory.ruleFault? (.ofAxiom 1) (relation.relates 0 2) links.reverse = .ok none ∧
      (∃ σ, directory.axioms[1].assertion.Matches directory σ (relation.relates 2 0)) ∧
      ¬ ∃ σ, directory.axioms[1].Instance directory σ (relation.relates 2 0) links := by
  have hlinks : ∀ g ∈ links, g.Resolved directory := by
    rw [links, List.forall_mem_cons, List.forall_mem_singleton]
    exact ⟨(Directory.unfolds_of_unfold rfl).resolved, (Directory.unfolds_of_unfold rfl).resolved⟩
  have hrule : directory.rule? (.ofAxiom 1) = some directory.axioms[1] := rfl
  obtain ⟨haccepted, -, -, horder, -, -⟩ := Directory.ruleFault?_exact verify_errors hrule
    (Directory.unfolds_of_unfold (f := relation.relates 0 2) rfl).resolved hlinks
  obtain ⟨-, -, hrefused, -, -, -⟩ := Directory.ruleFault?_exact verify_errors hrule
    (Directory.unfolds_of_unfold (f := relation.relates 2 0) rfl).resolved hlinks
  have hok : directory.ruleFault? (.ofAxiom 1) (relation.relates 0 2) links = .ok none := rfl
  refine ⟨verify_errors, hrule, hlinks, haccepted.mp hok, ?_, hrefused.mp rfl⟩
  exact (horder directory directory.axioms[1] links.reverse rfl hrule rfl (fun _ => Iff.rfl)
    fun _ => List.mem_reverse).trans hok

end Sample

end Deduction
