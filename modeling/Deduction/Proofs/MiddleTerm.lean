import Deduction.Proofs.Search

/-!
# Substitution finds a middle term if there is one

Substitution goes through the facts in order and tries each relation `m ~ m'` among them: it relates
the left side of the goal to `m`, and then `m'` to the right side, on the chain that the first search
has left behind.  What the first search has added cannot be told from the facts by the second.  It
may shorten what is to be done, but it changes nothing about what can be done, because nothing new
follows from what is related already (`Related.closed`).  So a fact can serve as middle term exactly
if each side can be had by function application from the facts alone (`Laws.Joins`).

A candidate that fails leaves nothing behind, and its reasons are not reported.

The steps of the chain are those that function application gives for the left side, then those that
it gives for the right side once the former are facts, then the two by transitivity, as far as they
are needed (`Laws.LeadsThrough`).  Here it matters that a search looks at what is known and not at
the steps that led to it (`Chain.Alike`).

* `Chain.Alike.prove`: a search depends only on what is known.
* `Laws.exists_throughMiddle_iff`: which facts serve as middle terms.
* `Laws.firstMiddle_append`, `Laws.firstMiddle_cons`: the first that serves is taken.
* `substitution_finds_middle`: the macro.
-/

namespace Deduction

open Formula

/-! ## What a search depends on -/

namespace Chain

/-- Two chains that know the same, the first of which has some earlier steps in front. -/
structure Alike (earlier : List Step) (c d : Chain) : Prop where
  known : ∀ f, f ∈ c.known ↔ f ∈ d.known
  steps : c.steps = earlier ++ d.steps

variable {laws : Laws} {relation : Head} {facts : List Formula} {earlier : List Step}
  {l r : Formula} {c c' d d' : Chain}

theorem Alike.emit (h : Alike earlier c d) (law : RuleRef) (f : Formula) :
    Alike earlier (c.emit law f) (d.emit law f) := by
  rw [Chain.emit, Chain.emit]
  by_cases hf : f ∈ d.known
  · rw [if_pos hf, if_pos ((h.known f).mpr hf)]
    exact h
  · rw [if_neg hf, if_neg (mt (h.known f).mp hf)]
    constructor
    · intro g
      rw [List.mem_cons, List.mem_cons, h.known g]
    · dsimp only
      rw [h.steps, List.append_assoc]

theorem Alike.direct? (h : Alike earlier c d) (laws : Laws) (relation : Head) (l r : Formula) :
    Option.Rel (Alike earlier) (laws.direct? relation l r c) (laws.direct? relation l r d) := by
  simp only [Laws.direct?, h.known]
  split
  · exact .some h
  · split
    · exact .some (h.emit _ _)
    · split
      · split
        · exact .some (h.emit _ _)
        · exact .none
      · exact .none

theorem Through.alike {xs ys : List Formula}
    (h : Through (fun x y c c' => ∀ d, Alike earlier c d →
      ∃ d', prove laws relation x y d = .ok d' ∧ Alike earlier c' d') xs ys c c')
    (hcd : Alike earlier c d) :
    ∃ d', proveAll laws relation xs ys d = .ok d' ∧ Alike earlier c' d' := by
  induction h generalizing d with
  | nil c => exact ⟨d, by rw [proveAll.eq_def], hcd⟩
  | cons hfirst _ ih =>
    obtain ⟨d₁, hd₁, hcd₁⟩ := hfirst d hcd
    obtain ⟨d', hd', hcd'⟩ := ih hcd₁
    exact ⟨d', by rw [proveAll, hd₁]; exact hd', hcd'⟩

/-- **A search depends only on what is known**, and adds the same steps behind whatever steps there
are. -/
theorem Alike.prove (hcd : Alike earlier c d) (h : prove laws relation l r c = .ok c') :
    ∃ d', Chain.prove laws relation l r d = .ok d' ∧ Alike earlier c' d' := by
  refine prove_induct (motive := fun l r c c' => ∀ d, Alike earlier c d →
    ∃ d', Chain.prove laws relation l r d = .ok d' ∧ Alike earlier c' d') ?_ ?_ h d hcd
  · intro l r c c' hdirect d hcd
    have hrel := hcd.direct? laws relation l r
    rw [hdirect] at hrel
    generalize hd : laws.direct? relation l r d = answer at hrel
    cases hrel with
    | some hcd' => exact ⟨_, prove_of_direct? hd, hcd'⟩
  · intro l r c c' function lefts rights law hdirect hl hr hlaw hthrough d hcd
    have hrel := hcd.direct? laws relation l r
    rw [hdirect] at hrel
    -- what one chain has to take apart, the other one has to take apart too
    generalize hd : laws.direct? relation l r d = answer at hrel
    cases hrel
    obtain ⟨-, hlen, -⟩ := Laws.congruence_of_spine? hl hr hlaw
    obtain ⟨d', hinputs, hcd'⟩ := hthrough.alike hcd
    refine ⟨d'.emit law (relation.apply [l, r]), ?_, hcd'.emit law _⟩
    rw [prove_of_spine? hl hr hlen hd hlaw, hinputs]
    rfl

/-- What is known after some steps could as well have been facts. -/
theorem Tracks.alike (h : Tracks facts c) :
    Alike c.steps c ⟨facts ++ c.steps.map Step.formula, []⟩ :=
  ⟨h, (List.append_nil _).symm⟩

end Chain

/-! ## Middle terms -/

namespace Laws

variable {laws : Laws} {relation : Head} {facts : List Formula}
  {goal l r middleLeft middleRight : Formula} {transitivity : RuleRef} {chain : List Step}

/-- Each side of a goal can be related to its own side of a relation between middle terms by
function application, from the same facts. -/
def Joins (laws : Laws) (facts : List Formula) (relation : Head)
    (l r middleLeft middleRight : Formula) : Prop :=
  (∃ steps, synthesizeFunctionApplication laws facts (relation.apply [l, middleLeft]) = .ok steps) ∧
  ∃ steps, synthesizeFunctionApplication laws facts (relation.apply [middleRight, r]) = .ok steps

/-- The chain through a relation between middle terms: what function application gives for the left
side, what it gives for the right side once that is known, and then the two joins by transitivity
that are not known. -/
def LeadsThrough (laws : Laws) (facts : List Formula) (relation : Head)
    (l r middleLeft middleRight : Formula) (chain : List Step) : Prop :=
  ∃ transitivity first second, laws.registry.transitivity? relation = some transitivity ∧
    synthesizeFunctionApplication laws facts (relation.apply [l, middleLeft]) = .ok first ∧
    synthesizeFunctionApplication laws (facts ++ first.map Step.formula)
      (relation.apply [middleRight, r]) = .ok second ∧
    chain = first ++ second ++
      (((⟨facts ++ (first ++ second).map Step.formula, []⟩ : Chain).emit transitivity
        (relation.apply [l, middleRight])).emit transitivity (relation.apply [l, r])).steps

/-- **A relation between middle terms serves exactly if both sides can be had from the facts.**  The
second search knows what the first one has found, and gains nothing by it. -/
theorem exists_throughMiddle_iff (hpreorder : laws.registry.isPreorder relation = true) :
    (∃ chain, throughMiddle laws facts goal ⟨relation, l, r⟩ transitivity middleLeft middleRight =
      .ok chain) ↔ laws.Joins facts relation l r middleLeft middleRight := by
  obtain ⟨⟨reflexivity, hreflexivity⟩, -⟩ := Registry.exists_of_isPreorder hpreorder
  rw [Joins, exists_functionApplication_iff hpreorder, exists_functionApplication_iff hpreorder]
  constructor
  · rintro ⟨chain, h⟩
    obtain ⟨c, hleft, h⟩ := bind_eq_ok.mp h
    obtain ⟨c', hright, -⟩ := bind_eq_ok.mp h
    have hfirst := Chain.generates_of_prove hleft
    have hsecond := Chain.generates_of_prove hright
    -- what the second search found follows from what the first one knew in the end, and that from
    -- the facts
    refine ⟨hfirst.1.related hfirst.2, ?_⟩
    exact (hsecond.1.related hsecond.2).closed fun _ _ => hfirst.1.related
  · rintro ⟨hl, hr⟩
    obtain ⟨c, hleft⟩ := (Chain.exists_prove_iff (c := ⟨facts, []⟩) hreflexivity).mpr hl
    obtain ⟨c', hright⟩ := Chain.exists_prove_of_related hreflexivity hr
      (Chain.generates_of_prove hleft).1.grows
    exact ⟨_, bind_eq_ok.mpr ⟨c, hleft, bind_eq_ok.mpr ⟨c', hright, rfl⟩⟩⟩

/-- The parts of a chain through middle terms. -/
theorem leadsThrough_of_throughMiddle (hpreorder : laws.registry.isPreorder relation = true)
    (hlaw : laws.registry.transitivity? relation = some transitivity)
    (h : throughMiddle laws facts (relation.apply [l, r]) ⟨relation, l, r⟩ transitivity middleLeft
      middleRight = .ok chain) :
    laws.LeadsThrough facts relation l r middleLeft middleRight chain := by
  obtain ⟨c, hleft, h⟩ := bind_eq_ok.mp h
  obtain ⟨c', hright, h⟩ := bind_eq_ok.mp h
  cases h
  have hc := (Chain.tracks_start facts).prove hleft
  obtain ⟨d, hd, hcd⟩ := hc.alike.prove hright
  refine ⟨transitivity, c.steps, d.steps, hlaw, ?_, ?_, ?_⟩
  · rw [functionApplication_apply hpreorder, hleft]
    rfl
  · rw [functionApplication_apply hpreorder, hd]
    rfl
  · -- whether a join is needed depends on what is known after both searches
    rw [← hcd.steps]
    exact (((hc.prove hright).alike.emit transitivity _).emit transitivity _).steps

/-! ## The first middle term -/

/-- Candidates that fail are passed over. -/
theorem firstMiddle_append {before : List Formula} (rest : List Formula)
    (h : ∀ middleLeft middleRight, relation.apply [middleLeft, middleRight] ∈ before →
      ∀ chain, throughMiddle laws facts goal ⟨relation, l, r⟩ transitivity middleLeft middleRight ≠
        .ok chain) :
    firstMiddle laws facts goal ⟨relation, l, r⟩ transitivity (before ++ rest) =
      firstMiddle laws facts goal ⟨relation, l, r⟩ transitivity rest := by
  induction before with
  | nil => rfl
  | cons candidate before ih =>
    have hrest := ih fun middleLeft middleRight hmem =>
      h middleLeft middleRight (List.mem_cons_of_mem _ hmem)
    rw [List.cons_append, firstMiddle]
    split
    · next relation' middleLeft middleRight hcandidate =>
      split
      · exact hrest
      · next hrelation =>
        obtain rfl : relation' = relation := not_ne_iff.mp hrelation
        obtain rfl := binary?_eq_some_iff.mp hcandidate
        split
        · next steps hsteps => exact absurd hsteps (h _ _ List.mem_cons_self steps)
        · exact hrest
    · exact hrest

/-- A candidate that serves is taken. -/
theorem firstMiddle_cons (rest : List Formula)
    (h : throughMiddle laws facts goal ⟨relation, l, r⟩ transitivity middleLeft middleRight =
      .ok chain) :
    firstMiddle laws facts goal ⟨relation, l, r⟩ transitivity
      (relation.apply [middleLeft, middleRight] :: rest) = .ok chain := by
  rw [firstMiddle, binary?_apply]
  dsimp only
  rw [if_neg (not_not_intro rfl), h]

theorem exists_firstMiddle {candidates : List Formula}
    (hmem : relation.apply [middleLeft, middleRight] ∈ candidates)
    (h : throughMiddle laws facts goal ⟨relation, l, r⟩ transitivity middleLeft middleRight =
      .ok chain) :
    ∃ chain, firstMiddle laws facts goal ⟨relation, l, r⟩ transitivity candidates = .ok chain := by
  induction candidates with
  | nil => cases hmem
  | cons candidate candidates ih =>
    rcases List.mem_cons.mp hmem with rfl | hmem
    · exact ⟨chain, firstMiddle_cons candidates h⟩
    · rw [firstMiddle]
      split
      · split
        · exact ih hmem
        · split
          · exact ⟨_, rfl⟩
          · exact ih hmem
      · exact ih hmem

end Laws

/-- **Substitution finds a middle term if there is one.**  It succeeds exactly if some fact relates
middle terms to which both sides can be related by function application, each from the facts alone.
The chain then is that of the first such fact; and if there is none, that is what is reported. -/
theorem substitution_finds_middle {laws : Laws} {relation : Head}
    (hpreorder : laws.registry.isPreorder relation = true) (facts : List Formula) (l r : Formula) :
    ((∃ chain, synthesizeSubstitution laws facts (relation.apply [l, r]) = .ok (.ok chain)) ↔
      ∃ middleLeft middleRight, relation.apply [middleLeft, middleRight] ∈ facts ∧
        laws.Joins facts relation l r middleLeft middleRight) ∧
    (∀ before after middleLeft middleRight,
      facts = before ++ relation.apply [middleLeft, middleRight] :: after →
      (∀ left right, relation.apply [left, right] ∈ before →
        ¬ laws.Joins facts relation l r left right) →
      laws.Joins facts relation l r middleLeft middleRight →
      ∃ chain, synthesizeSubstitution laws facts (relation.apply [l, r]) = .ok (.ok chain) ∧
        laws.LeadsThrough facts relation l r middleLeft middleRight chain) ∧
    ((∀ middleLeft middleRight, relation.apply [middleLeft, middleRight] ∈ facts →
        ¬ laws.Joins facts relation l r middleLeft middleRight) →
      synthesizeSubstitution laws facts (relation.apply [l, r]) =
        .ok (.error .substitutionNoMiddleTerm)) := by
  obtain ⟨-, transitivity, hlaw⟩ := Registry.exists_of_isPreorder hpreorder
  have hserves : ∀ {middleLeft middleRight : Formula}, (∃ chain, throughMiddle laws facts
      (relation.apply [l, r]) ⟨relation, l, r⟩ transitivity middleLeft middleRight = .ok chain) ↔
      laws.Joins facts relation l r middleLeft middleRight :=
    Laws.exists_throughMiddle_iff hpreorder
  rw [Laws.substitution_apply hpreorder hlaw]
  refine ⟨⟨?_, ?_⟩, ?_, fun hnone => ?_⟩
  · rintro ⟨chain, h⟩
    obtain ⟨middleLeft, middleRight, hmem, hchain⟩ := Laws.exists_throughMiddle (Except.ok.inj h)
    exact ⟨middleLeft, middleRight, hmem, hserves.mp ⟨chain, hchain⟩⟩
  · rintro ⟨middleLeft, middleRight, hmem, hjoins⟩
    obtain ⟨chain, hchain⟩ := hserves.mpr hjoins
    obtain ⟨chain', hchain'⟩ := Laws.exists_firstMiddle hmem hchain
    exact ⟨chain', congrArg Except.ok hchain'⟩
  · intro before after middleLeft middleRight hfacts hbefore hjoins
    obtain ⟨chain, hchain⟩ := hserves.mpr hjoins
    have hskip := Laws.firstMiddle_append (relation.apply [middleLeft, middleRight] :: after)
      fun left right hmem chain hok => hbefore left right hmem (hserves.mp ⟨chain, hok⟩)
    rw [← hfacts, Laws.firstMiddle_cons after hchain] at hskip
    exact ⟨chain, congrArg Except.ok hskip,
      Laws.leadsThrough_of_throughMiddle hpreorder hlaw hchain⟩
  · have hskip := Laws.firstMiddle_append [] fun left right hmem chain hok =>
      hnone left right hmem (hserves.mp ⟨chain, hok⟩)
    rw [List.append_nil] at hskip
    exact congrArg Except.ok hskip

namespace Sample

/-- `f 0 ~ f 2` goes through the second of three facts, because `f 0` cannot be related to the left
side of the first one. -/
theorem substitution_finds_middle_swap :
    laws.registry.isPreorder relation = true ∧
      (∃ middleLeft middleRight, relation.apply [middleLeft, middleRight] ∈ swap.premises ∧
        laws.Joins swap.premises relation (function (.var 0)) (function (.var 2)) middleLeft
          middleRight) ∧
      laws.LeadsThrough swap.premises relation (function (.var 0)) (function (.var 2))
        (function (.var 1)) (function (.var 3)) swapChain := by
  have hpreorder : laws.registry.isPreorder relation = true := rfl
  obtain ⟨hiff, hfirst, -⟩ :=
    substitution_finds_middle hpreorder swap.premises (function (.var 0)) (function (.var 2))
  have hchain : synthesizeSubstitution laws swap.premises
      (relation.apply [function (.var 0), function (.var 2)]) = .ok (.ok swapChain) := by rfl
  have hstuck : synthesizeFunctionApplication laws swap.premises
      (relation.apply [function (.var 0), .var 0]) = .error .congruenceNotDecomposable := by rfl
  have hbefore : ∀ left right, relation.apply [left, right] ∈ [relation.relates 0 1] →
      ¬ laws.Joins swap.premises relation (function (.var 0)) (function (.var 2)) left right := by
    rintro left right hmem ⟨⟨steps, hsteps⟩, -⟩
    obtain ⟨rfl, rfl⟩ := Head.apply_pair_inj.mp (List.mem_singleton.mp hmem)
    rw [hstuck] at hsteps
    cases hsteps
  refine ⟨hpreorder, hiff.mp ⟨swapChain, hchain⟩, ?_⟩
  obtain ⟨chain, hok, hleads⟩ := hfirst [relation.relates 0 1] [relation.relates 3 2]
    (function (.var 1)) (function (.var 3)) rfl hbefore ⟨⟨_, by rfl⟩, _, by rfl⟩
  rw [hchain] at hok
  cases hok
  exact hleads

end Sample

end Deduction
