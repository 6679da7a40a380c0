import Deduction.Proofs.Chains

/-!
# What function application can relate

Relating two formulas by function application is a search that never goes back: the first case that
applies is taken, inputs are related from left to right, and what has been found is known from then
on, so that it may be used for a later input, turned around if the relation is symmetric.  It is a
recursion over the left formula, so it ends with an answer whatever the facts and the laws are.

What the search finds is nevertheless a relation that does not mention any search.  It is generated
by the facts, by reflexivity, by facts that are turned around, and by the congruence laws
(`Related`).  There is no law among its generators that turns around what has been found, but with a
symmetry law for the relation it is symmetric.

Whatever the search adds to what is known was related before (`Chain.Generates`), and what follows
from related formulas is related already (`Related.closed`), so nothing is gained by using it.  Nor
is anything lost, because a search that knows more gets at least as far: where two formulas are taken
apart, it is the inputs of their spines that are related in order (`Chain.prove_of_spine?`), and each
of them can be related whatever has become known in between.

* `Related`: the relation that is generated.
* `Chain.exists_prove_iff`: the search finds exactly this relation, from any chain.
* `exists_functionApplication_iff`, `functionApplication_decides`: the macro, and what more facts do.
-/

namespace Deduction

open Formula

/-- The relation that is generated by the facts and the laws: facts, equal sides, facts that are
turned around, and formulas with one head whose inputs are related. -/
inductive Related (laws : Laws) (relation : Head) (facts : List Formula) : Formula → Formula → Prop
  | fact {a b : Formula} : relation.apply [a, b] ∈ facts → Related laws relation facts a b
  | refl (a : Formula) : Related laws relation facts a a
  | symmetric {a b : Formula} {law : RuleRef} : laws.registry.symmetry? relation = some law →
      relation.apply [b, a] ∈ facts → Related laws relation facts a b
  | congruence {a b : Formula} {function : Head} {xs ys : List Formula} {law : RuleRef}
      {rule : Rule} : a.spine? = some (function, xs) → b.spine? = some (function, ys) →
      xs.length = ys.length → laws.registry.congruence? function relation = some law →
      laws.directory.rule? law = some rule → rule.premises.length = xs.length →
      (∀ p ∈ xs.zip ys, Related laws relation facts p.1 p.2) → Related laws relation facts a b

namespace Related

variable {laws : Laws} {relation : Head} {facts facts' : List Formula} {a b : Formula}

/-- With a symmetry law, the relation is symmetric. -/
theorem symm {law : RuleRef} (hlaw : laws.registry.symmetry? relation = some law)
    (h : Related laws relation facts a b) : Related laws relation facts b a := by
  induction h with
  | fact hfact => exact .symmetric hlaw hfact
  | refl a => exact .refl a
  | symmetric _ hfact => exact .fact hfact
  | congruence ha hb hlen hcongruence hrule hpremises _ ih =>
    refine .congruence hb ha hlen.symm hcongruence hrule (hpremises.trans hlen) fun p hp => ?_
    exact ih (p.2, p.1) (mem_zip_comm.mp hp)

/-- **Nothing new follows from what is related already.** -/
theorem closed (hfacts : ∀ a b, relation.apply [a, b] ∈ facts' → Related laws relation facts a b)
    (h : Related laws relation facts' a b) : Related laws relation facts a b := by
  induction h with
  | fact hfact => exact hfacts _ _ hfact
  | refl a => exact .refl a
  | symmetric hlaw hfact => exact (hfacts _ _ hfact).symm hlaw
  | congruence ha hb hlen hcongruence hrule hpremises _ ih =>
    exact .congruence ha hb hlen hcongruence hrule hpremises ih

theorem mono (hsub : facts ⊆ facts') (h : Related laws relation facts a b) :
    Related laws relation facts' a b :=
  h.closed fun _ _ hfact => .fact (hsub hfact)

end Related

/-- A relation between two formulas determines them. -/
theorem Head.apply_pair_inj {relation : Head} {a b x y : Formula} :
    relation.apply [a, b] = relation.apply [x, y] ↔ a = x ∧ b = y := by
  rw [Head.apply_inj, and_iff_right rfl, List.cons.injEq, List.cons.injEq, and_iff_left rfl]

namespace Chain

variable {laws : Laws} {relation : Head} {l r : Formula} {c c' c'' : Chain}

/-! ## Only related formulas are found -/

/-- A part of the synthesis that forgets nothing, and comes to know only relations that follow from
what was known. -/
structure Generates (laws : Laws) (relation : Head) (c c' : Chain) : Prop where
  grows : c.known ⊆ c'.known
  related : ∀ {a b : Formula}, relation.apply [a, b] ∈ c'.known →
    Related laws relation c.known a b

theorem Generates.refl (c : Chain) : Generates laws relation c c :=
  ⟨List.Subset.refl _, .fact⟩

theorem Generates.trans (h : Generates laws relation c c') (h' : Generates laws relation c' c'') :
    Generates laws relation c c'' where
  grows := List.Subset.trans h.grows h'.grows
  related := fun hmem => (h'.related hmem).closed fun _ _ => h.related

/-- A step for formulas that are related. -/
theorem Generates.emit (h : Generates laws relation c c') (hlr : Related laws relation c.known l r)
    (law : RuleRef) : Generates laws relation c (c'.emit law (relation.apply [l, r])) where
  grows := fun _ hmem => mem_known_emit (h.grows hmem) law _
  related := by
    intro a b hmem
    rw [Chain.emit] at hmem
    split at hmem
    · exact h.related hmem
    · rcases List.mem_cons.mp hmem with heq | hmem
      · obtain ⟨rfl, rfl⟩ := Head.apply_pair_inj.mp heq
        exact hlr
      · exact h.related hmem

theorem Through.generates {xs ys : List Formula}
    (h : Through (fun x y c c' => Generates laws relation c c' ∧ relation.apply [x, y] ∈ c'.known)
      xs ys c c') :
    Generates laws relation c c' ∧ ∀ p ∈ xs.zip ys, relation.apply [p.1, p.2] ∈ c'.known := by
  induction h with
  | nil c => exact ⟨.refl c, List.forall_mem_nil _⟩
  | cons hfirst _ ih =>
    refine ⟨hfirst.1.trans ih.1, ?_⟩
    rw [List.zip_cons_cons, List.forall_mem_cons]
    exact ⟨ih.1.grows hfirst.2, ih.2⟩

/-- **What is found was related**, and the two sides are among it. -/
theorem generates_of_prove (h : prove laws relation l r c = .ok c') :
    Generates laws relation c c' ∧ relation.apply [l, r] ∈ c'.known := by
  refine prove_induct (motive := fun l r c c' =>
    Generates laws relation c c' ∧ relation.apply [l, r] ∈ c'.known) ?_ ?_ h
  · intro l r c c' hdirect
    rcases Laws.direct?_cases hdirect with
      ⟨hknown, rfl⟩ | ⟨rfl, law, -, rfl⟩ | ⟨hknown, law, hlaw, rfl⟩
    · exact ⟨.refl c', hknown⟩
    · exact ⟨(Generates.refl c).emit (.refl l) law, mem_known_emit_self c law _⟩
    · exact ⟨(Generates.refl c).emit (.symmetric hlaw hknown) law, mem_known_emit_self c law _⟩
  · intro l r c c' function lefts rights law _ hl hr hlaw hthrough
    obtain ⟨hgenerates, hinputs⟩ := hthrough.generates
    obtain ⟨-, hlen, hcongruence, rule, hrule, hpremises⟩ := Laws.congruence_of_spine? hl hr hlaw
    have hrelated : Related laws relation c.known l r :=
      .congruence hl hr hlen hcongruence hrule hpremises fun p hp =>
        hgenerates.related (hinputs p hp)
    exact ⟨hgenerates.emit hrelated law, mem_known_emit_self c' law _⟩

/-! ## All related formulas are found -/

theorem prove_of_direct? (h : laws.direct? relation l r c = some c') :
    prove laws relation l r c = .ok c' := by
  rw [prove.eq_def]
  cases l <;> simp only [h]

/-- The last inputs come last. -/
theorem proveAll_concat {xs ys : List Formula} (hlen : xs.length = ys.length) (x y : Formula)
    (c : Chain) : proveAll laws relation (xs ++ [x]) (ys ++ [y]) c =
      proveAll laws relation xs ys c >>= prove laws relation x y := by
  induction xs generalizing ys c with
  | nil =>
    obtain rfl := List.length_eq_zero_iff.mp hlen.symm
    simp only [List.nil_append, proveAll]
    exact bind_pure _
  | cons x' xs ih =>
    obtain ⟨y', ys, rfl⟩ := List.exists_cons_of_length_eq_add_one hlen.symm
    simp only [List.cons_append, proveAll, bind_assoc, ih (Nat.succ.inj hlen)]

/-- The arguments that two symbols are applied to are related like the inputs of a definition. -/
theorem proveArguments_eq_proveAll {f g : Formula} {ref ref' : Ref} {xs ys : List Formula}
    (hf : f.symbolSpine? = some (ref, xs)) (hg : g.symbolSpine? = some (ref', ys))
    (hlen : xs.length = ys.length) (c : Chain) :
    proveArguments laws relation f g c = proveAll laws relation xs ys c := by
  induction f using inductionOn generalizing g xs ys c with
  | symbol =>
    cases hf
    obtain rfl := List.length_eq_zero_iff.mp hlen.symm
    rw [proveArguments.eq_def, proveAll.eq_def]
  | var => cases hf
  | definition => cases hf
  | app f x ihf _ =>
    obtain ⟨xs, hf', rfl⟩ := symbolSpine?_app_eq_some_iff.mp hf
    cases g with
    | symbol =>
      cases hg
      simp at hlen
    | var => cases hg
    | definition => cases hg
    | app g y =>
      obtain ⟨ys, hg', rfl⟩ := symbolSpine?_app_eq_some_iff.mp hg
      simp only [List.length_append, List.length_cons, Nat.add_right_cancel_iff] at hlen
      rw [proveArguments, proveAll_concat hlen, ihf hf' hg' hlen]

/-- **Taking two formulas with one head apart**: their inputs are related in order. -/
theorem prove_of_spine? {function : Head} {xs ys : List Formula} {law : RuleRef}
    (hl : l.spine? = some (function, xs)) (hr : r.spine? = some (function, ys))
    (hlen : xs.length = ys.length) (hdirect : laws.direct? relation l r c = none)
    (hlaw : laws.congruenceFor relation l r = .ok law) :
    prove laws relation l r c = do
      let chain ← proveAll laws relation xs ys c
      return chain.emit law (relation.apply [l, r]) := by
  cases l with
  | symbol ref =>
    cases hl
    obtain rfl := List.length_eq_zero_iff.mp hlen.symm
    rw [prove.eq_def, proveAll.eq_def]
    simp only [hdirect, hlaw]
    rfl
  | var ref => cases hl
  | app f x =>
    obtain ⟨ref, rfl, hf⟩ := spine?_app_eq_some_iff.mp hl
    obtain ⟨init, -, rfl⟩ := symbolSpine?_app_eq_some_iff.mp hf
    cases r with
    | symbol ref' =>
      cases hr
      simp at hlen
    | var ref' => cases hr
    | definition ref' others => cases hr
    | app g y =>
      obtain ⟨ref', -, hg⟩ := spine?_app_eq_some_iff.mp hr
      rw [prove_app, hdirect, hlaw, ← proveArguments_eq_proveAll hf hg hlen]
      rfl
  | definition ref inputs =>
    cases hl
    cases r with
    | definition ref' others =>
      cases hr
      rw [prove.eq_def]
      simp only [hdirect, hlaw]
      rfl
    | symbol ref' => cases hr
    | var ref' => cases hr
    | app g y =>
      obtain ⟨ref', heq, -⟩ := spine?_app_eq_some_iff.mp hr
      cases heq

/-- If every pair can be related from whatever knows the facts, all of them can in turn. -/
theorem exists_proveAll {facts xs ys : List Formula}
    (h : ∀ p ∈ xs.zip ys, ∀ c : Chain, facts ⊆ c.known →
      ∃ c', prove laws relation p.1 p.2 c = .ok c')
    (hc : facts ⊆ c.known) : ∃ c', proveAll laws relation xs ys c = .ok c' := by
  induction xs generalizing ys c with
  | nil => exact ⟨c, by rw [proveAll.eq_def]⟩
  | cons x xs ih =>
    cases ys with
    | nil => exact ⟨c, by rw [proveAll.eq_def]⟩
    | cons y ys =>
      rw [List.zip_cons_cons, List.forall_mem_cons] at h
      obtain ⟨c₁, hfirst⟩ := h.1 c hc
      obtain ⟨c', hrest⟩ := ih h.2 (List.Subset.trans hc (generates_of_prove hfirst).1.grows)
      refine ⟨c', ?_⟩
      rw [proveAll, hfirst]
      exact hrest

/-- **What is related is found** from every chain that knows the facts, if the relation is
reflexive by law. -/
theorem exists_prove_of_related {facts : List Formula} {reflexivity : RuleRef}
    (hreflexivity : laws.registry.reflexivity? relation = some reflexivity)
    (h : Related laws relation facts l r) (hc : facts ⊆ c.known) :
    ∃ c', prove laws relation l r c = .ok c' := by
  induction h generalizing c with
  | fact hfact =>
    refine ⟨c, prove_of_direct? ?_⟩
    rw [Laws.direct?, if_pos (hc hfact)]
  | refl a =>
    refine Option.isSome_iff_exists.mp ?_ |>.imp fun _ => prove_of_direct?
    rw [Laws.direct?, decide_eq_true rfl, hreflexivity]
    split <;> rfl
  | @symmetric a b law hlaw hfact =>
    refine Option.isSome_iff_exists.mp ?_ |>.imp fun _ => prove_of_direct?
    rw [Laws.direct?, hlaw]
    dsimp only
    rw [if_pos (hc hfact)]
    split
    · rfl
    · split <;> rfl
  | @congruence a b function xs ys law rule ha hb hlen hcongruence hrule hpremises _ ih =>
    cases hdirect : laws.direct? relation a b c with
    | some c' => exact ⟨c', prove_of_direct? hdirect⟩
    | none =>
      have hlaw : laws.congruenceFor relation a b = .ok law := Laws.congruenceFor_eq_ok_iff.mpr
        ⟨function, xs, ys, rule, ha, hb, hlen, hcongruence, hrule, hpremises⟩
      obtain ⟨c', hinputs⟩ := exists_proveAll (fun p hp c hc => ih p hp hc) hc
      refine ⟨c'.emit law (relation.apply [a, b]), ?_⟩
      rw [prove_of_spine? ha hb hlen hdirect hlaw, hinputs]
      rfl

/-- **The search finds exactly what is related by what is known.** -/
theorem exists_prove_iff {reflexivity : RuleRef}
    (hreflexivity : laws.registry.reflexivity? relation = some reflexivity) :
    (∃ c', prove laws relation l r c = .ok c') ↔ Related laws relation c.known l r := by
  constructor
  · rintro ⟨c', h⟩
    obtain ⟨hgenerates, hmem⟩ := generates_of_prove h
    exact hgenerates.related hmem
  · intro h
    exact exists_prove_of_related hreflexivity h (List.Subset.refl _)

end Chain

/-! ## The macro -/

/-- The macro succeeds exactly if the search does. -/
theorem exists_functionApplication_iff {laws : Laws} {facts : List Formula} {relation : Head}
    {l r : Formula} (hpreorder : laws.registry.isPreorder relation = true) :
    (∃ steps, synthesizeFunctionApplication laws facts (relation.apply [l, r]) = .ok steps) ↔
      Related laws relation facts l r := by
  obtain ⟨⟨reflexivity, hreflexivity⟩, -⟩ := Registry.exists_of_isPreorder hpreorder
  rw [← Chain.exists_prove_iff (c := ⟨facts, []⟩) hreflexivity,
    Laws.functionApplication_apply hpreorder]
  constructor
  · rintro ⟨steps, h⟩
    obtain ⟨chain, hchain, -⟩ := map_eq_ok.mp h
    exact ⟨chain, hchain⟩
  · rintro ⟨chain, hchain⟩
    exact ⟨chain.steps, map_eq_ok.mpr ⟨chain, hchain, rfl⟩⟩

/-- **Function application decides the relation that is generated by the facts.**  The macro
succeeds if the two sides are related and fails if they are not, so that with more facts it does not
fail where it succeeded. -/
theorem functionApplication_decides {laws : Laws} {relation : Head}
    (hpreorder : laws.registry.isPreorder relation = true) (facts : List Formula) (l r : Formula) :
    ((∃ steps, synthesizeFunctionApplication laws facts (relation.apply [l, r]) = .ok steps) ↔
      Related laws relation facts l r) ∧
    ((∃ kind, synthesizeFunctionApplication laws facts (relation.apply [l, r]) = .error kind) ↔
      ¬ Related laws relation facts l r) ∧
    ∀ facts' : List Formula, facts ⊆ facts' →
      (∃ steps, synthesizeFunctionApplication laws facts (relation.apply [l, r]) = .ok steps) →
      ∃ steps, synthesizeFunctionApplication laws facts' (relation.apply [l, r]) = .ok steps := by
  refine ⟨exists_functionApplication_iff hpreorder, ?_, fun facts' hsub h => ?_⟩
  · rw [← exists_functionApplication_iff hpreorder]
    cases synthesizeFunctionApplication laws facts (relation.apply [l, r]) <;> simp
  · rw [exists_functionApplication_iff hpreorder] at h ⊢
    exact h.mono hsub

namespace Sample

/-- The laws that were registered for the directory. -/
def laws : Laws := ⟨directory, directory.verify.registry⟩

/-- The function preserves the relation and does not turn it around. -/
theorem functionApplication_decides_laws :
    laws.registry.isPreorder relation = true ∧
      Related laws relation [relation.relates 0 1] (function (function (.var 0)))
        (function (function (.var 1))) ∧
      ¬ Related laws relation [relation.relates 0 1] (function (.var 1)) (function (.var 0)) := by
  have hpreorder : laws.registry.isPreorder relation = true := rfl
  have h := functionApplication_decides hpreorder [relation.relates 0 1]
  exact ⟨hpreorder, (h _ _).1.mp ⟨_, rfl⟩, (h _ _).2.1.mp ⟨_, rfl⟩⟩

end Sample

end Deduction
