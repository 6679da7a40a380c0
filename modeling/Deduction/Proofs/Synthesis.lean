import Deduction.Proofs.Typing.Preservation
import Deduction.Proofs.Verification

/-!
# Synthesized chains have signatures

Relating two formulas by function application is a recursion over their spines: either nothing has to
be taken apart, or the heads agree and the inputs are related one after the other before the
congruence law is cited.  `Chain.prove_induct` states this once, with the chain passed along from
input to input, and hides that symbols are applied one argument at a time and definitions to all
inputs at once.

Nothing in the synthesis looks at signatures.  They come out right because every law that is cited
is a rule with signatures of its own.  The reflexivity law makes the two sides of a relation have
one signature, and a congruence law, whose premises relate the inputs by the same relation, makes
every input of the function have that signature too.

* `Laws.direct?_cases`, `Laws.congruenceFor_eq_ok_iff`: what one step of the recursion can do.
* `Chain.prove_induct`: the recursion.
* `Laws.Backed.synthesized_functionApplication`, `Laws.Backed.synthesized_substitution`: the steps
  of a chain cite rules that exist and have the signature of the goal.
-/

namespace Deduction

open Formula

/-! ## One step -/

namespace Laws

variable {laws : Laws} {relation : Head} {left right : Formula}

/-- What is done without taking the two sides apart. -/
theorem direct?_cases {chain chain' : Chain}
    (h : laws.direct? relation left right chain = some chain') :
    (relation.apply [left, right] ∈ chain.known ∧ chain' = chain) ∨
    (left = right ∧ ∃ law, laws.registry.reflexivity? relation = some law ∧
      chain' = chain.emit law (relation.apply [left, right])) ∨
    (relation.apply [right, left] ∈ chain.known ∧
      ∃ law, laws.registry.symmetry? relation = some law ∧
        chain' = chain.emit law (relation.apply [left, right])) := by
  rw [direct?] at h
  split at h
  · next hknown => exact Or.inl ⟨hknown, (Option.some.inj h).symm⟩
  · split at h
    · next law heq hlaw =>
      exact Or.inr (Or.inl ⟨of_decide_eq_true heq, law, hlaw, (Option.some.inj h).symm⟩)
    · split at h
      · next law hlaw =>
        split at h
        · next hknown => exact Or.inr (Or.inr ⟨hknown, law, hlaw, (Option.some.inj h).symm⟩)
        · cases h
      · cases h

/-- The congruence law is the one that is registered for the common head, if it has as many
premises as there are inputs. -/
theorem congruenceFor_eq_ok_iff {law : RuleRef} :
    laws.congruenceFor relation left right = .ok law ↔
      ∃ function lefts rights rule, left.spine? = some (function, lefts) ∧
        right.spine? = some (function, rights) ∧ lefts.length = rights.length ∧
        laws.registry.congruence? function relation = some law ∧
        laws.directory.rule? law = some rule ∧ rule.premises.length = lefts.length := by
  rw [congruenceFor]
  constructor
  · intro h
    split at h
    · next function lefts rightFunction rights hl hr =>
      simp only [ite_error_eq_ok_iff, not_ne_iff] at h
      obtain ⟨rfl, hlen, h⟩ := h
      split at h
      · cases h
      · next law' hlaw =>
        split at h
        · cases h
        · next rule hrule =>
          simp only [ite_error_eq_ok_iff, not_ne_iff, Except.ok.injEq] at h
          obtain ⟨hpremises, rfl⟩ := h
          exact ⟨function, lefts, rights, rule, hl, hr, hlen, hlaw, hrule, hpremises⟩
    · cases h
  · rintro ⟨function, lefts, rights, rule, hl, hr, hlen, hlaw, hrule, hpremises⟩
    rw [hl, hr]
    dsimp only
    rw [if_neg (not_not_intro rfl), if_neg (not_not_intro hlen), hlaw]
    dsimp only
    rw [hrule]
    dsimp only
    rw [if_neg (not_not_intro hpremises)]

/-- The congruence law for two formulas, in terms of their inputs. -/
theorem congruence_of_spine? {function function' : Head} {lefts rights : List Formula}
    {law : RuleRef} (hl : left.spine? = some (function, lefts))
    (hr : right.spine? = some (function', rights))
    (hlaw : laws.congruenceFor relation left right = .ok law) :
    function = function' ∧ lefts.length = rights.length ∧
      laws.registry.congruence? function relation = some law ∧
      ∃ rule, laws.directory.rule? law = some rule ∧ rule.premises.length = lefts.length := by
  obtain ⟨head, xs, ys, rule, hxs, hys, hlen, hcongruence, hrule, hpremises⟩ :=
    congruenceFor_eq_ok_iff.mp hlaw
  rw [hl, Option.some.injEq, Prod.mk.injEq] at hxs
  rw [hr, Option.some.injEq, Prod.mk.injEq] at hys
  obtain ⟨⟨rfl, rfl⟩, rfl, rfl⟩ := And.intro hxs hys
  exact ⟨rfl, hlen, hcongruence, rule, hrule, hpremises⟩

end Laws

/-! ## The recursion -/

theorem Formula.symbolSpine?_app_eq_some_iff {f x : Formula} {ref : Ref} {xs : List Formula} :
    (app f x).symbolSpine? = some (ref, xs) ↔
      ∃ init, f.symbolSpine? = some (ref, init) ∧ xs = init ++ [x] := by
  rw [symbolSpine?, Option.map_eq_some_iff]
  constructor
  · rintro ⟨⟨r, init⟩, hf, heq⟩
    cases heq
    exact ⟨init, hf, rfl⟩
  · rintro ⟨init, hf, rfl⟩
    exact ⟨(ref, init), hf, rfl⟩

theorem Formula.spine?_app_eq_some_iff {f x : Formula} {head : Head} {xs : List Formula} :
    (app f x).spine? = some (head, xs) ↔
      ∃ ref, head = .symbol ref ∧ (app f x).symbolSpine? = some (ref, xs) := by
  rw [spine?, Option.map_eq_some_iff]
  constructor
  · rintro ⟨⟨ref, ys⟩, hf, heq⟩
    cases heq
    exact ⟨ref, rfl, hf⟩
  · rintro ⟨ref, rfl, hf⟩
    exact ⟨(ref, xs), hf, rfl⟩
  · intro _ _ h
    cases h

namespace Chain

/-- Chains passed along from one pair of inputs to the next. -/
inductive Through (R : Formula → Formula → Chain → Chain → Prop) :
    List Formula → List Formula → Chain → Chain → Prop
  | nil (chain : Chain) : Through R [] [] chain chain
  | cons {x y : Formula} {xs ys : List Formula} {c c' c'' : Chain} :
      R x y c c' → Through R xs ys c' c'' → Through R (x :: xs) (y :: ys) c c''

section

variable {R : Formula → Formula → Chain → Chain → Prop} {xs ys : List Formula} {c c' c'' : Chain}

theorem Through.concat {x y : Formula} (h : Through R xs ys c c') (hxy : R x y c' c'') :
    Through R (xs ++ [x]) (ys ++ [y]) c c'' := by
  induction h with
  | nil chain => exact .cons hxy (.nil c'')
  | cons hfirst _ ih => exact .cons hfirst (ih hxy)

/-- What every pair preserves is preserved along the inputs. -/
theorem Through.preserves {Ready : Formula → Formula → Prop} {Inv : Chain → Prop}
    (h : Through (fun x y c c' => Ready x y → Inv c → Inv c') xs ys c c')
    (hready : ∀ p ∈ xs.zip ys, Ready p.1 p.2) (hc : Inv c) : Inv c' := by
  induction h with
  | nil chain => exact hc
  | @cons x y _ _ _ _ _ hfirst _ ih =>
    rw [List.zip_cons_cons, List.forall_mem_cons] at hready
    exact ih hready.2 (hfirst hready.1 hc)

end

section

variable {laws : Laws} {relation : Head} {motive : Formula → Formula → Chain → Chain → Prop}

theorem through_of_proveAll {xs ys : List Formula} {c c' : Chain}
    (ih : ∀ x ∈ xs, ∀ y c c', prove laws relation x y c = .ok c' → motive x y c c')
    (hlen : xs.length = ys.length) (h : proveAll laws relation xs ys c = .ok c') :
    Through motive xs ys c c' := by
  induction xs generalizing ys c with
  | nil =>
    obtain rfl := List.length_eq_zero_iff.mp hlen.symm
    rw [proveAll.eq_def] at h
    cases h
    exact .nil c'
  | cons x xs ihxs =>
    obtain ⟨y, ys, rfl⟩ := List.exists_cons_of_length_eq_add_one hlen.symm
    rw [proveAll] at h
    obtain ⟨c₁, hfirst, hrest⟩ := bind_eq_ok.mp h
    refine .cons (ih x List.mem_cons_self y c c₁ hfirst) ?_
    exact ihxs (fun x' hx' => ih x' (List.mem_cons_of_mem _ hx')) (Nat.succ.inj hlen) hrest

/-- What is asked of a formula that stands on the left: relating it, and relating the arguments that
it is applied to. -/
structure Follows (laws : Laws) (relation : Head)
    (motive : Formula → Formula → Chain → Chain → Prop) (f : Formula) : Prop where
  prove : ∀ {g : Formula} {c c' : Chain}, Chain.prove laws relation f g c = .ok c' →
    motive f g c c'
  arguments : ∀ {g : Formula} {c c' : Chain} {ref ref' : Ref} {xs ys : List Formula},
    f.symbolSpine? = some (ref, xs) → g.symbolSpine? = some (ref', ys) → xs.length = ys.length →
    proveArguments laws relation f g c = .ok c' → Through motive xs ys c c'

theorem prove_app {f x g y : Formula} {c : Chain} :
    prove laws relation (.app f x) (.app g y) c =
      match laws.direct? relation (.app f x) (.app g y) c with
      | some chain => .ok chain
      | none => do
        let law ← laws.congruenceFor relation (.app f x) (.app g y)
        let chain ← proveArguments laws relation (.app f x) (.app g y) c
        return chain.emit law (relation.apply [.app f x, .app g y]) := by
  rw [prove, proveArguments]
  cases laws.direct? relation (.app f x) (.app g y) c with
  | some chain => rfl
  | none => simp only [bind_assoc]

variable
  (direct : ∀ {l r : Formula} {c c' : Chain}, laws.direct? relation l r c = some c' →
    motive l r c c')
  (congruence : ∀ {l r : Formula} {c c' : Chain} {function : Head} {lefts rights : List Formula}
    {law : RuleRef}, laws.direct? relation l r c = none → l.spine? = some (function, lefts) →
    r.spine? = some (function, rights) → laws.congruenceFor relation l r = .ok law →
    Through motive lefts rights c c' →
    motive l r c (c'.emit law (relation.apply [l, r])))

include direct congruence

/-- If the inputs are related one after the other, the two sides are. -/
theorem motive_of_congruence {l r : Formula} {c c' : Chain} (related : Except ErrorKind Chain)
    (h : (match laws.direct? relation l r c with
      | some chain => Except.ok chain
      | none => do
        let law ← laws.congruenceFor relation l r
        let chain ← related
        return chain.emit law (relation.apply [l, r])) = .ok c')
    (hrelated : ∀ {function : Head} {lefts rights : List Formula} {chain : Chain},
      l.spine? = some (function, lefts) → r.spine? = some (function, rights) →
      lefts.length = rights.length → related = .ok chain → Through motive lefts rights c chain) :
    motive l r c c' := by
  cases hdirect : laws.direct? relation l r c with
  | some chain =>
    rw [hdirect] at h
    cases h
    exact direct hdirect
  | none =>
    rw [hdirect] at h
    obtain ⟨law, hlaw, h⟩ := bind_eq_ok.mp h
    obtain ⟨chain, hchain, h⟩ := bind_eq_ok.mp h
    cases h
    obtain ⟨function, lefts, rights, -, hl, hr, hlen, -⟩ := Laws.congruenceFor_eq_ok_iff.mp hlaw
    exact congruence hdirect hl hr hlaw (hrelated hl hr hlen hchain)

theorem follows (f : Formula) : Follows laws relation motive f := by
  induction f using inductionOn with
  | symbol ref =>
    constructor
    · intro g c c' h
      rw [prove.eq_def] at h
      refine motive_of_congruence direct congruence (.ok c) h ?_
      intro function lefts rights chain hl hr hlen hchain
      cases hchain
      cases hl
      obtain rfl := List.length_eq_zero_iff.mp hlen.symm
      exact .nil c
    · intro g c c' ref ref' xs ys hf hg hlen h
      cases hf
      obtain rfl := List.length_eq_zero_iff.mp hlen.symm
      rw [proveArguments.eq_def] at h
      cases h
      exact .nil c
  | var ref =>
    constructor
    · intro g c c' h
      rw [prove.eq_def] at h
      refine motive_of_congruence direct congruence (.ok c) h ?_
      intro function lefts rights chain hl
      cases hl
    · intro g c c' ref ref' xs ys hf
      cases hf
  | app f x ihf ihx =>
    have harguments : ∀ {g : Formula} {c c' : Chain} {ref ref' : Ref} {xs ys : List Formula},
        (Formula.app f x).symbolSpine? = some (ref, xs) → g.symbolSpine? = some (ref', ys) →
        xs.length = ys.length → proveArguments laws relation (.app f x) g c = .ok c' →
        Through motive xs ys c c' := by
      intro g c c' ref ref' xs ys hf hg hlen h
      obtain ⟨xs', hf', rfl⟩ := symbolSpine?_app_eq_some_iff.mp hf
      cases g with
      | app g y =>
        obtain ⟨ys', hg', rfl⟩ := symbolSpine?_app_eq_some_iff.mp hg
        rw [proveArguments] at h
        obtain ⟨c₁, hfunctions, hlast⟩ := bind_eq_ok.mp h
        simp only [List.length_append, List.length_cons, Nat.add_right_cancel_iff] at hlen
        exact (ihf.arguments hf' hg' hlen hfunctions).concat (ihx.prove hlast)
      | symbol r' =>
        cases hg
        simp at hlen
      | var r' => cases hg
      | definition r' ys' => cases hg
    refine ⟨?_, harguments⟩
    intro g c c' h
    cases g with
    | app g y =>
      rw [prove_app] at h
      refine motive_of_congruence direct congruence _ h ?_
      intro function lefts rights chain hl hr hlen hchain
      obtain ⟨ref, rfl, hf⟩ := spine?_app_eq_some_iff.mp hl
      obtain ⟨ref', -, hg⟩ := spine?_app_eq_some_iff.mp hr
      exact harguments hf hg hlen hchain
    | symbol r' =>
      rw [prove.eq_def] at h
      refine motive_of_congruence direct congruence (.ok c) h ?_
      intro function lefts rights chain hl hr hlen
      obtain ⟨ref, rfl, hf⟩ := spine?_app_eq_some_iff.mp hl
      obtain ⟨xs', -, rfl⟩ := symbolSpine?_app_eq_some_iff.mp hf
      cases hr
      simp at hlen
    | var r' =>
      rw [prove.eq_def] at h
      refine motive_of_congruence direct congruence (.ok c) h ?_
      intro function lefts rights chain hl hr
      cases hr
    | definition r' ys =>
      rw [prove.eq_def] at h
      refine motive_of_congruence direct congruence (.ok c) h ?_
      intro function lefts rights chain hl hr
      obtain ⟨ref, rfl, -⟩ := spine?_app_eq_some_iff.mp hl
      cases hr
  | definition ref inputs ih =>
    constructor
    · intro g c c' h
      rw [prove.eq_def] at h
      cases g with
      | definition ref' others =>
        refine motive_of_congruence direct congruence
          (proveAll laws relation inputs others c) h ?_
        intro function lefts rights chain hl hr hlen hchain
        cases hl
        cases hr
        exact through_of_proveAll (fun x hx _ _ _ => (ih x hx).prove) hlen hchain
      | symbol | var =>
        refine motive_of_congruence direct congruence (.ok c) h ?_
        intro function lefts rights chain hl hr
        cases hl
        cases hr
      | app g y =>
        refine motive_of_congruence direct congruence (.ok c) h ?_
        intro function lefts rights chain hl hr
        cases hl
        obtain ⟨ref', heq, -⟩ := spine?_app_eq_some_iff.mp hr
        cases heq
    · intro g c c' ref ref' xs ys hf
      cases hf

/-- **The recursion of function application.**  Two formulas are related directly, or through their
inputs, which are related in order. -/
theorem prove_induct {l r : Formula} {c c' : Chain} (h : prove laws relation l r c = .ok c') :
    motive l r c c' :=
  (follows direct congruence l).prove h

end

end Chain

/-! ## Signatures of relations and functions -/

namespace Laws

variable {laws : Laws} {scope : List Variable} {relation : Head} {A s : Signature}

/-- A reflexive relation takes two inputs of one signature. -/
theorem Backed.takes_of_reflexivity (h : laws.Backed) {law : RuleRef}
    (hlaw : laws.registry.reflexivity? relation = some law) :
    ∃ A s, relation.Takes laws.directory none [A, A] s := by
  obtain ⟨rule, -, hshape, htyped⟩ := h relation .reflexive law hlaw
  obtain ⟨-, x, hassertion⟩ := hshape
  obtain ⟨s, hs⟩ := htyped.assertion
  rw [hassertion, Head.relates] at hs
  obtain ⟨ts, htakes, hinputs⟩ := Head.hasSignature_apply_iff.mp hs
  cases hinputs with
  | @cons _ A _ _ hleft hinputs =>
    cases hinputs with
    | @cons _ B _ _ hright hinputs =>
      cases hinputs
      obtain rfl := Directory.signature_unique hleft hright
      exact ⟨A, s, htakes⟩

/-- A relation has a signature exactly if its two sides have the one that it takes. -/
theorem hasSignature_relation_iff (hR : relation.Takes laws.directory none [A, A] s)
    {l r : Formula} {t : Signature} :
    (relation.apply [l, r]).HasSignature laws.directory scope none t ↔
      t = s ∧ l.HasSignature laws.directory scope none A ∧
        r.HasSignature laws.directory scope none A := by
  rw [Head.hasSignature_apply_iff]
  constructor
  · rintro ⟨ts, htakes, hinputs⟩
    obtain ⟨rfl, rfl⟩ := htakes.unique hR hinputs.length_eq.symm
    cases hinputs with
    | cons hl hinputs =>
      cases hinputs with
      | cons hr _ => exact ⟨rfl, hl, hr⟩
  · rintro ⟨rfl, hl, hr⟩
    exact ⟨[A, A], hR, .cons hl (.cons hr .nil)⟩

/-- A function that preserves a relation takes only inputs that the relation takes. -/
theorem Backed.takes_of_congruence (h : laws.Backed)
    (hR : relation.Takes laws.directory none [A, A] s) {function : Head} {law : RuleRef}
    {rule : Rule} (hlaw : laws.registry.congruence? function relation = some law)
    (hrule : laws.directory.rule? law = some rule) :
    ∃ ts, function.Takes laws.directory none ts A ∧ ts.length = rule.premises.length ∧
      ∀ t ∈ ts, t = A := by
  obtain ⟨rule', hrule', hshape, htyped⟩ := h function (.congruence relation) law hlaw
  rw [hrule] at hrule'
  cases hrule'
  obtain ⟨as, bs, -, hlen, hpremises, hassertion⟩ := hshape
  obtain ⟨t, ht⟩ := htyped.assertion
  rw [hassertion] at ht
  obtain ⟨-, hleft, -⟩ := (hasSignature_relation_iff hR).mp ht
  obtain ⟨ts, htakes, hinputs⟩ := Head.hasSignature_apply_iff.mp hleft
  rw [List.forall₂_map_left_iff] at hinputs
  refine ⟨ts, htakes, ?_, fun t ht => ?_⟩
  · rw [hpremises, List.length_zipWith, ← hlen, Nat.min_self, hinputs.length_eq]
  · -- the premise at the same place says that the input has the signature of the relation
    obtain ⟨a, hmem⟩ := exists_mem_zip_of_length hinputs.length_eq.symm ht
    obtain ⟨n, hn, -⟩ := mem_zip_iff_getElem?.mp hmem
    have hlt : n < bs.length := by
      rw [← hlen]
      exact (List.getElem?_eq_some_iff.mp hn).1
    have hpremise : relation.relates a bs[n] ∈ rule.premises := by
      rw [hpremises, List.mem_iff_getElem?]
      refine ⟨n, ?_⟩
      rw [List.getElem?_zipWith, hn, List.getElem?_eq_getElem hlt]
    obtain ⟨t', ht'⟩ := htyped.premise _ hpremise
    obtain ⟨-, ha, -⟩ := (hasSignature_relation_iff hR).mp ht'
    exact Directory.signature_unique ((List.forall₂_iff_zip.mp hinputs).2 hmem) ha

/-- **The inputs of two formulas of the signature of a relation have that signature**, if a
congruence law applies to them. -/
theorem Backed.hasSignature_inputs (h : laws.Backed)
    (hR : relation.Takes laws.directory none [A, A] s) {function : Head} {law : RuleRef}
    {rule : Rule} (hlaw : laws.registry.congruence? function relation = some law)
    (hrule : laws.directory.rule? law = some rule) {xs : List Formula}
    (hlen : rule.premises.length = xs.length)
    (hxs : (function.apply xs).HasSignature laws.directory scope none A) :
    ∀ x ∈ xs, x.HasSignature laws.directory scope none A := by
  obtain ⟨ts, htakes, hts, hall⟩ := h.takes_of_congruence hR hlaw hrule
  obtain ⟨ts', htakes', hinputs⟩ := Head.hasSignature_apply_iff.mp hxs
  have hlength : ts'.length = ts.length := by rw [hts, hlen, hinputs.length_eq]
  obtain ⟨rfl, -⟩ := htakes'.unique htakes hlength
  intro x hx
  obtain ⟨t, hmem⟩ := exists_mem_zip_of_length hinputs.length_eq hx
  have ht := (List.forall₂_iff_zip.mp hinputs).2 (mem_zip_comm.mp hmem)
  rw [hall t (List.of_mem_zip hmem).1] at ht
  exact ht

/-- What is taken apart by a congruence law has inputs of the signature of the relation. -/
theorem Backed.hasSignature_zip (h : laws.Backed) (hR : relation.Takes laws.directory none [A, A] s)
    {l r : Formula} {function function' : Head} {lefts rights : List Formula} {law : RuleRef}
    (hl : l.spine? = some (function, lefts)) (hr : r.spine? = some (function', rights))
    (hlaw : laws.congruenceFor relation l r = .ok law)
    (hleft : l.HasSignature laws.directory scope none A)
    (hright : r.HasSignature laws.directory scope none A) :
    ∀ p ∈ lefts.zip rights, p.1.HasSignature laws.directory scope none A ∧
      p.2.HasSignature laws.directory scope none A := by
  obtain ⟨rfl, hlen, hcongruence, rule, hrule, hpremises⟩ := congruence_of_spine? hl hr hlaw
  rw [← apply_of_spine? hl] at hleft
  rw [← apply_of_spine? hr] at hright
  have hlefts := h.hasSignature_inputs hR hcongruence hrule hpremises hleft
  have hrights := h.hasSignature_inputs hR hcongruence hrule (hpremises.trans hlen) hright
  intro p hp
  exact ⟨hlefts p.1 (List.of_mem_zip hp).1, hrights p.2 (List.of_mem_zip hp).2⟩

end Laws

/-! ## Synthesized steps -/

/-- A step that cites a rule of the directory for a formula of a given signature. -/
structure Step.Synthesized (D : Directory) (scope : List Variable) (s : Signature) (step : Step) :
    Prop where
  cites : ∃ ref rule, step.justification = .rule ref ∧ D.rule? ref = some rule
  formula : step.formula.HasSignature D scope none s

theorem Chain.forall_mem_emit {Q : Step → Prop} {chain : Chain} {law : RuleRef} {f : Formula}
    (h : ∀ step ∈ chain.steps, Q step) (hf : Q ⟨.rule law, f⟩) :
    ∀ step ∈ (chain.emit law f).steps, Q step := by
  rw [emit]
  split
  · exact h
  · intro step hstep
    rcases List.mem_append.mp hstep with hstep | hstep
    · exact h step hstep
    · rw [List.mem_singleton.mp hstep]
      exact hf

namespace Laws

variable {laws : Laws} {scope : List Variable} {relation : Head} {A s : Signature}

/-- A law of the registry, cited for two formulas that the relation takes. -/
theorem Backed.synthesized (h : laws.Backed) (hR : relation.Takes laws.directory none [A, A] s)
    {head : Head} (slot : Slot) {law : RuleRef}
    (hlaw : (laws.registry.get head).slot? slot = some law) {l r : Formula}
    (hl : l.HasSignature laws.directory scope none A)
    (hr : r.HasSignature laws.directory scope none A) :
    Step.Synthesized laws.directory scope s ⟨.rule law, relation.apply [l, r]⟩ := by
  obtain ⟨rule, hrule, -⟩ := h head slot law hlaw
  exact ⟨⟨law, rule, rfl, hrule⟩, (hasSignature_relation_iff hR).mpr ⟨rfl, hl, hr⟩⟩

/-- Relating two formulas adds only steps with the signature of the relation. -/
theorem Backed.synthesized_prove (h : laws.Backed)
    (hR : relation.Takes laws.directory none [A, A] s) {l r : Formula} {c c' : Chain}
    (hprove : Chain.prove laws relation l r c = .ok c')
    (hsides : l.HasSignature laws.directory scope none A ∧
      r.HasSignature laws.directory scope none A)
    (hc : ∀ step ∈ c.steps, step.Synthesized laws.directory scope s) :
    ∀ step ∈ c'.steps, step.Synthesized laws.directory scope s := by
  revert hsides hc
  refine Chain.prove_induct (motive := fun l r c c' =>
    (l.HasSignature laws.directory scope none A ∧ r.HasSignature laws.directory scope none A) →
    (∀ step ∈ c.steps, step.Synthesized laws.directory scope s) →
    ∀ step ∈ c'.steps, step.Synthesized laws.directory scope s) ?_ ?_ hprove
  · rintro l r c c' hdirect ⟨hl, hr⟩ hc
    rcases direct?_cases hdirect with ⟨-, rfl⟩ | ⟨-, law, hlaw, rfl⟩ | ⟨-, law, hlaw, rfl⟩
    · exact hc
    · exact Chain.forall_mem_emit hc (h.synthesized hR .reflexive hlaw hl hr)
    · exact Chain.forall_mem_emit hc (h.synthesized hR .symmetric hlaw hl hr)
  · rintro l r c c' function lefts rights law - hl hr hcongruence hthrough ⟨hleft, hright⟩ hc
    obtain ⟨-, -, hlaw, -⟩ := congruence_of_spine? hl hr hcongruence
    have hinputs := h.hasSignature_zip hR hl hr hcongruence hleft hright
    exact Chain.forall_mem_emit (hthrough.preserves hinputs hc)
      (h.synthesized hR (.congruence relation) hlaw hleft hright)

/-! ## The two macros -/

theorem macroGoal_eq_ok_iff {goal : Formula} {asked : MacroGoal} :
    macroGoal laws goal = .ok asked ↔ goal = asked.relation.apply [asked.left, asked.right] ∧
      laws.registry.isPreorder asked.relation = true := by
  rw [macroGoal]
  constructor
  · intro h
    split at h
    · cases h
    · next relation left right hgoal =>
      split at h
      · next hpreorder =>
        cases h
        exact ⟨binary?_eq_some_iff.mp hgoal, hpreorder⟩
      · cases h
  · rintro ⟨hgoal, hpreorder⟩
    rw [binary?_eq_some_iff.mpr hgoal]
    dsimp only
    rw [if_pos hpreorder]

theorem macroGoal_apply {relation : Head} (hpreorder : laws.registry.isPreorder relation = true)
    (l r : Formula) : macroGoal laws (relation.apply [l, r]) = .ok ⟨relation, l, r⟩ :=
  macroGoal_eq_ok_iff.mpr ⟨rfl, hpreorder⟩

/-- Function application is one search from the facts. -/
theorem functionApplication_apply {relation : Head}
    (hpreorder : laws.registry.isPreorder relation = true) (facts : List Formula) (l r : Formula) :
    synthesizeFunctionApplication laws facts (relation.apply [l, r]) =
      (Chain.prove laws relation l r ⟨facts, []⟩).map Chain.steps := by
  rw [synthesizeFunctionApplication, macroGoal_apply hpreorder]
  change (Chain.prove laws relation l r ⟨facts, []⟩ >>= fun chain => pure chain.steps) = _
  cases Chain.prove laws relation l r ⟨facts, []⟩ <;> rfl

/-- The relation of a macro takes two inputs of one signature, which the two sides of the goal
have. -/
theorem Backed.takes_of_macroGoal (h : laws.Backed) {goal : Formula} {asked : MacroGoal}
    (hasked : macroGoal laws goal = .ok asked)
    (hgoal : goal.HasSignature laws.directory scope none s) :
    ∃ A, asked.relation.Takes laws.directory none [A, A] s ∧
      asked.left.HasSignature laws.directory scope none A ∧
      asked.right.HasSignature laws.directory scope none A := by
  obtain ⟨rfl, hpreorder⟩ := macroGoal_eq_ok_iff.mp hasked
  obtain ⟨⟨law, hlaw⟩, -⟩ := Registry.exists_of_isPreorder hpreorder
  obtain ⟨A, t, hR⟩ := h.takes_of_reflexivity hlaw
  obtain ⟨rfl, hl, hr⟩ := (hasSignature_relation_iff hR).mp hgoal
  exact ⟨A, hR, hl, hr⟩

/-- **Chains of function application** cite rules for formulas with the signature of the goal. -/
theorem Backed.synthesized_functionApplication (h : laws.Backed) {facts : List Formula}
    {goal : Formula} {chain : List Step}
    (hok : synthesizeFunctionApplication laws facts goal = .ok chain)
    (hgoal : goal.HasSignature laws.directory scope none s) :
    ∀ step ∈ chain, step.Synthesized laws.directory scope s := by
  obtain ⟨asked, hasked, hok⟩ := bind_eq_ok.mp hok
  obtain ⟨c, hprove, hok⟩ := bind_eq_ok.mp hok
  cases hok
  obtain ⟨A, hR, hsides⟩ := h.takes_of_macroGoal hasked hgoal
  exact h.synthesized_prove hR hprove hsides fun step hstep => nomatch hstep

/-- The chain of a substitution goes through one of the candidates. -/
theorem exists_throughMiddle {facts candidates : List Formula} {goal : Formula} {asked : MacroGoal}
    {transitivity : RuleRef} {chain : List Step}
    (h : firstMiddle laws facts goal asked transitivity candidates = .ok chain) :
    ∃ middleLeft middleRight, asked.relation.apply [middleLeft, middleRight] ∈ candidates ∧
      throughMiddle laws facts goal asked transitivity middleLeft middleRight = .ok chain := by
  induction candidates with
  | nil => cases h
  | cons candidate candidates ih =>
    have hrest : firstMiddle laws facts goal asked transitivity candidates = .ok chain →
        ∃ middleLeft middleRight,
          asked.relation.apply [middleLeft, middleRight] ∈ candidate :: candidates ∧
          throughMiddle laws facts goal asked transitivity middleLeft middleRight = .ok chain := by
      intro h
      obtain ⟨ml, mr, hmem, hok⟩ := ih h
      exact ⟨ml, mr, List.mem_cons_of_mem _ hmem, hok⟩
    rw [firstMiddle] at h
    split at h
    · next relation ml mr hcandidate =>
      split at h
      · exact hrest h
      · next hrelation =>
        split at h
        · next steps hsteps =>
          cases h
          obtain rfl : relation = asked.relation := not_ne_iff.mp hrelation
          refine ⟨ml, mr, ?_, hsteps⟩
          rw [← binary?_eq_some_iff.mp hcandidate]
          exact List.mem_cons_self
        · exact hrest h
    · exact hrest h

theorem Backed.synthesized_throughMiddle (h : laws.Backed) {facts : List Formula} {goal : Formula}
    {asked : MacroGoal} {transitivity : RuleRef} {middleLeft middleRight : Formula}
    {chain : List Step} (hasked : macroGoal laws goal = .ok asked)
    (hgoal : goal.HasSignature laws.directory scope none s)
    (hlaw : laws.registry.transitivity? asked.relation = some transitivity)
    (hmiddle : ∃ t, (asked.relation.apply [middleLeft, middleRight]).HasSignature laws.directory
      scope none t)
    (hok : throughMiddle laws facts goal asked transitivity middleLeft middleRight = .ok chain) :
    ∀ step ∈ chain, step.Synthesized laws.directory scope s := by
  obtain ⟨A, hR, hl, hr⟩ := h.takes_of_macroGoal hasked hgoal
  obtain ⟨t, ht⟩ := hmiddle
  obtain ⟨-, hml, hmr⟩ := (hasSignature_relation_iff hR).mp ht
  obtain ⟨c, hleft, hok⟩ := bind_eq_ok.mp hok
  obtain ⟨c', hright, hok⟩ := bind_eq_ok.mp hok
  cases hok
  have hfirst := h.synthesized_prove hR hleft ⟨hl, hml⟩ fun step hstep => nomatch hstep
  have hsecond := h.synthesized_prove hR hright ⟨hmr, hr⟩ hfirst
  rw [(macroGoal_eq_ok_iff.mp hasked).1]
  exact Chain.forall_mem_emit
    (Chain.forall_mem_emit hsecond (h.synthesized hR .transitive hlaw hl hmr))
    (h.synthesized hR .transitive hlaw hl hr)

/-- **Substitution always has a transitivity law to join the sides with**, and its chains cite rules
for formulas with the signature of the goal. -/
theorem Backed.synthesized_substitution (h : laws.Backed) {facts : List Formula} {goal : Formula}
    (hgoal : goal.HasSignature laws.directory scope none s)
    (hfacts : ∀ f ∈ facts, ∃ t, f.HasSignature laws.directory scope none t) :
    Yields (synthesizeSubstitution laws facts goal) fun r => ∀ chain, r = .ok chain →
      ∀ step ∈ chain, step.Synthesized laws.directory scope s := by
  rw [synthesizeSubstitution]
  cases hasked : macroGoal laws goal with
  | error kind =>
    refine .pure ?_
    intro chain hchain
    cases hchain
  | ok asked =>
    dsimp only
    obtain ⟨-, law, hlaw⟩ := Registry.exists_of_isPreorder (macroGoal_eq_ok_iff.mp hasked).2
    rw [hlaw]
    refine .pure ?_
    intro chain hchain
    obtain ⟨ml, mr, hmem, hok⟩ := exists_throughMiddle hchain
    exact h.synthesized_throughMiddle hasked hgoal hlaw (hfacts _ hmem) hok

end Laws

end Deduction
