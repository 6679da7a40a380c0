import Deduction.Proofs.Soundness

/-!
# The signatures of a cited instance

When a rule is cited, its premises and its assertion are matched with formulas that have signatures,
but nobody compares the signature of what is put in for a variable with the one that the variable is
declared with.  A rule whose assertion is a bare variable matches every formula, of whatever
signature.

What does hold is that the instance is typed consistently.  If the variables of the rule are declared
again with the signatures of the formulas put in for them, its premises and its assertion still have
signatures, and they are those of the formulas they were matched with.  So a variable gets a formula
of its declared signature whenever the rule leaves no choice, that is, if no scope in which its
premises and its assertion are accepted gives the variable another signature.  A variable that is an
input of a symbol or of a definition somewhere in the rule is of this kind.

* `Formula.Matches.hasSignature`: a template has the signature of its target in the new scope.
* `Rule.Determines`, `Rule.Feeds`: variables without a choice.
* `Directory.exists_typed_instance`: the instance behind a citation.
* `Unconstrained.not_exists_declared_instance`: a citation without an instance of the declared
  signatures.
-/

namespace Deduction

open Formula

/-! ## Declaring variables again -/

/-- A scope with the variables declared by the signatures of what is put in for them. -/
def Directory.redeclare (D : Directory) (target : List Variable) (σ : Ref → Formula)
    (scope : List Variable) : List Variable :=
  scope.zipIdx.map fun e =>
    { e.1 with signature := (D.inferred target (σ e.2)).getD e.1.signature }

namespace Directory

variable {D : Directory} {target scope : List Variable} {σ : Ref → Formula} {ref : Ref}

theorem itemAt?_redeclare (D : Directory) (target : List Variable) (σ : Ref → Formula) {v : Variable}
    (hv : itemAt? scope ref = some v) :
    itemAt? (D.redeclare target σ scope) ref =
      some { v with signature := (D.inferred target (σ ref)).getD v.signature } := by
  obtain ⟨n, rfl, hn⟩ := itemAt?_eq_some_iff.mp hv
  rw [redeclare, itemAt?_ofNat, List.getElem?_map, List.getElem?_zipIdx, hn]
  simp only [Option.map_some, Nat.zero_add]

/-- A variable has the signature of what is put in for it. -/
theorem hasSignature_redeclare (hscope : (itemAt? scope ref).isSome) {s : Signature}
    (hs : (σ ref).HasSignature D target none s) :
    (Formula.var ref).HasSignature D (D.redeclare target σ scope) none s := by
  obtain ⟨v, hv⟩ := Option.isSome_iff_exists.mp hscope
  have hitem := itemAt?_redeclare D target σ hv
  rw [inferred_eq_some_iff.mpr hs, Option.getD_some] at hitem
  exact .var hitem

end Directory

/-- **A template that matches has the signature of its target**, if each variable has the signature
of what is put in for it. -/
theorem Formula.Matches.hasSignature {D : Directory} (hD : D.Grounded) {σ : Ref → Formula}
    {template target : Formula} {scope scope' : List Variable} {s : Signature}
    (h : template.Matches D σ target) (htarget : target.HasSignature D scope none s)
    (hσ : ∀ ref ∈ template.variableRefs, ∃ t, (σ ref).HasSignature D scope none t ∧
      (Formula.var ref).HasSignature D scope' none t) :
    template.HasSignature D scope' none s := by
  induction h generalizing s with
  | symbol ref =>
    cases htarget with
    | symbol hc => exact .symbol hc
  | @var ref g hc =>
    obtain ⟨t, ht, hvar⟩ := hσ ref (by simp [variableRefs])
    have hnormal := (hD.compatible_iff ht.resolved htarget.resolved).mp hc
    obtain rfl := hD.signature_eq ht htarget hnormal
    exact hvar
  | app _ _ ihf ihx =>
    cases htarget with
    | app hg hy =>
      refine .app (ihf hg fun ref hr => hσ ref ?_) (ihx hy fun ref hr => hσ ref ?_)
      · exact List.mem_append_left _ hr
      · exact List.mem_append_right _ hr
  | @definition ref xs ys hlen hp ih =>
    cases htarget with
    | @definition _ _ _ _ d _ hd hl hcount hinputs hbody =>
      refine .definition hd hl (hlen.trans hcount) ?_ hbody
      rintro ⟨formal, x⟩ hmem
      -- the input of the target that stands at the same place as `x` and its formal input
      obtain ⟨n, hformal, hx⟩ := mem_zip_iff_getElem?.mp hmem
      have hlt : n < ys.length := by
        rw [← hlen]
        exact (List.getElem?_eq_some_iff.mp hx).1
      have hy : ys[n]? = some ys[n] := List.getElem?_eq_getElem hlt
      refine ih (x, ys[n]) (mem_zip_iff_getElem?.mpr ⟨n, hx, hy⟩)
        (hinputs (formal, ys[n]) (mem_zip_iff_getElem?.mpr ⟨n, hformal, hy⟩)) fun r hr => hσ r ?_
      exact mem_variableRefs_definition.mpr ⟨x, List.mem_of_getElem? hx, hr⟩

/-! ## Variables without a choice -/

/-- A variable that is an input of a symbol or of a definition somewhere in a formula. -/
inductive Formula.Feeds (v : Ref) : Formula → Prop
  | apply {head : Head} {xs : List Formula} : .var v ∈ xs → Feeds v (head.apply xs)
  | function {f x : Formula} : Feeds v f → Feeds v (.app f x)
  | argument {f x : Formula} : Feeds v x → Feeds v (.app f x)
  | input {ref : Ref} {inputs : List Formula} {x : Formula} : x ∈ inputs → Feeds v x →
      Feeds v (.definition ref inputs)

/-- An input has one signature in every scope in which the formula has a signature. -/
theorem Formula.Feeds.signature_eq {D : Directory} {v : Ref} {f : Formula}
    (h : f.Feeds v) {scope scope' : List Variable} {s s' : Signature}
    (hf : f.HasSignature D scope none s) (hf' : f.HasSignature D scope' none s') :
    ∃ t, (Formula.var v).HasSignature D scope none t ∧
      (Formula.var v).HasSignature D scope' none t := by
  induction h generalizing s s' with
  | apply hmem =>
    obtain ⟨ts, htakes, hinputs⟩ := Head.hasSignature_apply_iff.mp hf
    obtain ⟨ts', htakes', hinputs'⟩ := Head.hasSignature_apply_iff.mp hf'
    have hlen : ts.length = ts'.length := hinputs.length_eq.symm.trans hinputs'.length_eq
    obtain ⟨rfl, -⟩ := htakes.unique htakes' hlen
    obtain ⟨t, hzip⟩ := exists_mem_zip_of_length hinputs.length_eq hmem
    have hzip := mem_zip_comm.mp hzip
    exact ⟨t, (List.forall₂_iff_zip.mp hinputs).2 hzip, (List.forall₂_iff_zip.mp hinputs').2 hzip⟩
  | function _ ih =>
    cases hf with
    | app h₁ _ =>
      cases hf' with
      | app h₁' _ => exact ih h₁ h₁'
  | argument _ ih =>
    cases hf with
    | app _ h₂ =>
      cases hf' with
      | app _ h₂' => exact ih h₂ h₂'
  | input hmem _ ih =>
    obtain ⟨t, ht⟩ := hf.input _ hmem
    obtain ⟨t', ht'⟩ := hf'.input _ hmem
    exact ih ht ht'

namespace Rule

/-- The premises and the assertion of a rule are accepted in a scope. -/
def AcceptedIn (D : Directory) (rule : Rule) (scope : List Variable) : Prop :=
  (∀ p ∈ rule.premises, D.formulaFaults scope "" none p = []) ∧
    D.formulaFaults scope "" none rule.assertion = []

/-- A variable has its declared signature in every scope in which the rule is accepted. -/
def Determines (D : Directory) (rule : Rule) (v : Ref) : Prop :=
  ∀ scope, rule.AcceptedIn D scope →
    (itemAt? scope v).map Variable.signature = (itemAt? rule.scope v).map Variable.signature

/-- A variable that is an input somewhere in the rule. -/
def Feeds (rule : Rule) (v : Ref) : Prop :=
  rule.assertion.Feeds v ∨ ∃ p ∈ rule.premises, p.Feeds v

variable {D : Directory} {rule : Rule}

theorem map_signature_of_hasSignature {scope : List Variable} {v : Ref} {t : Signature}
    (h : (Formula.var v).HasSignature D scope none t) :
    (itemAt? scope v).map Variable.signature = some t := by
  cases h with
  | var hv => rw [hv, Option.map_some]

/-- **An input has no choice.** -/
theorem determines_of_feeds (hD : D.Typed) (htyped : rule.Typed D) {v : Ref}
    (h : rule.Feeds v) : rule.Determines D v := by
  rintro scope ⟨hpremises, hassertion⟩
  obtain ⟨f, hfeeds, ⟨s, hs⟩, s', hs'⟩ : ∃ f : Formula, f.Feeds v ∧
      (∃ s, f.HasSignature D rule.scope none s) ∧ ∃ s, f.HasSignature D scope none s := by
    rcases h with h | ⟨p, hp, h⟩
    · exact ⟨rule.assertion, h, htyped.assertion, hD.formulaFaults_eq_nil_iff.mp hassertion⟩
    · exact ⟨p, h, htyped.premise p hp, hD.formulaFaults_eq_nil_iff.mp (hpremises p hp)⟩
  obtain ⟨t, ht, ht'⟩ := hfeeds.signature_eq hs hs'
  rw [map_signature_of_hasSignature ht, map_signature_of_hasSignature ht']

theorem Typed.isSome_itemAt? (htyped : rule.Typed D) {v : Ref} (h : rule.Mentions v) :
    (itemAt? rule.scope v).isSome := by
  rcases h with h | ⟨p, hp, h⟩
  · obtain ⟨s, hs⟩ := htyped.assertion
    exact hs.isSome_itemAt? v h
  · obtain ⟨s, hs⟩ := htyped.premise p hp
    exact hs.isSome_itemAt? v h

end Rule

/-! ## The instance behind a citation -/

namespace Directory

variable {D : Directory} {rule : Rule} {scope : List Variable} {f : Formula}
  {facts : List Formula} {σ : Ref → Formula}

/-- An instance with signatures becomes what it was matched with. -/
theorem Grounded.compatible_of_matches (hD : D.Grounded) {template target : Formula}
    (h : template.Matches D σ target) (htemplate : template.Resolved D)
    (htarget : target.Resolved D) (hσ : ∀ v, (σ v).Resolved D) :
    D.compatible (template.substitute σ) target = .ok true :=
  (hD.compatible_iff (htemplate.substitute hσ) htarget).mpr
    (h.normal_eq hD htarget htemplate hσ)

/-- A rule is accepted with its variables declared by the signatures of what is put in for them. -/
theorem Typed.acceptedIn_redeclare (hD : D.Typed) (htyped : rule.Typed D)
    (hinstance : rule.Instance D σ f facts)
    (hσ : ∀ v, rule.Mentions v → ∃ t, (σ v).HasSignature D scope none t)
    (hf : ∃ s, f.HasSignature D scope none s)
    (hfacts : ∀ fact ∈ facts, ∃ s, fact.HasSignature D scope none s) :
    rule.AcceptedIn D (D.redeclare scope σ rule.scope) := by
  have hvar : ∀ v, rule.Mentions v → ∃ t, (σ v).HasSignature D scope none t ∧
      (Formula.var v).HasSignature D (D.redeclare scope σ rule.scope) none t := by
    intro v hv
    obtain ⟨t, ht⟩ := hσ v hv
    exact ⟨t, ht, hasSignature_redeclare (htyped.isSome_itemAt? hv) ht⟩
  constructor
  · intro p hp
    obtain ⟨fact, hmem, hmatches⟩ := hinstance.2 p hp
    obtain ⟨s, hs⟩ := hfacts fact hmem
    refine formulaFaults_eq_nil_of_hasSignature (hmatches.hasSignature hD.grounded hs ?_) ""
    exact fun v hv => hvar v (Or.inr ⟨p, hp, hv⟩)
  · obtain ⟨s, hs⟩ := hf
    refine formulaFaults_eq_nil_of_hasSignature (hinstance.1.hasSignature hD.grounded hs ?_) ""
    exact fun v hv => hvar v (Or.inl hv)

/-- **The instance behind an accepted citation is typed consistently.**  Every variable of the rule
gets a formula with a signature, the rule is accepted with its variables declared by these
signatures, and variables without a choice get formulas of their declared signatures. -/
theorem exists_typed_instance (hverify : D.verify.errors = []) {ref : RuleRef}
    (hrule : D.rule? ref = some rule) {base : String}
    (hf : D.formulaFaults scope base none f = [])
    (hfacts : ∀ fact ∈ facts, D.formulaFaults scope base none fact = [])
    (hok : D.ruleFault? ref f facts = .ok none) :
    ∃ σ : Ref → Formula,
      (∀ v, rule.Mentions v → (D.inferred scope (σ v)).isSome) ∧
      D.compatible (rule.assertion.substitute σ) f = .ok true ∧
      (∀ p ∈ rule.premises, ∃ fact ∈ facts, D.compatible (p.substitute σ) fact = .ok true) ∧
      rule.AcceptedIn D (D.redeclare scope σ rule.scope) ∧
      (∀ v, rule.Mentions v → rule.Determines D v →
        D.inferred scope (σ v) = (itemAt? rule.scope v).map Variable.signature) ∧
      ∀ v, rule.Feeds v → rule.Determines D v := by
  have hD := verify_errors_eq_nil_iff.mp hverify
  have htyped := hD.rule hrule
  have hgrounded := hD.typed.grounded
  have hf := hD.typed.formulaFaults_eq_nil_iff.mp hf
  have hfacts := fun fact hmem => hD.typed.formulaFaults_eq_nil_iff.mp (hfacts fact hmem)
  have hfault := yields_ruleFault? hgrounded resolved_of_exists_hasSignature
    (hereditary_hasSignature D scope none) hrule hf hfacts
  obtain ⟨σ, hσ, hinstance, hvalues⟩ := (hfault.apply hok).1 rfl
  have haccepted := hD.typed.acceptedIn_redeclare htyped hinstance hvalues hf hfacts
  refine ⟨σ, fun v hv => ?_, ?_, fun p hp => ?_, haccepted, fun v hv hdetermines => ?_,
    fun v hv => Rule.determines_of_feeds hD.typed htyped hv⟩
  · obtain ⟨s, hs⟩ := hvalues v hv
    rw [inferred_eq_some_iff.mpr hs]
    rfl
  · exact hgrounded.compatible_of_matches hinstance.1 htyped.resolved.2
      (resolved_of_exists_hasSignature hf) hσ
  · obtain ⟨fact, hmem, hmatches⟩ := hinstance.2 p hp
    exact ⟨fact, hmem, hgrounded.compatible_of_matches hmatches (htyped.resolved.1 p hp)
      (resolved_of_exists_hasSignature (hfacts fact hmem)) hσ⟩
  · -- in the new scope the variable has both the signature of its value and the declared one
    obtain ⟨s, hs⟩ := hvalues v hv
    have hnew := hasSignature_redeclare (htyped.isSome_itemAt? hv) hs
    rw [← hdetermines _ haccepted, Rule.map_signature_of_hasSignature hnew]
    exact inferred_eq_some_iff.mpr hs

/-- In the sample directory the congruence law is cited for the function applied twice.  Both of its
variables are inputs of the relation, so they get elements. -/
theorem exists_typed_instance_sample :
    Sample.directory.verify.errors = [] ∧
      Sample.directory.ruleFault? (.ofAxiom 2)
        (Sample.relation.apply [Sample.function (Sample.function (.var 0)),
          Sample.function (Sample.function (.var 1))])
        [Sample.relation.relates 0 1,
          Sample.relation.apply [Sample.function (.var 0), Sample.function (.var 1)]] = .ok none ∧
      ∃ σ : Ref → Formula,
        Sample.directory.inferred [Sample.element, Sample.element] (σ 0) = some (.ground 0) ∧
        Sample.directory.inferred [Sample.element, Sample.element] (σ 1) = some (.ground 0) := by
  have hverify : Sample.directory.verify.errors = [] := by rfl
  have hrule : Sample.directory.rule? (.ofAxiom 2) = some Sample.directory.axioms[2] := by rfl
  have hf : Sample.directory.formulaFaults [Sample.element, Sample.element] "" none
      (Sample.relation.apply [Sample.function (Sample.function (.var 0)),
        Sample.function (Sample.function (.var 1))]) = [] := by rfl
  have hfacts : ∀ fact ∈ [Sample.relation.relates 0 1,
      Sample.relation.apply [Sample.function (.var 0), Sample.function (.var 1)]],
      Sample.directory.formulaFaults [Sample.element, Sample.element] "" none fact = [] := by
    rw [List.forall_mem_cons, List.forall_mem_singleton]
    exact ⟨by rfl, by rfl⟩
  refine ⟨hverify, by rfl, ?_⟩
  obtain ⟨σ, -, -, -, -, hdeclared, hdetermines⟩ :=
    exists_typed_instance hverify hrule hf hfacts (by rfl)
  have hpremise : Sample.relation.relates 0 1 ∈ Sample.directory.axioms[2].premises :=
    List.mem_cons_self
  have hleft := hdetermines 0 (Or.inr ⟨_, hpremise, .apply List.mem_cons_self⟩)
  have hright := hdetermines 1
    (Or.inr ⟨_, hpremise, .apply (List.mem_cons_of_mem _ List.mem_cons_self)⟩)
  refine ⟨σ, hdeclared 0 ?_ hleft, hdeclared 1 ?_ hright⟩
  · exact Or.inr ⟨_, hpremise, by decide⟩
  · exact Or.inr ⟨_, hpremise, by decide⟩

end Directory

/-! ## A rule that matches everything -/

namespace Unconstrained

/-- Two types, a symbol of the second one, and an axiom that asserts a variable of the first. -/
def directory : Directory where
  systems := [⟨.null⟩]
  types := [⟨.null, 0⟩, ⟨.null, 0⟩]
  symbols := [⟨.null, 0, .ground 1⟩]
  axioms := [⟨.null, 0, [⟨.null, .ground 0⟩], [], .var 0, []⟩]
  theorems := [⟨.null, 0, [], [], .symbol 0, []⟩]

/-- The axiom may be cited for the symbol, although nothing of the type of its variable is
compatible with the symbol. -/
theorem not_exists_declared_instance :
    directory.verify.errors = [] ∧
      directory.rule? (.ofAxiom 0) = some directory.axioms[0] ∧
      directory.rule? (.ofTheorem 0) = some directory.theorems[0] ∧
      directory.formulaFaults directory.theorems[0].scope "" none (.symbol 0) = [] ∧
      directory.ruleFault? (.ofAxiom 0) (.symbol 0) [] = .ok none ∧
      ¬ ∃ σ : Ref → Formula,
        (∀ v, directory.axioms[0].Mentions v →
          directory.inferred directory.theorems[0].scope (σ v) =
            (itemAt? directory.axioms[0].scope v).map Variable.signature) ∧
        directory.compatible (directory.axioms[0].assertion.substitute σ) (.symbol 0) = .ok true ∧
        ∀ p ∈ directory.axioms[0].premises, ∃ fact ∈ ([] : List Formula),
          directory.compatible (p.substitute σ) fact = .ok true := by
  have hverify : directory.verify.errors = [] := by rfl
  refine ⟨hverify, by rfl, by rfl, by rfl, by rfl, ?_⟩
  rintro ⟨σ, hσ, hcompatible, -⟩
  have hgrounded := (Directory.verify_errors_eq_nil_iff.mp hverify).typed.grounded
  have hmentions : directory.axioms[0].Mentions 0 := Or.inl List.mem_cons_self
  have hvalue : (σ 0).HasSignature directory [] none (.ground 0) :=
    Directory.inferred_eq_some_iff.mp (hσ 0 hmentions)
  have hsymbol : (Formula.symbol 0).HasSignature directory [] none (.ground 1) :=
    Directory.inferred_eq_some_iff.mp (by rfl)
  have hnormal := (hgrounded.compatible_iff hvalue.resolved hsymbol.resolved).mp hcompatible
  cases hgrounded.signature_eq hvalue hsymbol hnormal

end Unconstrained

end Deduction
