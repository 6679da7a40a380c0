import Deduction.Proofs.Soundness
import Mathlib.Data.List.Nodup

/-!
# How general registered laws are

A law says something about whatever stands in its roles.  In the rule that announces it these are
variables; in a citation they are formulas.  `Law` is a law over things of any kind, so that both are
laws and a citation is the image of the rule under a substitution.

The checks of the flags compare the variables of a rule with each other, and ask that those are equal
that have to be.  Nothing asks that the others are different.  A rule that concludes `R(x, x)` from
`R(x, x)` passes for a symmetry law, and it cannot be cited to turn `R(a, b)` around.  This is the
only way in which a registered law can fail to be as general as its place promises: all laws of a
verified directory are general exactly if no registered law has one variable in two roles.

In one direction the roles are distinct, so any formulas can be put in for them at once.  In the
other a law is cited for distinct variables, which are not compatible with each other, so the
variables that were matched with them were distinct as well.

* `Law`, `Rule.States`: laws, and the rules that announce them.
* `Directory.LawsGeneral`, `Directory.DistinctRoles`: the two conditions.
* `Rule.States.instance_map`: what stands in the roles may be anything.
* `Directory.lawsGeneral_iff_distinctRoles`: the two conditions are the same.
* `Diagonal.not_lawsGeneral`: a directory without errors in which they fail.
-/

namespace Deduction

open Formula

/-! ## Applied heads -/

namespace Head

variable {D : Directory} {σ : Ref → Formula} {head : Head} {xs ys : List Formula}

theorem substitute_foldl_app (σ : Ref → Formula) (xs : List Formula) (f : Formula) :
    (xs.foldl Formula.app f).substitute σ =
      (xs.map (substitute σ)).foldl Formula.app (f.substitute σ) := by
  induction xs generalizing f with
  | nil => rfl
  | cons x xs ih => rw [List.foldl_cons, ih, List.map_cons, List.foldl_cons, substitute]

/-- Substitution passes to the inputs of a head. -/
theorem substitute_apply (σ : Ref → Formula) (head : Head) (xs : List Formula) :
    (head.apply xs).substitute σ = head.apply (xs.map (substitute σ)) := by
  cases head with
  | symbol ref => exact substitute_foldl_app σ xs (.symbol ref)
  | definition ref => rw [apply, apply, substitute, substituteAll_eq_map]

theorem forall₂_of_matches_foldl_app {f g : Formula} (hlen : xs.length = ys.length)
    (h : (xs.foldl Formula.app f).Matches D σ (ys.foldl Formula.app g)) :
    f.Matches D σ g ∧ List.Forall₂ (Matches D σ) xs ys := by
  induction xs generalizing ys f g with
  | nil =>
    obtain rfl := List.length_eq_zero_iff.mp hlen.symm
    exact ⟨h, .nil⟩
  | cons x xs ih =>
    obtain ⟨y, ys, rfl⟩ := List.exists_cons_of_length_eq_add_one hlen.symm
    obtain ⟨hfirst, hrest⟩ := ih (Nat.succ.inj hlen) h
    cases hfirst with
    | app hf hx => exact ⟨hf, .cons hx hrest⟩

/-- The inputs of a head are matched one by one. -/
theorem forall₂_of_matches_apply (hlen : xs.length = ys.length)
    (h : (head.apply xs).Matches D σ (head.apply ys)) : List.Forall₂ (Matches D σ) xs ys := by
  cases head with
  | symbol ref => exact (forall₂_of_matches_foldl_app hlen h).2
  | definition ref =>
    cases h with
    | definition _ hp => exact List.forall₂_iff_zip.mpr ⟨hlen, fun hmem => hp _ hmem⟩

theorem resolved_of_foldl_app {f : Formula} (h : (xs.foldl Formula.app f).Resolved D) :
    f.Resolved D ∧ ∀ x ∈ xs, x.Resolved D := by
  induction xs generalizing f with
  | nil => exact ⟨h, List.forall_mem_nil _⟩
  | cons x xs ih =>
    obtain ⟨hfirst, hrest⟩ := ih h
    cases hfirst with
    | app hf hx => exact ⟨hf, List.forall_mem_cons.mpr ⟨hx, hrest⟩⟩

theorem resolved_inputs (h : (head.apply xs).Resolved D) : ∀ x ∈ xs, x.Resolved D := by
  cases head with
  | symbol ref => exact (resolved_of_foldl_app h).2
  | definition ref => exact h.inputs

theorem resolved_foldl_app {f : Formula} (hf : f.Resolved D) (hxs : ∀ x ∈ xs, x.Resolved D) :
    (xs.foldl Formula.app f).Resolved D := by
  induction xs generalizing f with
  | nil => exact hf
  | cons x xs ih =>
    rw [List.forall_mem_cons] at hxs
    exact ih (.app hf hxs.1) hxs.2

/-- Whether a head resolves depends only on the number of its inputs. -/
theorem resolved_apply (h : (head.apply xs).Resolved D) (hlen : ys.length = xs.length)
    (hys : ∀ y ∈ ys, y.Resolved D) : (head.apply ys).Resolved D := by
  cases head with
  | symbol ref => exact resolved_foldl_app (.symbol ref) hys
  | definition ref =>
    cases h with
    | definition hd _ => exact .definition (hlen ▸ hd) hys

end Head

/-- An instance of a formula matches it. -/
theorem Formula.matches_substitute (D : Directory) (σ : Ref → Formula) (f : Formula) :
    f.Matches D σ (f.substitute σ) := by
  induction f using inductionOn with
  | symbol ref => exact .symbol ref
  | var ref => exact .var (D.compatible_self (σ ref))
  | app f x hf hx => exact .app hf hx
  | definition ref inputs ih =>
    rw [substitute, substituteAll_eq_map]
    refine .definition (List.length_map _).symm fun p hp => ?_
    rw [← List.map_prod_left_eq_zip] at hp
    obtain ⟨x, hx, rfl⟩ := List.mem_map.mp hp
    exact ih x hx

/-! ## Laws -/

section

variable {α β : Type} (g : α → β) (pairs : List (α × α))

theorem map_fst_map_prodMap :
    (pairs.map (Prod.map g g)).map Prod.fst = (pairs.map Prod.fst).map g := by
  rw [List.map_map, List.map_map]
  rfl

theorem map_snd_map_prodMap :
    (pairs.map (Prod.map g g)).map Prod.snd = (pairs.map Prod.snd).map g := by
  rw [List.map_map, List.map_map]
  rfl

end

/-- A law of a relation, or of a function that preserves a relation, about what stands in its
roles. -/
inductive Law (α : Type) where
  | reflexive (x : α)
  | symmetric (a b : α)
  | transitive (a b c : α)
  | congruence (relation : Head) (inputs : List (α × α))

namespace Law

variable {α β : Type}

/-- The place of a law in the registry. -/
def slot : Law α → Slot
  | .reflexive _ => .reflexive
  | .symmetric _ _ => .symmetric
  | .transitive _ _ _ => .transitive
  | .congruence relation _ => .congruence relation

/-- What stands in the roles of a law. -/
def roles : Law α → List α
  | .reflexive x => [x]
  | .symmetric a b => [a, b]
  | .transitive a b c => [a, b, c]
  | .congruence _ inputs => inputs.map Prod.fst ++ inputs.map Prod.snd

/-- The law about something else in the same roles. -/
def map (g : α → β) : Law α → Law β
  | .reflexive x => .reflexive (g x)
  | .symmetric a b => .symmetric (g a) (g b)
  | .transitive a b c => .transitive (g a) (g b) (g c)
  | .congruence relation inputs => .congruence relation (inputs.map (Prod.map g g))

/-- The number of premises of a law. -/
def count : Law α → Nat
  | .reflexive _ => 0
  | .symmetric _ _ => 1
  | .transitive _ _ _ => 2
  | .congruence _ inputs => inputs.length

/-- What a law about a head rests on. -/
def premises (head : Head) : Law Formula → List Formula
  | .reflexive _ => []
  | .symmetric a b => [head.apply [a, b]]
  | .transitive a b c => [head.apply [a, b], head.apply [b, c]]
  | .congruence relation inputs => inputs.map fun p => relation.apply [p.1, p.2]

/-- What a law about a head says. -/
def assertion (head : Head) : Law Formula → Formula
  | .reflexive x => head.apply [x, x]
  | .symmetric a b => head.apply [b, a]
  | .transitive a _ c => head.apply [a, c]
  | .congruence relation inputs =>
    relation.apply [head.apply (inputs.map Prod.fst), head.apply (inputs.map Prod.snd)]

@[simp] theorem count_map (g : α → β) (law : Law α) : (law.map g).count = law.count := by
  cases law with
  | congruence relation inputs => exact List.length_map _
  | _ => rfl

@[simp] theorem roles_map (g : α → β) (law : Law α) : (law.map g).roles = law.roles.map g := by
  cases law with
  | congruence relation inputs =>
    rw [map, roles, roles, map_fst_map_prodMap, map_snd_map_prodMap, List.map_append]
  | _ => rfl

@[simp] theorem length_premises (head : Head) (law : Law Formula) :
    (law.premises head).length = law.count := by
  cases law with
  | congruence relation inputs => exact List.length_map _
  | _ => rfl

theorem premises_map_substitute (head : Head) (law : Law Ref) (σ : Ref → Formula) :
    ((law.map .var).premises head).map (substitute σ) = (law.map σ).premises head := by
  cases law with
  | congruence relation inputs =>
    simp [map, premises, Function.comp_def, Head.substitute_apply, substitute]
  | _ => simp [map, premises, Head.substitute_apply, substitute]

theorem assertion_substitute (head : Head) (law : Law Ref) (σ : Ref → Formula) :
    ((law.map .var).assertion head).substitute σ = (law.map σ).assertion head := by
  cases law with
  | congruence relation inputs =>
    simp [map, assertion, Function.comp_def, Head.substitute_apply, substitute]
  | _ => simp [map, assertion, Head.substitute_apply, substitute]

/-- Only congruence laws come with different numbers of premises. -/
theorem count_eq_of_slot {law : Law α} {other : Law β} (hslot : law.slot = other.slot)
    (hother : ∀ relation, other.slot ≠ .congruence relation) : law.count = other.count := by
  cases other with
  | congruence relation inputs => exact absurd rfl (hother relation)
  | _ => cases law <;> first | rfl | cases hslot

end Law

/-- Formulas can be put in for distinct variables at once. -/
theorem exists_map_eq_of_nodup {roles : List Ref} (h : roles.Nodup)
    (values : List Formula) (hlen : roles.length = values.length) :
    ∃ σ : Ref → Formula, roles.map σ = values ∧ ∀ v, σ v ∈ values ∨ σ v = .var v := by
  induction roles generalizing values with
  | nil =>
    obtain rfl := List.length_eq_zero_iff.mp hlen.symm
    exact ⟨.var, rfl, fun v => Or.inr rfl⟩
  | cons role roles ih =>
    obtain ⟨value, values, rfl⟩ := List.exists_cons_of_length_eq_add_one hlen.symm
    obtain ⟨hrole, hroles⟩ := List.nodup_cons.mp h
    obtain ⟨σ, hσ, hvalues⟩ := ih hroles values (Nat.succ.inj hlen)
    refine ⟨Function.update σ role value, ?_, fun v => ?_⟩
    · have hrest : roles.map (Function.update σ role value) = roles.map σ := by
        refine List.map_congr_left fun v hv => Function.update_of_ne ?_ _ _
        rintro rfl
        exact hrole hv
      rw [List.map_cons, Function.update_self, hrest, hσ]
    · by_cases hv : v = role
      · subst hv
        rw [Function.update_self]
        exact Or.inl List.mem_cons_self
      · rw [Function.update_of_ne hv]
        exact (hvalues v).imp_left (List.mem_cons_of_mem _)

/-- A law about distinct variables becomes every law of the same place by a substitution. -/
theorem Law.exists_map_eq {law : Law Ref} {target : Law Formula} (hslot : law.slot = target.slot)
    (hcount : law.count = target.count) (hnodup : law.roles.Nodup) :
    ∃ σ : Ref → Formula, law.map σ = target ∧ ∀ v, σ v ∈ target.roles ∨ σ v = .var v := by
  match law, target, hslot with
  | .reflexive x, .reflexive y, _ =>
    obtain ⟨σ, hσ, hvalues⟩ := exists_map_eq_of_nodup hnodup [y] rfl
    obtain rfl : σ x = y := by simpa [roles] using hσ
    exact ⟨σ, rfl, hvalues⟩
  | .symmetric a b, .symmetric a' b', _ =>
    obtain ⟨σ, hσ, hvalues⟩ := exists_map_eq_of_nodup hnodup [a', b'] rfl
    obtain ⟨rfl, rfl⟩ : σ a = a' ∧ σ b = b' := by simpa [roles] using hσ
    exact ⟨σ, rfl, hvalues⟩
  | .transitive a b c, .transitive a' b' c', _ =>
    obtain ⟨σ, hσ, hvalues⟩ := exists_map_eq_of_nodup hnodup [a', b', c'] rfl
    obtain ⟨rfl, rfl, rfl⟩ : σ a = a' ∧ σ b = b' ∧ σ c = c' := by simpa [roles] using hσ
    exact ⟨σ, rfl, hvalues⟩
  | .congruence relation inputs, .congruence _ inputs', rfl =>
    have hlen : inputs.length = inputs'.length := hcount
    obtain ⟨σ, hσ, hvalues⟩ := exists_map_eq_of_nodup hnodup
      (inputs'.map Prod.fst ++ inputs'.map Prod.snd) (by simp [roles, hlen])
    rw [← roles_map] at hσ
    -- both halves of the roles have the length of the inputs, so they agree one by one
    obtain ⟨hfst, hsnd⟩ := List.append_inj hσ (by simp [hlen])
    have hinputs : inputs.map (Prod.map σ σ) = inputs' := by
      rw [← List.zip_unzip (inputs.map (Prod.map σ σ)), ← List.zip_unzip inputs',
        List.unzip_eq_map, List.unzip_eq_map, hfst, hsnd]
    exact ⟨σ, by rw [map, hinputs], hvalues⟩

/-! ## Rules that announce laws -/

namespace Rule

variable {D : Directory} {rule : Rule} {head : Head} {law : Law Ref}

/-- The rule is the law of a head with these variables in its roles. -/
structure States (rule : Rule) (head : Head) (law : Law Ref) : Prop where
  premises : rule.premises = (law.map .var).premises head
  assertion : rule.assertion = (law.map .var).assertion head

theorem States.length_premises (h : rule.States head law) : rule.premises.length = law.count := by
  rw [h.premises, Law.length_premises, Law.count_map]

/-- A rule of the right shape is a law about some variables. -/
theorem IsLaw.exists_states {slot : Slot} (h : rule.IsLaw head slot) :
    ∃ law : Law Ref, law.slot = slot ∧ rule.States head law := by
  cases slot with
  | reflexive =>
    obtain ⟨hpremises, x, hassertion⟩ := h
    exact ⟨.reflexive x, rfl, hpremises, hassertion⟩
  | symmetric =>
    obtain ⟨a, b, hpremises, hassertion⟩ := h
    exact ⟨.symmetric a b, rfl, hpremises, hassertion⟩
  | transitive =>
    obtain ⟨a, b, c, hpremises, hassertion⟩ := h
    exact ⟨.transitive a b c, rfl, hpremises, hassertion⟩
  | congruence relation =>
    obtain ⟨as, bs, -, hlen, hpremises, hassertion⟩ := h
    refine ⟨.congruence relation (as.zip bs), rfl, ?_, ?_⟩
    · rw [hpremises, Law.map, Law.premises, List.map_map, ← List.map_uncurry_zip_eq_zipWith]
      rfl
    · rw [hassertion, Law.map, Law.assertion, map_fst_map_prodMap, map_snd_map_prodMap,
        List.map_fst_zip (Nat.le_of_eq hlen), List.map_snd_zip (Nat.le_of_eq hlen.symm)]

/-- A law that resolves in a rule resolves whatever stands in its roles. -/
theorem States.resolved (h : rule.States head law) (htyped : rule.Typed D) {target : Law Formula}
    (hslot : law.slot = target.slot) (hcount : law.count = target.count)
    (hroles : ∀ x ∈ target.roles, x.Resolved D) :
    (target.assertion head).Resolved D ∧ ∀ p ∈ target.premises head, p.Resolved D := by
  have hassertion : ((law.map .var).assertion head).Resolved D := h.assertion ▸ htyped.resolved.2
  match law, target, hslot with
  | .reflexive _, .reflexive x, _ =>
    refine ⟨Head.resolved_apply hassertion rfl ?_, fun p hp => nomatch hp⟩
    simpa [Law.roles] using hroles
  | .symmetric _ _, .symmetric a b, _ =>
    have hsides : a.Resolved D ∧ b.Resolved D := by simpa [Law.roles] using hroles
    refine ⟨Head.resolved_apply hassertion rfl (by simpa using hsides.symm), ?_⟩
    exact List.forall_mem_singleton.mpr (Head.resolved_apply hassertion rfl (by simpa using hsides))
  | .transitive _ _ _, .transitive a b c, _ =>
    obtain ⟨ha, hb, hc⟩ : a.Resolved D ∧ b.Resolved D ∧ c.Resolved D := by
      simpa [Law.roles] using hroles
    refine ⟨Head.resolved_apply hassertion rfl (by simp [ha, hc]), ?_⟩
    exact List.forall_mem_cons.mpr ⟨Head.resolved_apply hassertion rfl (by simp [ha, hb]),
      List.forall_mem_singleton.mpr (Head.resolved_apply hassertion rfl (by simp [hb, hc]))⟩
  | .congruence relation own, .congruence _ inputs, rfl =>
    have hside := Head.resolved_inputs hassertion _ List.mem_cons_self
    have hfst : ∀ x ∈ inputs.map Prod.fst, x.Resolved D :=
      fun x hx => hroles x (List.mem_append_left _ hx)
    have hsnd : ∀ x ∈ inputs.map Prod.snd, x.Resolved D :=
      fun x hx => hroles x (List.mem_append_right _ hx)
    have hlen : inputs.length = own.length := hcount.symm
    have hleft := Head.resolved_apply hside (by simpa using hlen) hfst
    have hright := Head.resolved_apply hside (by simpa using hlen) hsnd
    refine ⟨Head.resolved_apply hassertion rfl (by simp [hleft, hright]), fun p hp => ?_⟩
    obtain ⟨q, hq, rfl⟩ := List.mem_map.mp hp
    refine Head.resolved_apply hassertion rfl ?_
    simp [hfst q.1 (List.mem_map_of_mem hq), hsnd q.2 (List.mem_map_of_mem hq)]

/-- **A law holds of whatever is put into its roles.** -/
theorem States.instance_map (h : rule.States head law) (D : Directory) (σ : Ref → Formula) :
    rule.Instance D σ ((law.map σ).assertion head) ((law.map σ).premises head) := by
  constructor
  · rw [← Law.assertion_substitute, ← h.assertion]
    exact matches_substitute D σ rule.assertion
  · intro p hp
    refine ⟨p.substitute σ, ?_, matches_substitute D σ p⟩
    rw [← Law.premises_map_substitute, ← h.premises]
    exact List.mem_map_of_mem hp

theorem Instance.mono {σ : Ref → Formula} {f : Formula} {facts facts' : List Formula}
    (h : rule.Instance D σ f facts) (hsub : facts ⊆ facts') : rule.Instance D σ f facts' := by
  refine ⟨h.1, fun p hp => ?_⟩
  obtain ⟨fact, hmem, hmatches⟩ := h.2 p hp
  exact ⟨fact, hsub hmem, hmatches⟩

end Rule

/-! ## Citing laws -/

theorem Formula.hereditary_resolved (D : Directory) : Hereditary (Resolved D) where
  function := by
    intro f x h
    cases h with
    | app hf _ => exact hf
  argument := by
    intro f x h
    cases h with
    | app _ hx => exact hx
  input := fun h => h.inputs

namespace Directory

variable {D : Directory} {head : Head} {ref : RuleRef} {rule : Rule}

/-- A citation is accepted exactly if the rule has an instance. -/
theorem Grounded.ruleFault?_eq_none_iff (hD : D.Grounded) (hrule : D.rule? ref = some rule)
    {f : Formula} {facts : List Formula} (hf : f.Resolved D) (hfacts : ∀ g ∈ facts, g.Resolved D) :
    D.ruleFault? ref f facts = .ok none ↔
      ∃ σ, (∀ v, (σ v).Resolved D) ∧ rule.Instance D σ f facts := by
  obtain ⟨fault, hfault, hsound, hcomplete⟩ :=
    yields_ruleFault? hD (fun h => h) (hereditary_resolved D) hrule hf hfacts
  rw [hfault, Except.ok.injEq]
  constructor
  · intro hnone
    obtain ⟨σ, hσ, hinstance, -⟩ := hsound hnone
    exact ⟨σ, hσ, hinstance⟩
  · exact hcomplete

/-- Every registered law can be cited for whatever stands in its roles. -/
structure LawsGeneral (D : Directory) : Prop where
  reflexive : ∀ (R : Head) (r : RuleRef) (a : Formula),
    D.verify.registry.reflexivity? R = some r → a.Resolved D →
    D.ruleFault? r (R.apply [a, a]) [] = .ok none
  symmetric : ∀ (R : Head) (s : RuleRef) (a b : Formula),
    D.verify.registry.symmetry? R = some s → a.Resolved D → b.Resolved D →
    D.ruleFault? s (R.apply [b, a]) [R.apply [a, b]] = .ok none
  transitive : ∀ (R : Head) (t : RuleRef) (a b c : Formula),
    D.verify.registry.transitivity? R = some t → a.Resolved D → b.Resolved D → c.Resolved D →
    D.ruleFault? t (R.apply [a, c]) [R.apply [a, b], R.apply [b, c]] = .ok none
  congruence : ∀ (f R : Head) (g : RuleRef) (rule : Rule) (inputs : List (Formula × Formula)),
    D.verify.registry.congruence? f R = some g → D.rule? g = some rule →
    inputs.length = rule.premises.length → (∀ p ∈ inputs, p.1.Resolved D ∧ p.2.Resolved D) →
    D.ruleFault? g (R.apply [f.apply (inputs.map Prod.fst), f.apply (inputs.map Prod.snd)])
      (inputs.map fun p => R.apply [p.1, p.2]) = .ok none

/-- No registered law has one variable in two roles. -/
def DistinctRoles (D : Directory) : Prop :=
  ∀ (head : Head) (law : Law Ref) (ref : RuleRef) (rule : Rule),
    (D.verify.registry.get head).slot? law.slot = some ref → D.rule? ref = some rule →
    rule.States head law → law.roles.Nodup

/-- Whatever stands in the roles of a registered law with distinct roles, the law has an instance
that says so, and everything in it resolves. -/
theorem Verified.exists_instance (hD : D.Verified) (hroles : D.DistinctRoles) {law : Law Formula}
    (hslot : (D.verify.registry.get head).slot? law.slot = some ref) (hrule : D.rule? ref = some rule)
    (hcount : ∀ relation, law.slot = .congruence relation → law.count = rule.premises.length)
    (hresolved : ∀ x ∈ law.roles, x.Resolved D) :
    (∃ σ, (∀ v, (σ v).Resolved D) ∧
      rule.Instance D σ (law.assertion head) (law.premises head)) ∧
    (law.assertion head).Resolved D ∧ ∀ p ∈ law.premises head, p.Resolved D := by
  obtain ⟨rule', hrule', hlaw, htyped⟩ := hD.backed head law.slot ref hslot
  obtain rfl : rule = rule' := Option.some.inj (hrule.symm.trans hrule')
  obtain ⟨own, hown, hstates⟩ := hlaw.exists_states
  have hsame : own.count = law.count := by
    by_cases hcongruence : ∃ relation, law.slot = .congruence relation
    · obtain ⟨relation, hrelation⟩ := hcongruence
      rw [hcount relation hrelation, hstates.length_premises]
    · exact Law.count_eq_of_slot hown fun relation h => hcongruence ⟨relation, h⟩
  have hnodup := hroles head own ref rule (hown ▸ hslot) hrule hstates
  obtain ⟨σ, rfl, hvalues⟩ := Law.exists_map_eq hown hsame hnodup
  have hσ : ∀ v, (σ v).Resolved D := by
    intro v
    rcases hvalues v with hv | hv
    · exact hresolved _ hv
    · rw [hv]
      exact .var v
  exact ⟨⟨σ, hσ, hstates.instance_map D σ⟩, hstates.resolved htyped hown hsame hresolved⟩

/-- A registered law with distinct roles can be cited. -/
theorem Verified.ruleFault?_eq_none (hD : D.Verified) (hroles : D.DistinctRoles)
    (law : Law Formula) (hslot : (D.verify.registry.get head).slot? law.slot = some ref)
    (hcount : ∀ relation rule, law.slot = .congruence relation → D.rule? ref = some rule →
      law.count = rule.premises.length) (hresolved : ∀ x ∈ law.roles, x.Resolved D) :
    D.ruleFault? ref (law.assertion head) (law.premises head) = .ok none := by
  obtain ⟨rule, hrule, -⟩ := hD.backed head law.slot ref hslot
  obtain ⟨hinstance, hassertion, hpremises⟩ :=
    hD.exists_instance hroles hslot hrule (fun relation h => hcount relation rule h hrule) hresolved
  exact (hD.typed.grounded.ruleFault?_eq_none_iff hrule hassertion hpremises).mpr hinstance

/-! ## Laws that are general have distinct roles -/

section

variable {σ : Ref → Formula} {vs ks : List Ref}

/-- A variable that was matched with a variable. -/
def Pins (D : Directory) (σ : Ref → Formula) (v k : Ref) : Prop :=
  D.compatible (σ v) (.var k) = .ok true

/-- Different variables are not compatible. -/
theorem Grounded.pins_unique (hD : D.Grounded) (hσ : ∀ v, (σ v).Resolved D) {v k l : Ref}
    (hk : D.Pins σ v k) (hl : D.Pins σ v l) : k = l := by
  have hfirst := (hD.compatible_iff (hσ v) (.var k)).mp hk
  have hsecond := (hD.compatible_iff (hσ v) (.var l)).mp hl
  have hvar : D.normal (.var k) = D.normal (.var l) := hfirst.symm.trans hsecond
  rw [normal_var, normal_var] at hvar
  exact Formula.var.inj hvar

theorem forall₂_pins_of_matches (hlen : vs.length = ks.length)
    (h : (head.apply (vs.map .var)).Matches D σ (head.apply (ks.map .var))) :
    List.Forall₂ (D.Pins σ) vs ks := by
  have hinputs := Head.forall₂_of_matches_apply (by simpa using hlen) h
  rw [List.forall₂_map_left_iff, List.forall₂_map_right_iff] at hinputs
  refine hinputs.imp fun v k hv => ?_
  cases hv with
  | var hc => exact hc

/-- Variables that were matched with distinct ones are distinct. -/
theorem Grounded.nodup_of_forall₂_pins (hD : D.Grounded) (hσ : ∀ v, (σ v).Resolved D)
    (h : List.Forall₂ (D.Pins σ) vs ks) (hks : ks.Nodup) : vs.Nodup := by
  induction h with
  | nil => exact .nil
  | @cons v k vs ks hv hrest ih =>
    rw [List.nodup_cons] at hks ⊢
    refine ⟨fun hmem => hks.1 ?_, ih hks.2⟩
    obtain ⟨l, hl, hpins⟩ := exists_mem_of_forall₂_of_mem hrest.flip hmem
    rw [hD.pins_unique hσ hv hpins]
    exact hl

/-- Pairs in which no variable stands twice. -/
def distinctPairs (n : Nat) : List (Ref × Ref) :=
  (List.range n).map fun i => (Int.ofNat i, Int.ofNat (n + i))

theorem nodup_distinctPairs (n : Nat) :
    ((distinctPairs n).map Prod.fst ++ (distinctPairs n).map Prod.snd).Nodup := by
  have hnames : (distinctPairs n).map Prod.fst ++ (distinctPairs n).map Prod.snd =
      (List.range (n + n)).map Int.ofNat := by
    rw [List.range_add, List.map_append, distinctPairs, List.map_map, List.map_map, List.map_map]
    rfl
  rw [hnames]
  exact List.nodup_range.map fun i j h => Int.ofNat.inj h

end

/-- Cited for distinct variables, a law shows that its roles are distinct. -/
theorem Verified.distinctRoles (hD : D.Verified) (h : D.LawsGeneral) : D.DistinctRoles := by
  have hgrounded := hD.typed.grounded
  intro head law ref rule hslot hrule hstates
  -- an accepted citation for variables comes from an instance of the rule
  have hcited : ∀ target : Law Formula, law.slot = target.slot → law.count = target.count →
      (∀ x ∈ target.roles, x.Resolved D) →
      D.ruleFault? ref (target.assertion head) (target.premises head) = .ok none →
      ∃ σ, (∀ v, (σ v).Resolved D) ∧
        rule.Instance D σ (target.assertion head) (target.premises head) := by
    intro target hsame hcount hroles hok
    obtain ⟨hassertion, hpremises⟩ := hstates.resolved (hD.rule hrule) hsame hcount hroles
    exact (hgrounded.ruleFault?_eq_none_iff hrule hassertion hpremises).mp hok
  cases law with
  | reflexive x => exact List.nodup_singleton x
  | symmetric a b =>
    obtain ⟨σ, hσ, hassertion, -⟩ := hcited (.symmetric (.var 0) (.var 1)) rfl rfl
      (by simp [Law.roles, Resolved.var]) (h.symmetric head ref _ _ hslot (.var 0) (.var 1))
    rw [hstates.assertion] at hassertion
    have hpins : List.Forall₂ (D.Pins σ) [b, a] [1, 0] := forall₂_pins_of_matches rfl hassertion
    exact List.nodup_reverse.mp (hgrounded.nodup_of_forall₂_pins hσ hpins (by decide))
  | transitive a b c =>
    obtain ⟨σ, hσ, hassertion, hpremises⟩ :=
      hcited (.transitive (.var 0) (.var 1) (.var 2)) rfl rfl
        (by simp [Law.roles, Resolved.var])
        (h.transitive head ref _ _ _ hslot (.var 0) (.var 1) (.var 2))
    rw [hstates.assertion] at hassertion
    have hends : List.Forall₂ (D.Pins σ) [a, c] [0, 2] := forall₂_pins_of_matches rfl hassertion
    have hfirst : head.relates a b ∈ rule.premises := by
      rw [hstates.premises]
      exact List.mem_cons_self
    obtain ⟨fact, hmem, hmatches⟩ := hpremises _ hfirst
    -- the first premise cannot be the second fact, which has another left side
    have hmiddle : List.Forall₂ (D.Pins σ) [a, b] [0, 1] := by
      rcases List.mem_pair.mp hmem with rfl | rfl
      · exact forall₂_pins_of_matches rfl hmatches
      · have hwrong : List.Forall₂ (D.Pins σ) [a, b] [1, 2] := forall₂_pins_of_matches rfl hmatches
        cases hgrounded.pins_unique hσ (List.forall₂_cons.mp hends).1 (List.forall₂_cons.mp hwrong).1
    have hpins : List.Forall₂ (D.Pins σ) [a, b, c] [0, 1, 2] :=
      List.rel_append hmiddle (List.forall₂_cons.mp hends).2
    exact hgrounded.nodup_of_forall₂_pins hσ hpins (by decide)
  | congruence relation inputs =>
    have hlen : inputs.length = (distinctPairs inputs.length).length := by simp [distinctPairs]
    obtain ⟨σ, hσ, hassertion, -⟩ :=
      hcited ((Law.congruence relation (distinctPairs inputs.length)).map .var) rfl
        (by rw [Law.count_map]; exact hlen)
        (by rw [Law.roles_map]; exact List.forall_mem_map.mpr fun v _ => .var v)
        (h.congruence head relation ref rule _ hslot hrule
          (by rw [hstates.length_premises, List.length_map]; exact hlen.symm)
          (List.forall_mem_map.mpr fun p _ => ⟨.var p.1, .var p.2⟩))
    rw [hstates.assertion] at hassertion
    simp only [Law.map, Law.assertion, map_fst_map_prodMap, map_snd_map_prodMap] at hassertion
    have hsides := Head.forall₂_of_matches_apply (by rfl) hassertion
    obtain ⟨hleft, hsides⟩ := List.forall₂_cons.mp hsides
    obtain ⟨hright, -⟩ := List.forall₂_cons.mp hsides
    have hpins := List.rel_append
      (forall₂_pins_of_matches (by simpa using hlen) hleft)
      (forall₂_pins_of_matches (by simpa using hlen) hright)
    exact hgrounded.nodup_of_forall₂_pins hσ hpins (nodup_distinctPairs inputs.length)

/-- Laws with distinct roles are as general as their places promise. -/
theorem Verified.lawsGeneral (hD : D.Verified) (h : D.DistinctRoles) : D.LawsGeneral where
  reflexive R r a hslot ha := by
    refine hD.ruleFault?_eq_none h (.reflexive a) hslot (fun _ _ hc => nomatch hc) ?_
    exact List.forall_mem_singleton.mpr ha
  symmetric R s a b hslot ha hb := by
    refine hD.ruleFault?_eq_none h (.symmetric a b) hslot (fun _ _ hc => nomatch hc) ?_
    simp [Law.roles, ha, hb]
  transitive R t a b c hslot ha hb hc := by
    refine hD.ruleFault?_eq_none h (.transitive a b c) hslot (fun _ _ hc => nomatch hc) ?_
    simp [Law.roles, ha, hb, hc]
  congruence f R g rule inputs hslot hrule hlen hinputs := by
    refine hD.ruleFault?_eq_none h (.congruence R inputs) hslot ?_ ?_
    · intro relation rule' _ hrule'
      rw [Option.some.inj (hrule'.symm.trans hrule)]
      exact hlen
    · intro x hx
      rcases List.mem_append.mp hx with hx | hx
      · obtain ⟨p, hp, rfl⟩ := List.mem_map.mp hx
        exact (hinputs p hp).1
      · obtain ⟨p, hp, rfl⟩ := List.mem_map.mp hx
        exact (hinputs p hp).2

/-- **Registered laws are as general as their places promise exactly if none of them has one
variable in two roles.** -/
theorem lawsGeneral_iff_distinctRoles (hverify : D.verify.errors = []) :
    D.LawsGeneral ↔ D.DistinctRoles := by
  have hD := verify_errors_eq_nil_iff.mp hverify
  exact ⟨hD.distinctRoles, hD.lawsGeneral⟩

end Directory

/-! ## Roles in two directories -/

namespace Sample

theorem verify_errors : directory.verify.errors = [] := by rfl

/-- The three laws of the directory. -/
theorem slot?_cases {head : Head} {slot : Slot} {ref : RuleRef}
    (h : (directory.verify.registry.get head).slot? slot = some ref) :
    head = relation ∧ slot = .reflexive ∧ ref = .ofAxiom 0 ∨
      head = relation ∧ slot = .transitive ∧ ref = .ofAxiom 1 ∨
      head = .symbol 1 ∧ slot = .congruence relation ∧ ref = .ofAxiom 2 := by
  have hlists : directory.verify.registry.lists =
      [(relation, { reflexive := some (.ofAxiom 0), transitive := some (.ofAxiom 1) }),
        (.symbol 1, { congruences := [(relation, .ofAxiom 2)] })] := by rfl
  rw [Registry.get, hlists] at h
  by_cases hrelation : head = relation
  · subst hrelation
    cases slot <;> cases h
    · exact Or.inl ⟨rfl, rfl, rfl⟩
    · exact Or.inr (Or.inl ⟨rfl, rfl, rfl⟩)
  by_cases hfunction : head = .symbol 1
  · subst hfunction
    cases slot with
    | congruence other =>
      by_cases hother : other = relation
      · subst hother
        cases h
        exact Or.inr (Or.inr ⟨rfl, rfl, rfl⟩)
      · have hlookup : [(relation, RuleRef.ofAxiom 2)].lookup other = some ref := h
        rw [List.lookup_cons, beq_eq_false_iff_ne.mpr hother] at hlookup
        cases hlookup
    | _ => cases h
  · rw [List.lookup_cons, beq_eq_false_iff_ne.mpr hrelation, List.lookup_cons,
      beq_eq_false_iff_ne.mpr hfunction] at h
    cases slot <;> cases h

theorem distinctRoles_directory : directory.DistinctRoles := by
  intro head law ref rule hslot hrule hstates
  have hpremises := hstates.premises
  rcases slot?_cases hslot with ⟨rfl, hlaw, rfl⟩ | ⟨rfl, hlaw, rfl⟩ | ⟨rfl, hlaw, rfl⟩
  · cases law <;> cases hlaw
    exact List.nodup_singleton _
  · cases law <;> cases hlaw
    cases hrule
    cases hpremises
    decide
  · cases law with
    | congruence other inputs =>
      cases hlaw
      cases hrule
      match inputs, hpremises with
      | [(a, b)], hpremises =>
        cases hpremises
        decide
    | _ => cases hlaw

/-- The laws of the relation and of the function are general. -/
theorem lawsGeneral_directory :
    directory.verify.errors = [] ∧ directory.DistinctRoles ∧ directory.LawsGeneral :=
  ⟨verify_errors, distinctRoles_directory,
    (Directory.lawsGeneral_iff_distinctRoles verify_errors).mpr distinctRoles_directory⟩

end Sample

namespace Diagonal

/-- The relation. -/
def relation : Head := .symbol 0

/-- The only axiom passes for a symmetry law, and has one variable in both roles. -/
def directory : Directory where
  systems := [⟨.null⟩]
  types := [⟨.null, 0⟩, ⟨.null, 0⟩]
  symbols := [⟨.null, 0, .arrow (.ground 0) (.arrow (.ground 0) (.ground 1))⟩]
  definitions := []
  axioms := [⟨.null, 0, [⟨.null, .ground 0⟩], [relation.relates 0 0], relation.relates 0 0,
    [.symmetric]⟩]
  theorems := []
  proofs := []

/-- The axiom is registered without an error, and does not turn the relation around. -/
theorem not_lawsGeneral : directory.verify.errors = [] ∧
    directory.verify.registry.symmetry? relation = some (.ofAxiom 0) ∧
    directory.ruleFault? (.ofAxiom 0) (relation.relates 1 0) [relation.relates 0 1] ≠ .ok none ∧
    ¬ directory.LawsGeneral := by
  have hfault : directory.ruleFault? (.ofAxiom 0) (relation.relates 1 0) [relation.relates 0 1] ≠
      .ok none := by
    decide
  refine ⟨by rfl, by rfl, hfault, fun h => hfault ?_⟩
  exact h.symmetric relation (.ofAxiom 0) (.var 0) (.var 1) rfl (.var 0) (.var 1)

end Diagonal

end Deduction
