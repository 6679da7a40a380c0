import Deduction.Matching
import Deduction.Proofs.Unfolding

/-!
# Matching is exact

A substitution *matches* a template with a target if the two have the same shape, with the same
symbols and definitions, and the value of every variable is compatible with each part of the target
that faces it.  A set of bindings stands for all substitutions whose values are compatible with what
is bound, its *solutions*.

Every operation of the matcher is described by what happens to solutions.  Matching a template with
a target keeps those solutions that match; joining two sets of bindings gives the common solutions;
matching a template with several candidates gives the solutions that match one of them.  Which of
several compatible formulas is kept as a binding makes no difference, because being compatible is
having the same normal form.

Along with the solutions, `Represents` records that the bound formulas have a property that passes
to the parts of the targets, and which variables are bound.

* `Formula.Matches`: what a match is.
* `Bindings.Solved`, `Represents`: solutions, and the alternatives that describe a set of them.
* `Bindings.refines_extend?`, `Bindings.yields_mergeAll`, `Bindings.yields_findAll`: one law for each
  operation.
-/

namespace Deduction

/-! ## Matches -/

/-- A template and a target of the same shape, where the value of a variable is compatible with
every part that faces it. -/
inductive Formula.Matches (D : Directory) (σ : Ref → Formula) : Formula → Formula → Prop
  | symbol (ref : Ref) : Matches D σ (.symbol ref) (.symbol ref)
  | var {ref : Ref} {g : Formula} : D.compatible (σ ref) g = .ok true → Matches D σ (.var ref) g
  | app {f x g y : Formula} : Matches D σ f g → Matches D σ x y → Matches D σ (.app f x) (.app g y)
  | definition {ref : Ref} {xs ys : List Formula} : xs.length = ys.length →
      (∀ p ∈ xs.zip ys, Matches D σ p.1 p.2) →
      Matches D σ (.definition ref xs) (.definition ref ys)

namespace Bindings

variable {D : Directory}

/-! ## Bound variables -/

theorem lookup_map_value {α β : Type} (h : Ref → α → β) (entries : List (Ref × α)) (ref : Ref) :
    (entries.map fun e => (e.1, h e.1 e.2)).lookup ref = (entries.lookup ref).map (h ref) := by
  induction entries with
  | nil => rfl
  | cons e entries ih =>
    rw [List.map_cons, List.lookup_cons, List.lookup_cons, ih]
    cases hb : ref == e.1 with
    | true =>
      rw [beq_iff_eq] at hb
      rw [hb]
      rfl
    | false => rfl

theorem lookup_filter_key {α : Type} (p : Ref → Bool) (entries : List (Ref × α)) (ref : Ref) :
    (entries.filter fun e => p e.1).lookup ref = if p ref then entries.lookup ref else none := by
  induction entries with
  | nil => simp
  | cons e entries ih =>
    rw [List.filter_cons, List.lookup_cons]
    cases hb : ref == e.1 with
    | true =>
      rw [beq_iff_eq] at hb
      subst hb
      split
      · rw [List.lookup_cons, beq_self_eq_true]
      · next hp => rw [ih, if_neg hp]
    | false =>
      split
      · rw [List.lookup_cons, hb, ih]
      · rw [ih]

/-- A union binds what either side binds, and keeps what the left side binds. -/
theorem get?_union (left right : Bindings) (ref : Ref) :
    (left.union right).get? ref = (left.get? ref).or (right.get? ref) := by
  have hmap := lookup_map_value (fun key f => (left.get? key).getD f) right.entries ref
  have hfilter := lookup_filter_key (fun key => (right.get? key).isNone) left.entries ref
  rw [get?, union, List.lookup_append, hmap, hfilter]
  rw [show right.entries.lookup ref = right.get? ref from rfl,
    show left.entries.lookup ref = left.get? ref from rfl]
  cases right.get? ref with
  | none => simp
  | some g => cases left.get? ref <;> simp

/-- Bindings of formulas with a property to given variables, each bound once. -/
structure Regular (P : Formula → Prop) (vars : Ref → Prop) (b : Bindings) : Prop where
  entry : ∀ e ∈ b.entries, b.get? e.1 = some e.2
  value : ∀ {ref : Ref} {g : Formula}, b.get? ref = some g → P g
  binds : ∀ {ref : Ref}, (b.get? ref).isSome ↔ vars ref

theorem regular_empty (P : Formula → Prop) : ({} : Bindings).Regular P fun _ => False where
  entry := fun _ h => nomatch h
  value := fun h => nomatch h
  binds := by simp

/-- Substitutions whose values are compatible with what is bound. -/
def Solved (D : Directory) (b : Bindings) (σ : Ref → Formula) : Prop :=
  ∀ ref g, b.get? ref = some g → D.compatible (σ ref) g = .ok true

theorem solved_empty (D : Directory) (σ : Ref → Formula) : ({} : Bindings).Solved D σ := by
  intro ref g h
  cases h

theorem image_of_get? {b : Bindings} {ref : Ref} {g : Formula} (h : b.get? ref = some g) :
    b.image ref = g := by
  rw [image, h, Option.getD_some]

/-- Bindings are solved by the substitution that they are. -/
theorem solved_image (D : Directory) (b : Bindings) : b.Solved D b.image := by
  intro ref g h
  rw [image_of_get? h]
  exact D.compatible_self g

theorem Regular.image {P : Formula → Prop} {vars : Ref → Prop} {b : Bindings} (h : b.Regular P vars)
    {ref : Ref} (hv : vars ref) : P (b.image ref) := by
  obtain ⟨g, hg⟩ := Option.isSome_iff_exists.mp (h.binds.mpr hv)
  rw [image_of_get? hg]
  exact h.value hg

theorem Regular.resolved_image {P : Formula → Prop} {vars : Ref → Prop} {b : Bindings}
    (hP : ∀ {f : Formula}, P f → f.Resolved D) (h : b.Regular P vars) (ref : Ref) :
    (b.image ref).Resolved D := by
  cases hg : b.get? ref with
  | none =>
    rw [Bindings.image, hg]
    exact .var ref
  | some g =>
    rw [image_of_get? hg]
    exact hP (h.value hg)

end Bindings

/-- Alternatives that are regular and whose solutions are exactly those of a condition. -/
structure Represents (D : Directory) (P : Formula → Prop) (vars : Ref → Prop)
    (condition : (Ref → Formula) → Prop) (alternatives : List Bindings) : Prop where
  regular : ∀ b ∈ alternatives, b.Regular P vars
  solutions : ∀ σ : Ref → Formula, (∀ ref, (σ ref).Resolved D) →
    ((∃ b ∈ alternatives, b.Solved D σ) ↔ condition σ)

namespace Represents

variable {D : Directory} {P : Formula → Prop} {vars vars' : Ref → Prop}
  {condition condition' : (Ref → Formula) → Prop} {alternatives others : List Bindings}

theorem nil (h : ∀ σ : Ref → Formula, (∀ ref, (σ ref).Resolved D) → ¬ condition σ) :
    Represents D P vars condition [] where
  regular := fun _ hb => nomatch hb
  solutions := by
    intro σ hσ
    constructor
    · rintro ⟨b, hb, -⟩
      cases hb
    · intro hc
      exact absurd hc (h σ hσ)

theorem singleton {b : Bindings} (hb : b.Regular P vars)
    (h : ∀ σ : Ref → Formula, (∀ ref, (σ ref).Resolved D) → (b.Solved D σ ↔ condition σ)) :
    Represents D P vars condition [b] where
  regular := by
    intro b' hmem
    rw [List.mem_singleton] at hmem
    rw [hmem]
    exact hb
  solutions := by
    intro σ hσ
    rw [← h σ hσ]
    simp only [List.mem_singleton, exists_eq_left]

/-- Alternatives taken together have the solutions of either part. -/
theorem append (h : Represents D P vars condition alternatives)
    (h' : Represents D P vars condition' others) :
    Represents D P vars (fun σ => condition σ ∨ condition' σ) (alternatives ++ others) where
  regular := by
    intro b hb
    exact (List.mem_append.mp hb).elim (h.regular b) (h'.regular b)
  solutions := by
    intro σ hσ
    rw [← h.solutions σ hσ, ← h'.solutions σ hσ]
    simp only [List.mem_append, or_and_right, exists_or]

theorem congr (h : Represents D P vars condition alternatives) (hv : ∀ v, vars v ↔ vars' v)
    (hc : ∀ σ, (∀ ref, (σ ref).Resolved D) → (condition σ ↔ condition' σ)) :
    Represents D P vars' condition' alternatives where
  regular := by
    intro b hb
    obtain rfl : vars = vars' := funext fun v => propext (hv v)
    exact h.regular b hb
  solutions := fun σ hσ => (h.solutions σ hσ).trans (hc σ hσ)

/-- Every alternative is a solution, with values that have the property. -/
theorem exists_solution (hP : ∀ {f : Formula}, P f → f.Resolved D)
    (h : Represents D P vars condition alternatives) {b : Bindings} (hb : b ∈ alternatives) :
    ∃ σ, (∀ ref, (σ ref).Resolved D) ∧ condition σ ∧ ∀ v, vars v → P (σ v) := by
  have hσ := (h.regular b hb).resolved_image hP
  refine ⟨b.image, hσ, (h.solutions b.image hσ).mp ⟨b, hb, b.solved_image D⟩, fun v hv => ?_⟩
  exact (h.regular b hb).image hv

/-- There are no alternatives exactly if there is no solution. -/
theorem eq_nil_iff (hP : ∀ {f : Formula}, P f → f.Resolved D)
    (h : Represents D P vars condition alternatives) :
    alternatives = [] ↔ ¬ ∃ σ, (∀ ref, (σ ref).Resolved D) ∧ condition σ := by
  constructor
  · rintro rfl ⟨σ, hσ, hc⟩
    obtain ⟨b, hb, -⟩ := (h.solutions σ hσ).mpr hc
    cases hb
  · intro hnone
    refine List.eq_nil_iff_forall_not_mem.mpr fun b hb => hnone ?_
    obtain ⟨σ, hσ, hc, -⟩ := h.exists_solution hP hb
    exact ⟨σ, hσ, hc⟩

end Represents

/-! ## Matching one formula -/

namespace Bindings

open Formula

variable {D : Directory} {P : Formula → Prop} {vars : Ref → Prop} {b : Bindings}

/-- A computation that binds more variables and keeps the solutions with a further property. -/
def Refines (D : Directory) (P : Formula → Prop) (vars : Ref → Prop) (b : Bindings)
    (added : Ref → Prop) (condition : (Ref → Formula) → Prop)
    (x : Except ContractError (Option Bindings)) : Prop :=
  Yields x fun r => Represents D P (fun v => vars v ∨ added v)
    (fun σ => b.Solved D σ ∧ condition σ) r.toList

variable {added added' : Ref → Prop} {condition condition' : (Ref → Formula) → Prop}
  {x : Except ContractError (Option Bindings)}

theorem Refines.congr (h : Refines D P vars b added condition x) (hv : ∀ v, added v ↔ added' v)
    (hc : ∀ σ, condition σ ↔ condition' σ) : Refines D P vars b added' condition' x :=
  h.mono fun _ hr => hr.congr (fun v => or_congr_right (hv v)) fun σ _ => and_congr_right fun _ =>
    hc σ

theorem refines_none (h : ∀ σ, ¬ condition σ) : Refines D P vars b added condition (.ok none) :=
  .pure (.nil fun σ _ hc => h σ hc.2)

/-- Bindings that are kept as they are. -/
theorem refines_some (hb : b.Regular P vars) :
    Refines D P vars b (fun _ => False) (fun _ => True) (.ok (some b)) := by
  refine .pure ((Represents.singleton hb fun σ _ => Iff.rfl).congr ?_ ?_)
  · intro v
    rw [or_false]
  · intro σ _
    rw [and_true]

/-- One refinement after another. -/
theorem Refines.bind {k : Option Bindings → Except ContractError (Option Bindings)}
    (hx : Refines D P vars b added condition x) (hnone : k none = .ok none)
    (hsome : ∀ b', b'.Regular P (fun v => vars v ∨ added v) →
      Refines D P (fun v => vars v ∨ added v) b' added' condition' (k (some b'))) :
    Refines D P vars b (fun v => added v ∨ added' v) (fun σ => condition σ ∧ condition' σ)
      (x >>= k) := by
  refine Yields.bind hx fun r hr => ?_
  cases r with
  | none =>
    rw [hnone]
    refine .pure (.nil fun σ hσ hc => ?_)
    obtain ⟨b', hb', -⟩ := (hr.solutions σ hσ).mpr ⟨hc.1, hc.2.1⟩
    cases hb'
  | some b' =>
    refine (hsome b' (hr.regular b' List.mem_cons_self)).mono fun r' hr' => hr'.congr ?_ ?_
    · intro v
      rw [or_assoc]
    · intro σ hσ
      have hsolved : b'.Solved D σ ↔ b.Solved D σ ∧ condition σ := by
        rw [← hr.solutions σ hσ]
        simp only [Option.toList_some, List.mem_singleton, exists_eq_left]
      rw [hsolved, and_assoc]

theorem solved_push_iff {σ : Ref → Formula} {ref : Ref} {f : Formula} (h : b.get? ref = none) :
    (b.push ref f).Solved D σ ↔ b.Solved D σ ∧ D.compatible (σ ref) f = .ok true := by
  constructor
  · intro hs
    refine ⟨fun other g hg => hs other g ?_, hs ref f ?_⟩
    · rw [get?_push, hg, Option.some_or]
    · rw [get?_push, h, Option.none_or, if_pos rfl]
  · rintro ⟨hs, hf⟩ other g hg
    rw [get?_push, Option.or_eq_some_iff] at hg
    rcases hg with hg | ⟨-, hg⟩
    · exact hs other g hg
    · obtain ⟨rfl, rfl⟩ : other = ref ∧ f = g := by simpa using hg
      exact hf

theorem Regular.push (hb : b.Regular P vars) {ref : Ref} {f : Formula} (h : b.get? ref = none)
    (hf : P f) : (b.push ref f).Regular P fun v => vars v ∨ v = ref where
  entry := by
    intro e he
    rw [get?_push]
    rcases List.mem_append.mp he with he | he
    · rw [hb.entry e he, Option.some_or]
    · rw [List.mem_singleton.mp he, h, Option.none_or, if_pos rfl]
  value := by
    intro other g hg
    rw [get?_push, Option.or_eq_some_iff] at hg
    rcases hg with hg | ⟨-, hg⟩
    · exact hb.value hg
    · obtain ⟨-, rfl⟩ : other = ref ∧ f = g := by simpa using hg
      exact hf
  binds := by
    intro other
    rw [get?_push, Option.isSome_or, Bool.or_eq_true, hb.binds]
    by_cases ho : other = ref <;> simp [ho]

/-- Matching the inputs of a definition, if matching each of them is understood. -/
theorem refines_extendAll? {xs : List Formula}
    (ih : ∀ x ∈ xs, ∀ {vars : Ref → Prop} {b : Bindings} {y : Formula}, b.Regular P vars → P y →
      Refines D P vars b (fun v => v ∈ x.variableRefs) (fun σ => x.Matches D σ y)
        (extend? D x y b))
    {ys : List Formula} (hlen : xs.length = ys.length) (hys : ∀ y ∈ ys, P y)
    (hb : b.Regular P vars) :
    Refines D P vars b (fun v => ∃ x ∈ xs, v ∈ x.variableRefs)
      (fun σ => ∀ p ∈ xs.zip ys, p.1.Matches D σ p.2) (extendAll? D xs ys b) := by
  induction xs generalizing ys with
  | nil =>
    cases ys with
    | nil =>
      rw [extendAll?]
      exact (refines_some hb).congr (by simp) (by simp)
    | cons y ys => cases hlen
  | cons x xs ihxs =>
    cases ys with
    | nil => cases hlen
    | cons y ys =>
      rw [extendAll?]
      have hrest := ihxs (fun x' hx' => ih x' (List.mem_cons_of_mem _ hx')) (Nat.succ.inj hlen)
        fun y' hy' => hys y' (List.mem_cons_of_mem _ hy')
      refine (hrest.bind (by rfl) fun b' hb' =>
        ih x List.mem_cons_self hb' (hys y List.mem_cons_self)).congr ?_ ?_
      · intro v
        rw [or_comm]
        simp only [List.mem_cons, exists_eq_or_imp]
      · intro σ
        rw [and_comm, List.zip_cons_cons, List.forall_mem_cons]

section

variable (hD : D.Grounded) (hR : ∀ {f : Formula}, P f → f.Resolved D)

include hD hR

/-- What is bound may be replaced by what is compatible with it. -/
theorem compatible_iff_of_normal_eq {f g h : Formula} (hf : f.Resolved D) (hg : P g) (hh : P h)
    (heq : D.normal g = D.normal h) :
    D.compatible f g = .ok true ↔ D.compatible f h = .ok true := by
  rw [hD.compatible_iff hf (hR hg), hD.compatible_iff hf (hR hh), heq]

/-- **Binding a variable** keeps the solutions that are compatible with the formula. -/
theorem refines_bind? (hb : b.Regular P vars) (ref : Ref) {f : Formula} (hf : P f) :
    Refines D P vars b (fun v => v = ref) (fun σ => D.compatible (σ ref) f = .ok true)
      (b.bind? D ref f) := by
  rw [bind?]
  cases hget : b.get? ref with
  | none => exact .pure (.singleton (hb.push hget hf) fun σ _ => solved_push_iff hget)
  | some bound =>
    have hbound := hb.value hget
    have hvars : vars ref := hb.binds.mp (by rw [hget]; rfl)
    dsimp only
    rw [hD.compatible_eq_ok (hR hbound) (hR hf)]
    by_cases hn : D.normal bound = D.normal f
    · rw [decide_eq_true hn]
      refine .pure ((Represents.singleton hb fun σ _ => Iff.rfl).congr ?_ ?_)
      · intro v
        constructor
        · exact Or.inl
        · rintro (hv | rfl)
          · exact hv
          · exact hvars
      · intro σ hσ
        have hiff := compatible_iff_of_normal_eq hD hR (hσ ref) hbound hf hn
        exact ⟨fun hs => ⟨hs, hiff.mp (hs ref bound hget)⟩, And.left⟩
    · rw [decide_eq_false hn]
      refine .pure (.nil ?_)
      rintro σ hσ ⟨hs, hc⟩
      have h₁ := (hD.compatible_iff (hσ ref) (hR hbound)).mp (hs ref bound hget)
      have h₂ := (hD.compatible_iff (hσ ref) (hR hf)).mp hc
      exact hn (h₁.symm.trans h₂)

variable (hP : Hereditary P)

include hP

/-- **Matching a template with a target** keeps the solutions that match. -/
theorem refines_extend? {template target : Formula} (hb : b.Regular P vars) (htarget : P target) :
    Refines D P vars b (fun v => v ∈ template.variableRefs)
      (fun σ => template.Matches D σ target) (extend? D template target b) := by
  induction template using inductionOn generalizing target vars b with
  | symbol ref =>
    rw [extend?]
    split
    · next h =>
      subst h
      refine (refines_some hb).congr (by simp [variableRefs]) fun σ => ?_
      exact ⟨fun _ => .symbol ref, fun _ => trivial⟩
    · next h =>
      refine refines_none fun σ hm => ?_
      cases hm
      exact h rfl
  | var ref =>
    rw [extend?]
    refine (refines_bind? hD hR hb ref htarget).congr (by simp [variableRefs]) fun σ => ?_
    constructor
    · exact .var
    · intro hm
      cases hm with
      | var hc => exact hc
  | app f x ihf ihx =>
    cases target with
    | app g y =>
      rw [extend?]
      have hargument := ihx hb (hP.argument htarget)
      refine (hargument.bind (by rfl) fun b' hb' => ihf hb' (hP.function htarget)).congr ?_ ?_
      · intro v
        rw [variableRefs, List.mem_append, or_comm]
      · intro σ
        constructor
        · rintro ⟨hx, hf⟩
          exact .app hf hx
        · intro hm
          cases hm with
          | app hf hx => exact ⟨hx, hf⟩
    | symbol | var | definition =>
      refine refines_none fun σ hm => ?_
      cases hm
  | definition ref xs ih =>
    cases target with
    | definition other ys =>
      rw [extend?]
      split
      · next h =>
        obtain ⟨rfl, hlen⟩ := h
        have hinputs := refines_extendAll? (fun x hx _ _ _ => ih x hx) hlen
          (hP.input htarget) hb
        refine hinputs.congr (fun v => mem_variableRefs_definition.symm) fun σ => ?_
        constructor
        · exact .definition hlen
        · intro hm
          cases hm with
          | definition _ hp => exact hp
      · next h =>
        refine refines_none fun σ hm => ?_
        cases hm with
        | definition hlen _ => exact h ⟨rfl, hlen⟩
    | symbol | var | app =>
      refine refines_none fun σ hm => ?_
      cases hm

/-- **Matching from nothing** finds exactly the substitutions that match. -/
theorem yields_ofMatch? {template target : Formula} (htarget : P target) :
    Yields (ofMatch? D template target) fun r => Represents D P (fun v => v ∈ template.variableRefs)
      (fun σ => template.Matches D σ target) r.toList := by
  refine (refines_extend? hD hR hP (regular_empty P) htarget).mono fun r hr => hr.congr ?_ ?_
  · intro v
    rw [false_or]
  · intro σ _
    exact and_iff_right (solved_empty D σ)

end

/-! ## Joining bindings -/

theorem mem_entries_of_get? {ref : Ref} {g : Formula} (h : b.get? ref = some g) :
    (ref, g) ∈ b.entries := by
  obtain ⟨l₁, l₂, heq, -⟩ := List.lookup_eq_some_iff.mp h
  rw [heq]
  exact List.mem_append_right _ List.mem_cons_self

theorem Regular.get?_eq_some_iff (hb : b.Regular P vars) {ref : Ref} {g : Formula} :
    b.get? ref = some g ↔ (ref, g) ∈ b.entries :=
  ⟨mem_entries_of_get?, hb.entry (ref, g)⟩

variable {vars' : Ref → Prop} {left right : Bindings}

theorem Regular.union (hl : left.Regular P vars) (hr : right.Regular P vars') :
    (left.union right).Regular P fun v => vars v ∨ vars' v where
  entry := by
    intro e he
    rw [get?_union]
    rcases List.mem_append.mp he with he | he
    · obtain ⟨e', he', rfl⟩ := List.mem_map.mp he
      rw [hr.entry e' he']
      cases left.get? e'.1 <;> rfl
    · rw [hl.entry e (List.mem_filter.mp he).1, Option.some_or]
  value := by
    intro ref g hg
    rw [get?_union, Option.or_eq_some_iff] at hg
    rcases hg with hg | ⟨-, hg⟩
    · exact hl.value hg
    · exact hr.value hg
  binds := by
    intro ref
    rw [get?_union, Option.isSome_or, Bool.or_eq_true, hl.binds, hr.binds]

section

variable (hD : D.Grounded) (hR : ∀ {f : Formula}, P f → f.Resolved D)

include hD hR

/-- Two sets of bindings agree if what they bind a common variable to has one normal form. -/
theorem yields_agreesWith (hl : left.Regular P vars) {entries : List (Ref × Formula)}
    (h : ∀ e ∈ entries, P e.2) :
    Yields (left.agreesWith D entries) fun r => r = true ↔
      ∀ e ∈ entries, ∀ g, left.get? e.1 = some g → D.normal g = D.normal e.2 := by
  induction entries with
  | nil => exact .pure (by simp)
  | cons e entries ih =>
    have hrest := ih fun e' he' => h e' (List.mem_cons_of_mem _ he')
    rw [agreesWith]
    cases hget : left.get? e.1 with
    | none =>
      refine hrest.mono fun r hr => hr.trans ?_
      rw [List.forall_mem_cons, hget]
      simp
    | some bound =>
      dsimp only
      rw [hD.compatible_eq_ok (hR (hl.value hget)) (hR (h e List.mem_cons_self))]
      by_cases hn : D.normal bound = D.normal e.2
      · rw [decide_eq_true hn]
        refine hrest.mono fun r hr => hr.trans ?_
        rw [List.forall_mem_cons, hget]
        simp [hn]
      · rw [decide_eq_false hn]
        refine .pure ?_
        rw [List.forall_mem_cons, hget]
        simp [hn]

/-- If two sets of bindings agree, their union is solved by the common solutions. -/
theorem solved_union_iff (hl : left.Regular P vars) (hr : right.Regular P vars')
    (hagree : ∀ ref g h, left.get? ref = some g → right.get? ref = some h →
      D.normal g = D.normal h) {σ : Ref → Formula} (hσ : ∀ ref, (σ ref).Resolved D) :
    (left.union right).Solved D σ ↔ left.Solved D σ ∧ right.Solved D σ := by
  constructor
  · intro hs
    have hleft : left.Solved D σ := by
      intro ref g hg
      exact hs ref g (by rw [get?_union, hg, Option.some_or])
    refine ⟨hleft, fun ref h hh => ?_⟩
    cases hg : left.get? ref with
    | none => exact hs ref h (by rw [get?_union, hg, Option.none_or, hh])
    | some g =>
      have hn := hagree ref g h hg hh
      exact (compatible_iff_of_normal_eq hD hR (hσ ref) (hl.value hg) (hr.value hh) hn).mp
        (hleft ref g hg)
  · rintro ⟨hleft, hright⟩ ref g hg
    rw [get?_union, Option.or_eq_some_iff] at hg
    rcases hg with hg | ⟨-, hg⟩
    · exact hleft ref g hg
    · exact hright ref g hg

/-- A common solution makes two sets of bindings agree. -/
theorem normal_eq_of_solved (hl : left.Regular P vars) (hr : right.Regular P vars')
    {σ : Ref → Formula} (hσ : ∀ ref, (σ ref).Resolved D) (hleft : left.Solved D σ)
    (hright : right.Solved D σ) {ref : Ref} {g h : Formula} (hg : left.get? ref = some g)
    (hh : right.get? ref = some h) : D.normal g = D.normal h := by
  have h₁ := (hD.compatible_iff (hσ ref) (hR (hl.value hg))).mp (hleft ref g hg)
  have h₂ := (hD.compatible_iff (hσ ref) (hR (hr.value hh))).mp (hright ref h hh)
  exact h₁.symm.trans h₂

/-- **Joining two sets of bindings** gives their common solutions. -/
theorem yields_merge? (hl : left.Regular P vars) (hr : right.Regular P vars') :
    Yields (left.merge? D right) fun r => Represents D P (fun v => vars v ∨ vars' v)
      (fun σ => left.Solved D σ ∧ right.Solved D σ) r.toList := by
  have hentries : ∀ e ∈ right.entries, P e.2 := fun e he => hr.value (hr.entry e he)
  refine (yields_agreesWith hD hR hl hentries).bind fun agree hagree => .pure ?_
  cases agree with
  | true =>
    have h := hagree.mp rfl
    refine .singleton (hl.union hr) fun σ hσ => solved_union_iff hD hR hl hr ?_ hσ
    intro ref g h' hg hh
    exact h (ref, h') (hr.get?_eq_some_iff.mp hh) g hg
  | false =>
    refine .nil ?_
    rintro σ hσ ⟨hleft, hright⟩
    refine Bool.false_ne_true (hagree.mpr fun e he g hg => ?_)
    exact normal_eq_of_solved hD hR hl hr hσ hleft hright hg (hr.entry e he)

/-! ## Alternatives -/

theorem yields_mergeEach (hl : left.Regular P vars) {rights : List Bindings}
    (hr : ∀ b ∈ rights, b.Regular P vars') :
    Yields (mergeEach D left rights) (Represents D P (fun v => vars v ∨ vars' v)
      fun σ => left.Solved D σ ∧ ∃ b ∈ rights, b.Solved D σ) := by
  induction rights with
  | nil => exact .pure (.nil fun σ _ hc => by simp at hc)
  | cons right rights ih =>
    have hfirst := yields_merge? hD hR hl (hr right List.mem_cons_self)
    refine hfirst.bind fun joined hj => ?_
    refine (ih fun b hb => hr b (List.mem_cons_of_mem _ hb)).bind fun more hm => .pure ?_
    refine (hj.append hm).congr (fun _ => Iff.rfl) fun σ _ => ?_
    rw [← and_or_left]
    simp only [List.mem_cons, exists_eq_or_imp]

/-- **Joining alternatives** gives the solutions that both sides have. -/
theorem yields_mergeAll {lefts rights : List Bindings} {condition' : (Ref → Formula) → Prop}
    (hl : Represents D P vars condition lefts) (hr : Represents D P vars' condition' rights) :
    Yields (mergeAll D lefts rights) (Represents D P (fun v => vars v ∨ vars' v)
      fun σ => condition σ ∧ condition' σ) := by
  have hjoined : Yields (mergeAll D lefts rights) (Represents D P (fun v => vars v ∨ vars' v)
      fun σ => (∃ b ∈ lefts, b.Solved D σ) ∧ ∃ b ∈ rights, b.Solved D σ) := by
    have hregular := hl.regular
    clear hl
    induction lefts with
    | nil => exact .pure (.nil fun σ _ hc => by simp at hc)
    | cons left lefts ih =>
      refine (yields_mergeEach hD hR (hregular left List.mem_cons_self) hr.regular).bind
        fun joined hj => ?_
      refine (ih fun b hb => hregular b (List.mem_cons_of_mem _ hb)).bind fun more hm => .pure ?_
      refine (hj.append hm).congr (fun _ => Iff.rfl) fun σ _ => ?_
      rw [← or_and_right]
      simp only [List.mem_cons, exists_eq_or_imp]
  refine hjoined.mono fun _ h => h.congr (fun _ => Iff.rfl) fun σ hσ => ?_
  rw [hl.solutions σ hσ, hr.solutions σ hσ]

/-- **Matching a template with candidates** finds the substitutions that match one of them. -/
theorem yields_findAll (hP : Hereditary P) {template : Formula} {candidates : List Formula}
    (h : ∀ c ∈ candidates, P c) :
    Yields (findAll D template candidates) (Represents D P (fun v => v ∈ template.variableRefs)
      fun σ => ∃ c ∈ candidates, template.Matches D σ c) := by
  induction candidates with
  | nil => exact .pure (.nil fun σ _ hc => by simp at hc)
  | cons candidate candidates ih =>
    refine (yields_ofMatch? hD hR hP (h candidate List.mem_cons_self)).bind fun found hf => ?_
    refine (ih fun c hc => h c (List.mem_cons_of_mem _ hc)).bind fun more hm => .pure ?_
    refine (hf.append hm).congr (fun _ => Iff.rfl) fun σ _ => ?_
    simp only [List.mem_cons, exists_eq_or_imp]

end

end Bindings

/-! ## What a match says -/

namespace Formula

variable {D : Directory} {σ : Ref → Formula} {template target : Formula}

/-- **A template that matches becomes compatible with its target.** -/
theorem Matches.normal_eq (hD : D.Grounded) (h : template.Matches D σ target)
    (htarget : target.Resolved D) (htemplate : template.Resolved D)
    (hσ : ∀ ref, (σ ref).Resolved D) : D.normal (template.substitute σ) = D.normal target := by
  induction h with
  | symbol ref => rfl
  | @var ref g hc => exact (hD.compatible_iff (hσ ref) htarget).mp hc
  | @app f x g y _ _ ihf ihx =>
    cases htarget with
    | app hg hy =>
      cases htemplate with
      | app hf hx =>
        rw [substitute, hD.normal_app (hf.substitute hσ) (hx.substitute hσ), ihf hg hf, ihx hy hx,
          hD.normal_app hg hy]
  | @definition ref xs ys hlen hp ih =>
    cases htarget with
    | definition hd hys =>
      cases htemplate with
      | definition hd' hxs =>
        have hmap : (xs.map (Formula.substitute σ)).map D.normal = ys.map D.normal := by
          rw [List.map_map]
          refine List.forall₂_eq_eq_eq ▸ ?_
          rw [List.forall₂_map_left_iff, List.forall₂_map_right_iff, List.forall₂_iff_zip]
          refine ⟨hlen, fun {x y} hmem => ?_⟩
          obtain ⟨hx, hy⟩ := List.of_mem_zip hmem
          exact ih _ hmem (hys y hy) (hxs x hx)
        rw [substitute, substituteAll_eq_map]
        have hresolved : ∀ x ∈ xs.map (Formula.substitute σ), x.Resolved D := by
          intro x' hx'
          obtain ⟨x, hx, rfl⟩ := List.mem_map.mp hx'
          exact (hxs x hx).substitute hσ
        rw [hD.normal_definition (by rw [List.length_map]; exact hd') hresolved, hmap]
        rw [← hlen] at hd
        rw [hd'] at hd
        cases hd
        rw [hlen] at hd'
        rw [hD.normal_definition hd' hys]

end Formula

end Deduction
