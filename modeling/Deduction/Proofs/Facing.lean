import Deduction.Proofs.Citation
import Deduction.Proofs.Typing.Faults

/-!
# What a match binds

That the matcher succeeds exactly if some substitution matches is known from its solutions.  Here it
is shown which of the many substitutions that match is returned.  A part of the target *faces* a
variable if it stands where the variable stands in the template.  The matcher never builds a
formula: it binds a variable only once, and only to a part that faces it.

All that matching does to bindings is to push such a pair, so a property that is kept by this is
kept by matching (`Bindings.extend?_induct`).  That every variable is bound once, and where the
bound formulas come from, are two such properties.

* `Formula.Faces`: a part of the target and a variable of the template at one position.
* `Bindings.Distinct`: every variable is bound once.
* `Bindings.extend?_induct`: what pushing keeps, matching keeps.
* `Directory.ofMatch?_exact`: when a match is found, and what it is.
-/

namespace Deduction

/-! ## Parts that face a variable -/

namespace Formula

variable {f g x y part : Formula} {v : Ref}

/-- The part of the target stands where the template has the variable. -/
def Faces (template target : Formula) (v : Ref) (part : Formula) : Prop :=
  ∃ p, (p, .var v) ∈ template.nodes ∧ (p, part) ∈ target.nodes

theorem faces_var (v : Ref) (target : Formula) : (var v).Faces target v target :=
  ⟨[], root_mem_nodes _, root_mem_nodes _⟩

theorem Faces.function (h : f.Faces g v part) : (app f x).Faces (app g y) v part := by
  obtain ⟨p, hvar, hpart⟩ := h
  exact ⟨.function :: p, mem_nodes_app_iff.mpr (Or.inr (Or.inl ⟨p, rfl, hvar⟩)),
    mem_nodes_app_iff.mpr (Or.inr (Or.inl ⟨p, rfl, hpart⟩))⟩

theorem Faces.argument (h : x.Faces y v part) : (app f x).Faces (app g y) v part := by
  obtain ⟨p, hvar, hpart⟩ := h
  exact ⟨.argument :: p, mem_nodes_app_iff.mpr (Or.inr (Or.inr ⟨p, rfl, hvar⟩)),
    mem_nodes_app_iff.mpr (Or.inr (Or.inr ⟨p, rfl, hpart⟩))⟩

theorem Faces.input {ref other : Ref} {xs ys : List Formula} (hxy : (x, y) ∈ xs.zip ys)
    (h : x.Faces y v part) : (definition ref xs).Faces (definition other ys) v part := by
  obtain ⟨p, hvar, hpart⟩ := h
  obtain ⟨n, hx, hy⟩ := mem_zip_iff_getElem?.mp hxy
  exact ⟨.input n :: p, mem_nodes_definition_iff.mpr (Or.inr ⟨n, x, p, hx, rfl, hvar⟩),
    mem_nodes_definition_iff.mpr (Or.inr ⟨n, y, p, hy, rfl, hpart⟩)⟩

end Formula

/-! ## Bindings that are pushed -/

namespace Bindings

open Formula

variable {D : Directory} {b c : Bindings} {template target : Formula}

/-- Every variable is bound once. -/
def Distinct (b : Bindings) : Prop := (b.entries.map Prod.fst).Nodup

theorem distinct_empty : ({} : Bindings).Distinct := List.nodup_nil

theorem Distinct.get?_eq_some_iff (hb : b.Distinct) {ref : Ref} {g : Formula} :
    b.get? ref = some g ↔ (ref, g) ∈ b.entries :=
  lookup_eq_some_iff_mem hb

theorem Distinct.push (hb : b.Distinct) {ref : Ref} (h : b.get? ref = none) (f : Formula) :
    (b.push ref f).Distinct := by
  have hnew : ref ∉ b.entries.map Prod.fst := by
    intro hmem
    obtain ⟨⟨_, g⟩, he, rfl⟩ := List.mem_map.mp hmem
    rw [hb.get?_eq_some_iff.mpr he] at h
    cases h
  rw [Distinct, Bindings.push, List.map_append, List.map_singleton, ← List.concat_eq_append]
  exact hb.concat hnew

/-- Binding a variable pushes it, or finds that it is bound already. -/
theorem bind?_cases {ref : Ref} {f : Formula} (h : b.bind? D ref f = .ok (some c)) :
    c = b ∨ b.get? ref = none ∧ c = b.push ref f := by
  rw [bind?] at h
  cases hget : b.get? ref with
  | none =>
    rw [hget] at h
    cases h
    exact Or.inr ⟨rfl, rfl⟩
  | some bound =>
    rw [hget] at h
    obtain ⟨fits, -, h⟩ := bind_eq_ok.mp h
    cases fits with
    | false => cases h
    | true =>
      cases h
      exact Or.inl rfl

/-- Matching an application matches the argument and then the function. -/
theorem extend?_app_eq_some_iff {f x g y : Formula} :
    extend? D (.app f x) (.app g y) b = .ok (some c) ↔
      ∃ b', extend? D x y b = .ok (some b') ∧ extend? D f g b' = .ok (some c) := by
  rw [extend?, bind_eq_ok]
  constructor
  · rintro ⟨r, hr, h⟩
    cases r with
    | none => cases h
    | some b' => exact ⟨b', hr, h⟩
  · rintro ⟨b', hx, hf⟩
    exact ⟨some b', hx, hf⟩

theorem extendAll?_cons_eq_some_iff {x y : Formula} {xs ys : List Formula} :
    extendAll? D (x :: xs) (y :: ys) b = .ok (some c) ↔
      ∃ b', extendAll? D xs ys b = .ok (some b') ∧ extend? D x y b' = .ok (some c) := by
  rw [extendAll?, bind_eq_ok]
  constructor
  · rintro ⟨r, hr, h⟩
    cases r with
    | none => cases h
    | some b' => exact ⟨b', hr, h⟩
  · rintro ⟨b', hxs, hx⟩
    exact ⟨some b', hxs, hx⟩

/-- What matching each input keeps is kept by matching all of them. -/
theorem extendAll?_induct {motive : Bindings → Prop} {xs ys : List Formula}
    (hinputs : ∀ p ∈ xs.zip ys, ∀ b c, motive b → extend? D p.1 p.2 b = .ok (some c) → motive c)
    (hb : motive b) (h : extendAll? D xs ys b = .ok (some c)) : motive c := by
  induction xs generalizing ys c with
  | nil =>
    cases ys with
    | nil =>
      rw [extendAll?] at h
      cases h
      exact hb
    | cons y ys => cases h
  | cons x xs ih =>
    cases ys with
    | nil => cases h
    | cons y ys =>
      rw [List.zip_cons_cons, List.forall_mem_cons] at hinputs
      obtain ⟨b', hxs, hx⟩ := extendAll?_cons_eq_some_iff.mp h
      exact hinputs.1 b' c (ih hinputs.2 hxs) hx

/-- **What is kept by pushing a part that faces a variable is kept by matching.** -/
theorem extend?_induct {motive : Bindings → Prop}
    (hpush : ∀ b v part, motive b → b.get? v = none → template.Faces target v part →
      motive (b.push v part))
    (hb : motive b) (h : extend? D template target b = .ok (some c)) : motive c := by
  induction template using inductionOn generalizing target b c with
  | symbol ref =>
    rw [extend?, Except.ok.injEq, Option.ite_none_right_eq_some] at h
    cases h.2
    exact hb
  | var ref =>
    rw [extend?] at h
    rcases bind?_cases h with rfl | ⟨hget, rfl⟩
    · exact hb
    · exact hpush b ref target hb hget (faces_var ref target)
  | app f x ihf ihx =>
    cases target with
    | app g y =>
      obtain ⟨b', hx, hf⟩ := extend?_app_eq_some_iff.mp h
      have hb' : motive b' :=
        ihx (fun b v part hm hget hfaces => hpush b v part hm hget hfaces.argument) hb hx
      exact ihf (fun b v part hm hget hfaces => hpush b v part hm hget hfaces.function) hb' hf
    | symbol | var | definition => cases h
  | definition ref xs ih =>
    cases target with
    | definition other ys =>
      rw [extend?] at h
      split at h
      · refine extendAll?_induct (fun p hp b c hb h => ?_) hb h
        exact ih p.1 (List.of_mem_zip hp).1
          (fun b v part hm hget hfaces => hpush b v part hm hget (hfaces.input hp)) hb h
      · cases h
    | symbol | var | app => cases h

theorem distinct_of_ofMatch? (h : ofMatch? D template target = .ok (some b)) : b.Distinct :=
  extend?_induct (fun _ _ part hb hget _ => hb.push hget part) distinct_empty h

/-- **A bound formula is a part of the target that faces its variable.** -/
theorem faces_of_ofMatch? (h : ofMatch? D template target = .ok (some b)) :
    ∀ v part, b.get? v = some part → template.Faces target v part := by
  refine extend?_induct
    (motive := fun b => ∀ v part, b.get? v = some part → template.Faces target v part) ?_ ?_ h
  · intro b v part hb _ hpart v' part' hget
    rw [get?_push, Option.or_eq_some_iff] at hget
    rcases hget with hget | ⟨-, hget⟩
    · exact hb v' part' hget
    · obtain ⟨rfl, rfl⟩ : v' = v ∧ part = part' := by simpa using hget
      exact hpart
  · intro v part hget
    cases hget

end Bindings

/-! ## Matching one formula -/

namespace Directory

open Bindings

variable {D : Directory} {template target : Formula}

/-- **Matching is exact.**  If every expansion is accepted, and for a template and a target whose
definitions resolve, matching succeeds exactly if some substitution matches.  What is found binds
the variables of the template and no others, each once and to a part of the target that faces it,
and the template becomes compatible with the target. -/
theorem ofMatch?_exact (hD : D.ExpansionsAccepted) (htemplate : template.Resolved D)
    (htarget : target.Resolved D) :
    ∃ r, ofMatch? D template target = .ok r ∧ (r.isSome ↔ ∃ σ, template.Matches D σ target) ∧
      ∀ b, r = some b → b.Distinct ∧ (∀ v, (b.get? v).isSome ↔ v ∈ template.variableRefs) ∧
        (∀ v part, b.get? v = some part → template.Faces target v part) ∧
        D.compatible (b.apply template) target = .ok true := by
  have hgrounded := hD.grounded
  have hyields : Yields (ofMatch? D template target) _ :=
    yields_ofMatch? hgrounded (fun h => h) (Formula.hereditary_resolved D) htarget
  obtain ⟨r, hr, hrepresents⟩ := hyields
  refine ⟨r, hr, ?_, ?_⟩
  · have hnone := hrepresents.eq_nil_iff fun h => h
    rw [Formula.exists_matches_iff htarget, Option.toList_eq_nil_iff] at hnone
    rw [← not_iff_not, ← hnone, Option.not_isSome_iff_eq_none]
  · rintro b rfl
    have hregular := hrepresents.regular b List.mem_cons_self
    have himage := hregular.resolved_image fun h => h
    have hmatches : template.Matches D b.image target :=
      (hrepresents.solutions b.image himage).mp ⟨b, List.mem_cons_self, b.solved_image D⟩
    refine ⟨distinct_of_ofMatch? hr, fun v => hregular.binds, faces_of_ofMatch? hr, ?_⟩
    rw [Bindings.apply, hgrounded.compatible_iff (htemplate.substitute himage) htarget]
    exact hmatches.normal_eq hgrounded htarget htemplate himage

end Directory

namespace Sample

/-- A variable beside the function applied to it twice, and once more inside an input. -/
def doubled : Formula := relation.apply [.var 5, .definition 1 [.var 7, twice (.var 5)]]

/-- What faces the variable is folded up in one place and not in the other. -/
def facing : Formula :=
  relation.apply [function (function (.var 1)), .definition 1 [.var 0, twice (twice (.var 1))]]

/-- Of the two formulas that face the variable, the one on the right is bound. -/
theorem ofMatch?_doubled :
    layered.ExpansionsAccepted ∧ doubled.Resolved layered ∧ facing.Resolved layered ∧
      (∃ σ, doubled.Matches layered σ facing) ∧
      ∃ b, Bindings.ofMatch? layered doubled facing = .ok (some b) ∧ b.Distinct ∧
        (∀ v, (b.get? v).isSome ↔ v ∈ [5, 7, 5]) ∧ b.get? 5 = some (twice (.var 1)) ∧
        doubled.Faces facing 5 (twice (.var 1)) ∧
        layered.compatible (b.apply doubled) facing = .ok true := by
  have hdoubled : doubled.Resolved layered := (Directory.unfolds_of_unfold rfl).resolved
  have hfacing : facing.Resolved layered := (Directory.unfolds_of_unfold rfl).resolved
  obtain ⟨r, hr, hmatches, hfound⟩ :=
    Directory.ofMatch?_exact expansionsAccepted_layered hdoubled hfacing
  cases hr
  obtain ⟨hdistinct, hbinds, hfaces, hcompatible⟩ := hfound _ rfl
  exact ⟨expansionsAccepted_layered, hdoubled, hfacing, hmatches.mp rfl, _, rfl, hdistinct, hbinds,
    rfl, hfaces 5 _ rfl, hcompatible⟩

end Sample

end Deduction
