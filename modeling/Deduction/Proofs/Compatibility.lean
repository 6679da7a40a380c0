import Deduction.Proofs.Evaluation
import Deduction.Proofs.Matching

/-!
# Compatible formulas under substitution

Formulas that are compatible differ only in what is still folded up.  Nothing that is done by
substitution should tell them apart, neither in the formula nor in what is put in, since the matcher
keeps one of several compatible formulas and drops the others.

Both follow from one equation.  Unfolding a formula after a substitution gives the unfolded formula
with the unfolded values put in (`Directory.Grounded.unfold_apply`), where each value is unfolded
once, however often its variable occurs.  It is here that the expansion of a definition may not
contain variables of its own: such a variable would be caught by the second substitution and not by
the first.

Substitutions are given as bindings, so that a variable may be left alone.  Two sets of bindings are
*alike* if they bind the same variables and what they bind is compatible.

* `Bindings.unfold`, `Bindings.normal`: bindings with all formulas unfolded.
* `Bindings.Alike`: bindings that differ only by unfolding.
* `Directory.compatible_apply_of_alike`: compatibility is a congruence for substitution.
-/

namespace Deduction

open Formula

namespace Bindings

variable {D : Directory} {b c : Bindings} {ref : Ref} {g : Formula}

/-- The definitions of every bound formula resolve. -/
def Resolved (D : Directory) (b : Bindings) : Prop := ∀ e ∈ b.entries, e.2.Resolved D

/-- Unfolding every bound formula. -/
def unfold (D : Directory) (b : Bindings) : Except ContractError Bindings := do
  let entries ← b.entries.mapM fun e => do
    let g ← D.unfold e.2
    return (e.1, g)
  return ⟨entries⟩

/-- The bindings with the normal form of every bound formula. -/
def normal (D : Directory) (b : Bindings) : Bindings :=
  ⟨b.entries.map fun e => (e.1, D.normal e.2)⟩

/-- Bindings of the same variables to formulas that are compatible. -/
structure Alike (D : Directory) (b c : Bindings) : Prop where
  bound : ∀ ref, (b.get? ref).isSome = (c.get? ref).isSome
  compatible : ∀ {ref : Ref} {g h : Formula}, b.get? ref = some g → c.get? ref = some h →
    D.compatible g h = .ok true

/-! ## What a variable is replaced by -/

theorem Resolved.get? (hb : b.Resolved D) (h : b.get? ref = some g) : g.Resolved D :=
  hb _ (mem_entries_of_get? h)

theorem Resolved.image (hb : b.Resolved D) (ref : Ref) : (b.image ref).Resolved D := by
  rw [Bindings.image]
  cases h : b.get? ref with
  | none => exact .var ref
  | some g => exact hb.get? h

@[simp] theorem get?_normal (D : Directory) (b : Bindings) (ref : Ref) :
    (b.normal D).get? ref = (b.get? ref).map D.normal :=
  lookup_map_value (fun _ => D.normal) b.entries ref

/-- A variable that is not bound is its own normal form, so it need not be told apart. -/
theorem image_normal (D : Directory) (b : Bindings) (ref : Ref) :
    (b.normal D).image ref = D.normal (b.image ref) := by
  rw [Bindings.image, Bindings.image, get?_normal]
  cases b.get? ref <;> rfl

/-- Bindings that are alike replace a variable by formulas with one normal form. -/
theorem Alike.normal_image_eq (hD : D.Grounded) (hb : b.Resolved D) (hc : c.Resolved D)
    (h : b.Alike D c) (ref : Ref) : D.normal (b.image ref) = D.normal (c.image ref) := by
  have hbound := h.bound ref
  cases hg : b.get? ref with
  | none =>
    rw [hg, Option.isSome_none, eq_comm, Option.isSome_eq_false_iff, Option.isNone_iff_eq_none]
      at hbound
    rw [Bindings.image, Bindings.image, hg, hbound]
  | some g =>
    rw [hg, Option.isSome_some, eq_comm] at hbound
    obtain ⟨g', hg'⟩ := Option.isSome_iff_exists.mp hbound
    rw [image_of_get? hg, image_of_get? hg']
    exact (hD.compatible_iff (hb.get? hg) (hc.get? hg')).mp (h.compatible hg hg')

end Bindings

namespace Directory

variable {D : Directory} {b c : Bindings} {f g : Formula}

/-! ## Unfolding after a substitution -/

theorem Grounded.unfold_bindings (hD : D.Grounded) (hb : b.Resolved D) :
    b.unfold D = .ok (b.normal D) := by
  have hentries : ∀ entries : List (Ref × Formula), (∀ e ∈ entries, e.2.Resolved D) →
      (entries.mapM fun e => do
        let g ← D.unfold e.2
        return (e.1, g)) = .ok (entries.map fun e => (e.1, D.normal e.2)) := by
    intro entries h
    induction entries with
    | nil => rfl
    | cons e entries ih =>
      rw [List.forall_mem_cons] at h
      rw [List.mapM_cons, hD.unfold_eq_ok h.1, ih h.2]
      rfl
  rw [Bindings.unfold, hentries b.entries hb]
  rfl

/-- **Unfolding commutes with substitution**, if what is put in is unfolded too. -/
theorem Grounded.unfold_apply (hD : D.Grounded) (hf : f.Resolved D) (hb : b.Resolved D) :
    D.unfold (b.apply f) = .ok ((b.normal D).apply (D.normal f)) := by
  have himage : (b.normal D).image = fun ref => D.normal (b.image ref) := funext (b.image_normal D)
  rw [Bindings.apply, hD.unfold_eq_ok (hf.substitute hb.image), hD.normal_substitute hf hb.image,
    Bindings.apply, himage]

/-- Compatible formulas stay compatible when compatible formulas are put in. -/
theorem Grounded.compatible_apply (hD : D.Grounded) (hf : f.Resolved D) (hg : g.Resolved D)
    (hb : b.Resolved D) (hc : c.Resolved D) (hfg : D.compatible f g = .ok true)
    (hbc : b.Alike D c) : D.compatible (b.apply f) (c.apply g) = .ok true := by
  rw [Bindings.apply, Bindings.apply, hD.compatible_iff (hf.substitute hb.image)
    (hg.substitute hc.image)]
  calc D.normal (f.substitute b.image)
      = (D.normal f).substitute fun ref => D.normal (b.image ref) := hD.normal_substitute hf hb.image
    _ = (D.normal g).substitute fun ref => D.normal (c.image ref) := by
        rw [(hD.compatible_iff hf hg).mp hfg, funext (hbc.normal_image_eq hD hb hc)]
    _ = D.normal (g.substitute c.image) := (hD.normal_substitute hg hc.image).symm

/-- **Compatibility is a congruence for substitution.**  If every expansion is accepted, and for all
formulas and bindings whose definitions resolve: unfolding after a substitution gives the unfolded
formula with the unfolded values put in, and if compatible formulas are bound to the same variables,
compatible formulas stay compatible. -/
theorem compatible_apply_of_alike (hD : D.ExpansionsAccepted) :
    (∀ (f : Formula) (b : Bindings), f.Resolved D → b.Resolved D →
      ∃ g c, D.unfold f = .ok g ∧ b.unfold D = .ok c ∧ D.unfold (b.apply f) = .ok (c.apply g)) ∧
    ∀ (f g : Formula) (b c : Bindings), f.Resolved D → g.Resolved D → b.Resolved D → c.Resolved D →
      D.compatible f g = .ok true → b.Alike D c →
      D.compatible (b.apply f) (c.apply g) = .ok true := by
  have hgrounded := hD.grounded
  constructor
  · intro f b hf hb
    exact ⟨D.normal f, b.normal D, hgrounded.unfold_eq_ok hf, hgrounded.unfold_bindings hb,
      hgrounded.unfold_apply hf hb⟩
  · intro f g b c hf hg hb hc hfg hbc
    exact hgrounded.compatible_apply hf hg hb hc hfg hbc

end Directory

namespace Sample

/-- Two variables bound to definitions. -/
def folded : Bindings := ⟨[(0, .definition 1 [.var 1, .var 0]), (1, twice (.var 0))]⟩

/-- The same variables in another order, with one level of definitions unfolded. -/
def opened : Bindings := ⟨[(1, function (function (.var 0))), (0, twice (twice (.var 0)))]⟩

theorem alike_folded_opened : folded.Alike layered opened := by
  have hget : ∀ ref, folded.get? ref = none ∧ opened.get? ref = none ∨ ref = 0 ∨ ref = 1 := by
    intro ref
    by_cases h0 : ref = 0
    · exact Or.inr (Or.inl h0)
    by_cases h1 : ref = 1
    · exact Or.inr (Or.inr h1)
    · have hb0 : (ref == 0) = false := beq_eq_false_iff_ne.mpr h0
      have hb1 : (ref == 1) = false := beq_eq_false_iff_ne.mpr h1
      simp [Bindings.get?, folded, opened, List.lookup_cons, hb0, hb1]
  constructor
  · intro ref
    rcases hget ref with ⟨hb, hc⟩ | rfl | rfl
    · rw [hb, hc]
    · rfl
    · rfl
  · intro ref g h hg hh
    rcases hget ref with ⟨hb, -⟩ | rfl | rfl
    · rw [hb] at hg
      cases hg
    · cases hg
      cases hh
      rfl
    · cases hg
      cases hh
      rfl

/-- A relation between two variables, one of them under a definition, with either set of bindings put
in. -/
theorem compatible_apply_folded_opened :
    layered.ExpansionsAccepted ∧ folded.Resolved layered ∧ opened.Resolved layered ∧
      folded.Alike layered opened ∧
      (∃ g c, layered.unfold (twice (.var 0)) = .ok g ∧ folded.unfold layered = .ok c ∧
        layered.unfold (folded.apply (twice (.var 0))) = .ok (c.apply g)) ∧
      layered.compatible (folded.apply (relation.apply [twice (.var 0), .var 1]))
        (opened.apply (relation.apply [function (function (.var 0)), .var 1])) = .ok true := by
  have hfolded : folded.Resolved layered := by
    rw [Bindings.Resolved, folded, List.forall_mem_cons, List.forall_mem_singleton]
    exact ⟨(Directory.unfolds_of_unfold rfl).resolved, (Directory.unfolds_of_unfold rfl).resolved⟩
  have hopened : opened.Resolved layered := by
    rw [Bindings.Resolved, opened, List.forall_mem_cons, List.forall_mem_singleton]
    exact ⟨(Directory.unfolds_of_unfold rfl).resolved, (Directory.unfolds_of_unfold rfl).resolved⟩
  obtain ⟨hunfold, hcongruence⟩ := Directory.compatible_apply_of_alike expansionsAccepted_layered
  refine ⟨expansionsAccepted_layered, hfolded, hopened, alike_folded_opened,
    hunfold _ _ (Directory.unfolds_of_unfold rfl).resolved hfolded, ?_⟩
  exact hcongruence _ _ _ _ (Directory.unfolds_of_unfold rfl).resolved
    (Directory.unfolds_of_unfold rfl).resolved hfolded hopened rfl alike_folded_opened

end Sample

end Deduction
