import Deduction.Formula.Basic
import Mathlib.Data.List.Forall2

/-!
# Laws of substitution

Substitution is simultaneous, so putting in one substitution after another is putting in their
composition, and only the variables that occur matter.  A definition's body is filled in by the
substitution `inputValues`, which is the one place where positions of a list meet variables.

Many properties of formulas pass to the parts: being built from known definitions, or having a
signature.  `Hereditary` names this, so that what a matcher cuts out of a formula inherits such a
property without a second look at how it was cut.

* `Formula.substitute_substitute`, `Formula.substitute_congr`: composition and locality.
* `Formula.substitute_inputValues_map`: filling in a closed body commutes with substitution.
* `Formula.Hereditary`: properties that pass to the parts.
-/

namespace Deduction

/-! ## Lists in step -/

section

variable {α β : Type} {R S : α → β → Prop}

/-- A relation between lists in step follows from one that holds for the entries. -/
theorem forall₂_imp_of_mem {xs : List α} {ys : List β} (h : List.Forall₂ R xs ys)
    (hRS : ∀ x ∈ xs, ∀ y, R x y → S x y) : List.Forall₂ S xs ys :=
  ((List.forall₂_and_left xs ys).mpr ⟨hRS, h⟩).imp fun _ y hxy => hxy.1 y hxy.2

theorem exists_forall₂_of_forall_mem {xs : List α} (h : ∀ x ∈ xs, ∃ y, R x y) :
    ∃ ys, List.Forall₂ R xs ys := by
  induction xs with
  | nil => exact ⟨[], .nil⟩
  | cons x xs ih =>
    obtain ⟨y, hy⟩ := h x List.mem_cons_self
    obtain ⟨ys, hys⟩ := ih fun x' hx' => h x' (List.mem_cons_of_mem _ hx')
    exact ⟨y :: ys, .cons hy hys⟩

theorem exists_mem_of_forall₂_of_mem {xs : List α} {ys : List β} (h : List.Forall₂ R xs ys)
    {y : β} (hy : y ∈ ys) : ∃ x ∈ xs, R x y := by
  induction h with
  | nil => cases hy
  | cons hxy _ ih =>
    rcases List.mem_cons.mp hy with rfl | hy
    · exact ⟨_, List.mem_cons_self, hxy⟩
    · obtain ⟨x, hx, hR⟩ := ih hy
      exact ⟨x, List.mem_cons_of_mem _ hx, hR⟩

/-- Every entry of a list stands in step with one of a list of the same length. -/
theorem exists_mem_zip_of_length {xs : List α} {ys : List β} (h : ys.length = xs.length) {y : β}
    (hy : y ∈ ys) : ∃ x, (x, y) ∈ xs.zip ys := by
  rw [← List.map_snd_zip (Nat.le_of_eq h)] at hy
  obtain ⟨⟨x, y'⟩, hp, rfl⟩ := List.mem_map.mp hy
  exact ⟨x, hp⟩

theorem mem_zip_iff_getElem? {xs : List α} {ys : List β} {x : α} {y : β} :
    (x, y) ∈ xs.zip ys ↔ ∃ n : Nat, xs[n]? = some x ∧ ys[n]? = some y := by
  simp only [List.mem_iff_getElem?, List.getElem?_zip_eq_some]

theorem mem_zip_comm {xs : List α} {ys : List β} {x : α} {y : β} :
    (x, y) ∈ xs.zip ys ↔ (y, x) ∈ ys.zip xs := by
  rw [mem_zip_iff_getElem?, mem_zip_iff_getElem?]
  exact exists_congr fun _ => and_comm

end

/-! ## Substitution -/

namespace Formula

/-- A property that passes from a formula to the formulas it is made of. -/
structure Hereditary (P : Formula → Prop) : Prop where
  function : ∀ {f x : Formula}, P (.app f x) → P f
  argument : ∀ {f x : Formula}, P (.app f x) → P x
  input : ∀ {ref : Ref} {inputs : List Formula}, P (.definition ref inputs) → ∀ x ∈ inputs, P x

/-- Putting in one substitution after another is putting in their composition. -/
theorem substitute_substitute (σ τ : Ref → Formula) (f : Formula) :
    (f.substitute σ).substitute τ = f.substitute fun ref => (σ ref).substitute τ := by
  induction f using inductionOn with
  | symbol | var => rfl
  | app f x hf hx => rw [substitute, substitute, substitute, hf, hx]
  | definition ref inputs h =>
    simp only [substitute, substituteAll_eq_map, List.map_map]
    exact congrArg (Formula.definition ref) (List.map_congr_left h)

/-- Only what is put in for the variables of a formula matters. -/
theorem substitute_congr {σ τ : Ref → Formula} {f : Formula}
    (h : ∀ ref ∈ f.variableRefs, σ ref = τ ref) : f.substitute σ = f.substitute τ := by
  induction f using inductionOn with
  | symbol => rfl
  | var ref => exact h ref (by simp [variableRefs])
  | app f x hf hx =>
    rw [substitute, substitute]
    rw [hf fun ref hr => h ref (by simp [variableRefs, hr])]
    rw [hx fun ref hr => h ref (by simp [variableRefs, hr])]
  | definition ref inputs ih =>
    simp only [substitute, substituteAll_eq_map]
    have hmap : inputs.map (substitute σ) = inputs.map (substitute τ) := by
      refine List.map_congr_left fun x hx => ih x hx fun r hr => h r ?_
      rw [variableRefs, variableRefsAll_eq_flatMap]
      exact List.mem_flatMap.mpr ⟨x, hx, hr⟩
    rw [hmap]

theorem mem_variableRefs_definition {ref v : Ref} {inputs : List Formula} :
    v ∈ (definition ref inputs).variableRefs ↔ ∃ x ∈ inputs, v ∈ x.variableRefs := by
  rw [variableRefs, variableRefsAll_eq_flatMap, List.mem_flatMap]

theorem mem_definitionRefs_definition {ref r : Ref} {inputs : List Formula} :
    r ∈ (definition ref inputs).definitionRefs ↔
      r = ref ∨ ∃ x ∈ inputs, r ∈ x.definitionRefs := by
  rw [definitionRefs, definitionRefsAll_eq_flatMap, List.mem_cons, List.mem_flatMap]

/-! ## Filling in a body -/

theorem itemAt?_map {α β : Type} (g : α → β) (items : List α) (ref : Ref) :
    itemAt? (items.map g) ref = (itemAt? items ref).map g := by
  cases ref with
  | ofNat n => exact List.getElem?_map ..
  | negSucc n => rfl

/-- A position of a list is a position of every list of the same length. -/
theorem itemAt?_isSome_of_length {α β : Type} {items : List α} {others : List β}
    (h : items.length = others.length) (ref : Ref) :
    (itemAt? items ref).isSome = (itemAt? others ref).isSome := by
  cases ref with
  | ofNat n =>
    have hiff : items[n]?.isSome ↔ others[n]?.isSome := by
      rw [isSome_getElem?, isSome_getElem?, h]
    exact Bool.eq_iff_iff.mpr hiff
  | negSucc n => rfl

theorem inputValues_of_itemAt? {inputs : List Formula} {ref : Ref} {x : Formula}
    (h : itemAt? inputs ref = some x) : inputValues inputs ref = x := by
  rw [inputValues, h, Option.getD_some]

/-- What is put in for a variable is one of the inputs or the variable itself. -/
theorem inputValues_cases (inputs : List Formula) (ref : Ref) :
    inputValues inputs ref ∈ inputs ∨ inputValues inputs ref = .var ref := by
  rw [inputValues]
  cases h : itemAt? inputs ref with
  | none => exact Or.inr rfl
  | some x => exact Or.inl (mem_of_itemAt? h)

/-- Filling in a body whose variables are all formal inputs commutes with substitution in the
inputs. -/
theorem substitute_inputValues_map (σ : Ref → Formula) {body : Formula} {inputs : List Formula}
    (h : ∀ ref ∈ body.variableRefs, (itemAt? inputs ref).isSome) :
    body.substitute (inputValues (inputs.map (substitute σ))) =
      (body.substitute (inputValues inputs)).substitute σ := by
  rw [substitute_substitute]
  refine substitute_congr fun ref hr => ?_
  obtain ⟨x, hx⟩ := Option.isSome_iff_exists.mp (h ref hr)
  rw [inputValues_of_itemAt? hx]
  exact inputValues_of_itemAt? (by rw [itemAt?_map, hx, Option.map_some])

end Formula

end Deduction
