import Deduction.Proofs.Registry

/-!
# Every formula has one spine or none

The registry and the search take formulas apart into a head and its inputs, change the inputs and
put the formula together again.  That is safe only if the two are inverse to each other, whatever
the number of inputs: then a head with inputs is no less than the formula, and two relations are
equal only if their heads and their sides are.

Which formulas have a spine at all is decided by the root, the part that is left when all arguments
are taken off.  `Formula.unwind` takes them off from the outside, where the last argument comes
first, and keeps them in front of the ones that it has.  What does not change on the way is the
formula that the arguments make with what is left (`Formula.foldl_app_unwind`).  A root that is a
symbol is a head.  A definition is a head only if nothing is applied to it, since its inputs are its
own.

* `Formula.unwind`, `Formula.spine?_eq_unwind`: a spine is read off the root and the arguments.
* `Formula.Headless`, `Formula.spine?_eq_none_iff`: the formulas that have no spine.
* `Formula.spine?_inverse`: all of it together.
-/

namespace Deduction

namespace Formula

variable {f : Formula}

/-! ## The root and the arguments -/

/-- The part of a formula that is no application, with the arguments it is applied to in order.
Those in `taken` have been taken off before. -/
def unwind (taken : List Formula) : Formula → Formula × List Formula
  | .app f x => unwind (x :: taken) f
  | root => (root, taken)

/-- Taking arguments off does not change what they make with the rest. -/
theorem foldl_app_unwind (taken : List Formula) (f : Formula) :
    (unwind taken f).2.foldl .app (unwind taken f).1 = taken.foldl .app f := by
  induction f using inductionOn generalizing taken with
  | app g x hg _ => exact hg (x :: taken)
  | symbol | var | definition => rfl

/-- The root is never an application. -/
theorem root_unwind_ne_app (taken : List Formula) (f g x : Formula) :
    (unwind taken f).1 ≠ .app g x := by
  induction f using inductionOn generalizing taken with
  | app h y hh _ => exact hh (y :: taken)
  | symbol | var | definition => exact Formula.noConfusion

/-- The head and the inputs that a root has with its arguments. -/
def spineOf? : Formula × List Formula → Option (Head × List Formula)
  | (.symbol ref, arguments) => some (.symbol ref, arguments)
  | (.definition ref inputs, []) => some (.definition ref, inputs)
  | _ => none

/-! ## Formulas without a spine -/

/-- A variable applied to any number of arguments, or a definition with all of its inputs applied to
something more. -/
inductive Headless : Formula → Prop
  | var (ref : Ref) (arguments : List Formula) : Headless (arguments.foldl .app (.var ref))
  | definition (ref : Ref) (inputs : List Formula) (x : Formula) (arguments : List Formula) :
      Headless (arguments.foldl .app (.app (.definition ref inputs) x))

/-- A formula without a symbol at its root has no spine once something is applied to it. -/
theorem spine?_foldl_app_eq_none {x : Formula} (xs : List Formula) (h : f.symbolSpine? = none) :
    (xs.foldl app (app f x)).spine? = none := by
  have happ : (app f x).symbolSpine? = none := by rw [symbolSpine?, h, Option.map_none]
  induction xs generalizing f x with
  | nil => simp [spine?, happ]
  | cons y xs ih => exact ih happ (by rw [symbolSpine?, happ, Option.map_none])

theorem Headless.spine?_eq_none (h : f.Headless) : f.spine? = none := by
  cases h with
  | definition ref inputs x arguments => exact spine?_foldl_app_eq_none arguments rfl
  | var ref arguments =>
    cases arguments with
    | nil => rfl
    | cons x xs => exact spine?_foldl_app_eq_none xs rfl

/-- **A formula has a spine or no head.**  The root and the arguments decide which. -/
theorem spineOf?_unwind_cases (f : Formula) :
    (∃ head inputs, spineOf? (unwind [] f) = some (head, inputs) ∧ head.apply inputs = f) ∨
      spineOf? (unwind [] f) = none ∧ f.Headless := by
  have hmake : (unwind [] f).2.foldl .app (unwind [] f).1 = f := foldl_app_unwind [] f
  have hroot := root_unwind_ne_app [] f
  -- from here on only what the root and the arguments make matters, not how they were found
  generalize unwind [] f = parts at hmake hroot ⊢
  obtain ⟨root, arguments⟩ := parts
  subst hmake
  cases root with
  | symbol ref => exact Or.inl ⟨.symbol ref, arguments, rfl, rfl⟩
  | app g x => exact absurd rfl (hroot g x)
  | var ref => exact Or.inr ⟨rfl, .var ref arguments⟩
  | definition ref inputs =>
    cases arguments with
    | nil => exact Or.inl ⟨.definition ref, inputs, rfl, rfl⟩
    | cons x xs => exact Or.inr ⟨rfl, .definition ref inputs x xs⟩

/-- Taking arguments off from the outside finds the spine. -/
theorem spine?_eq_unwind (f : Formula) : f.spine? = spineOf? (unwind [] f) := by
  rcases spineOf?_unwind_cases f with ⟨head, inputs, hspine, hmake⟩ | ⟨hspine, hf⟩
  · rw [hspine, ← hmake, spine?_apply]
  · rw [hspine, hf.spine?_eq_none]

theorem spine?_eq_none_iff : f.spine? = none ↔ f.Headless := by
  refine ⟨fun h => ?_, Headless.spine?_eq_none⟩
  rcases spineOf?_unwind_cases f with ⟨head, inputs, -, hmake⟩ | ⟨-, hf⟩
  · rw [← hmake, spine?_apply] at h
    cases h
  · exact hf

/-- **Taking apart and putting together are inverse to each other.**  A head with any inputs is
found again in the formula that they make, and a formula with a spine is what its head makes with
its inputs; the spine is the one that is found by taking arguments off from the outside, and the
formulas that have none are those without a head.  So it is with relations between two formulas, and
two of them are equal only if their heads and both of their sides are. -/
theorem spine?_inverse :
    (∀ (head : Head) (inputs : List Formula), (head.apply inputs).spine? = some (head, inputs)) ∧
      (∀ (f : Formula) (head : Head) (inputs : List Formula),
        f.spine? = some (head, inputs) ↔ head.apply inputs = f) ∧
      (∀ f : Formula, f.spine? = spineOf? (unwind [] f) ∧ (f.spine? = none ↔ f.Headless)) ∧
      (∀ (relation : Head) (a b : Formula),
        (relation.apply [a, b]).binary? = some (relation, a, b)) ∧
      (∀ (f : Formula) (relation : Head) (a b : Formula),
        f.binary? = some (relation, a, b) ↔ relation.apply [a, b] = f) ∧
      ∀ (relation relation' : Head) (a b a' b' : Formula),
        relation.apply [a, b] = relation'.apply [a', b'] ↔
          relation = relation' ∧ a = a' ∧ b = b' := by
  refine ⟨spine?_apply, fun f head inputs => ?_, fun f => ⟨spine?_eq_unwind f, spine?_eq_none_iff⟩,
    binary?_apply, fun f relation a b => ?_, fun relation relation' a b a' b' => ?_⟩
  · rw [spine?_eq_some_iff, eq_comm]
  · rw [binary?_eq_some_iff, eq_comm]
  · rw [Head.apply_inj, List.cons.injEq, List.cons.injEq, and_iff_left rfl]

/-- A definition with two inputs, one of them an application, and what it makes when applied. -/
example : (app (definition 3 [var 0, app (symbol 1) (var 0)]) (symbol 2)).spine? = none ∧
    (definition 3 [var 0, app (symbol 1) (var 0)]).binary? =
      some (.definition 3, var 0, app (symbol 1) (var 0)) := by
  decide

end Formula

end Deduction
