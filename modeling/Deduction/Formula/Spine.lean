import Deduction.Formula.Basic

/-!
# Heads and spines

`f(a₁, …, aₙ)` has the head `f` and the inputs `a₁, …, aₙ`.  The head is a symbol, applied one
argument at a time, or a definition, applied to all of its inputs at once.  A formula without such a
head, a variable applied to something or a definition applied to something more, has no spine.

A formula with exactly two inputs is read as a relation between them (`binary?`).

* `Formula.spine?` takes a formula apart and `Head.apply` puts it together again.
* `Formula.spine?_apply`, `Formula.apply_of_spine?`: the two are inverse to each other.
-/

namespace Deduction

/-- The symbol or definition at the root of a formula. -/
inductive Head where
  | symbol (ref : Ref)
  | definition (ref : Ref)
  deriving DecidableEq, Repr

/-- The formula with a given head and inputs. -/
def Head.apply : Head → List Formula → Formula
  | .symbol ref, inputs => inputs.foldl .app (.symbol ref)
  | .definition ref, inputs => .definition ref inputs

namespace Formula

/-- The symbol at the root of a chain of applications, with the arguments in order. -/
def symbolSpine? : Formula → Option (Ref × List Formula)
  | .symbol ref => some (ref, [])
  | .app f x => (symbolSpine? f).map fun s => (s.1, s.2 ++ [x])
  | _ => none

/-- The head of a formula and its inputs. -/
def spine? : Formula → Option (Head × List Formula)
  | .definition ref inputs => some (.definition ref, inputs)
  | f => (symbolSpine? f).map fun s => (.symbol s.1, s.2)

/-- The head and the inputs of a formula that has inputs. -/
def application? (f : Formula) : Option (Head × List Formula) :=
  f.spine?.filter fun spine => !spine.2.isEmpty

/-- A relation between two formulas: head, left and right side. -/
def binary? (f : Formula) : Option (Head × Formula × Formula) :=
  match spine? f with
  | some (head, [left, right]) => some (head, left, right)
  | _ => none

/-- A relation between two variables. -/
def binaryVars? (f : Formula) : Option (Head × Ref × Ref) :=
  match binary? f with
  | some (head, .var left, .var right) => some (head, left, right)
  | _ => none

/-! ## Spines are inverse to application -/

theorem symbolSpine?_foldl_app (xs : List Formula) {f : Formula} {ref : Ref}
    {ys : List Formula} (h : symbolSpine? f = some (ref, ys)) :
    symbolSpine? (xs.foldl .app f) = some (ref, ys ++ xs) := by
  induction xs generalizing f ys with
  | nil => simpa using h
  | cons x xs ih =>
    have hx : symbolSpine? (.app f x) = some (ref, ys ++ [x]) := by simp [symbolSpine?, h]
    simpa using ih hx

theorem spine?_of_symbolSpine? {f : Formula} {ref : Ref} {xs : List Formula}
    (h : symbolSpine? f = some (ref, xs)) : spine? f = some (.symbol ref, xs) := by
  cases f with
  | definition => simp [symbolSpine?] at h
  | _ => simp [spine?, h]

/-- The spine of an applied head is that head with those inputs. -/
@[simp] theorem spine?_apply (head : Head) (inputs : List Formula) :
    spine? (head.apply inputs) = some (head, inputs) := by
  cases head with
  | definition ref => rfl
  | symbol ref =>
    have h : symbolSpine? (.symbol ref) = some (ref, []) := rfl
    simpa [Head.apply] using spine?_of_symbolSpine? (symbolSpine?_foldl_app inputs h)

theorem foldl_app_of_symbolSpine? {f : Formula} {ref : Ref} {xs : List Formula}
    (h : symbolSpine? f = some (ref, xs)) : xs.foldl .app (.symbol ref) = f := by
  induction f using inductionOn generalizing xs with
  | symbol r =>
    simp only [symbolSpine?, Option.some.injEq, Prod.mk.injEq] at h
    obtain ⟨rfl, rfl⟩ := h
    rfl
  | var => simp [symbolSpine?] at h
  | app f x hf _ =>
    simp only [symbolSpine?, Option.map_eq_some_iff, Prod.mk.injEq] at h
    obtain ⟨⟨r, ys⟩, hs, rfl, rfl⟩ := h
    simp [List.foldl_append, hf hs]
  | definition => simp [symbolSpine?] at h

/-- A formula is its head applied to its inputs. -/
theorem apply_of_spine? {f : Formula} {head : Head} {inputs : List Formula}
    (h : spine? f = some (head, inputs)) : head.apply inputs = f := by
  cases f with
  | definition ref xs =>
    simp only [spine?, Option.some.injEq, Prod.mk.injEq] at h
    obtain ⟨rfl, rfl⟩ := h
    rfl
  | symbol | var | app =>
    simp only [spine?, Option.map_eq_some_iff, Prod.mk.injEq] at h
    obtain ⟨⟨ref, xs⟩, hs, rfl, rfl⟩ := h
    exact foldl_app_of_symbolSpine? hs

theorem apply_of_binary? {f : Formula} {head : Head} {left right : Formula}
    (h : binary? f = some (head, left, right)) : head.apply [left, right] = f := by
  unfold binary? at h
  split at h
  · rename_i hs
    cases h
    exact apply_of_spine? hs
  · cases h

@[simp] theorem binary?_apply (head : Head) (left right : Formula) :
    binary? (head.apply [left, right]) = some (head, left, right) := by
  simp [binary?]

end Formula

end Deduction
