import Deduction.Ref

/-!
# Formulas

A formula is a symbol, a variable of the enclosing scope, the application of a formula to one
argument, or a definition applied to all of its inputs at once.  Application is curried, so `f(a,
b)` is `app (app f a) b`.

Definitions carry a list of formulas, so every function on formulas comes in a pair, one half for a
formula and one for a list of inputs.  The second half is always the obvious lifting of the first,
and the lemmas `…All_eq_map` and the like say so; `Formula.inductionOn` is the induction principle
that hides the pair.

* `Formula.substitute`: replacing variables, all at once.
* `Formula.nodes`: all subformulas with their positions, parents before children.
* `Formula.variableRefs`, `Formula.definitionRefs`, `Formula.size`: what the nodes are.
-/

namespace Deduction

/-- A formula. -/
inductive Formula where
  | symbol (ref : Ref)
  | var (ref : Ref)
  | app (function argument : Formula)
  | definition (ref : Ref) (inputs : List Formula)
  deriving Repr, Inhabited

namespace Formula

/-! ## Induction -/

mutual

/-- Induction on formulas, with the hypothesis of a definition stated for each of its inputs. -/
theorem inductionOn {motive : Formula → Prop} (symbol : ∀ ref, motive (.symbol ref))
    (var : ∀ ref, motive (.var ref))
    (app : ∀ f x, motive f → motive x → motive (.app f x))
    (definition : ∀ ref inputs, (∀ x ∈ inputs, motive x) → motive (.definition ref inputs)) :
    ∀ f, motive f
  | .symbol ref => symbol ref
  | .var ref => var ref
  | .app f x =>
    app f x (inductionOn symbol var app definition f) (inductionOn symbol var app definition x)
  | .definition ref inputs =>
    definition ref inputs (inductionOnAll symbol var app definition inputs)

/-- The same for every formula of a list. -/
theorem inductionOnAll {motive : Formula → Prop} (symbol : ∀ ref, motive (.symbol ref))
    (var : ∀ ref, motive (.var ref))
    (app : ∀ f x, motive f → motive x → motive (.app f x))
    (definition : ∀ ref inputs, (∀ x ∈ inputs, motive x) → motive (.definition ref inputs)) :
    ∀ inputs : List Formula, ∀ x ∈ inputs, motive x
  | [], _, h => nomatch h
  | y :: ys, x, h =>
    (List.mem_cons.mp h).elim
      (fun hx => hx ▸ inductionOn symbol var app definition y)
      (fun hx => inductionOnAll symbol var app definition ys x hx)

end

/-! ## Equality -/

mutual

/-- Structural equality. -/
def beq : Formula → Formula → Bool
  | .symbol r, .symbol s => r == s
  | .var r, .var s => r == s
  | .app f x, .app g y => beq f g && beq x y
  | .definition r xs, .definition s ys => r == s && beqAll xs ys
  | _, _ => false

/-- Equality of two lists of formulas. -/
def beqAll : List Formula → List Formula → Bool
  | [], [] => true
  | x :: xs, y :: ys => beq x y && beqAll xs ys
  | _, _ => false

end

mutual

theorem eq_of_beq : ∀ {f g : Formula}, beq f g = true → f = g
  | .symbol _, g, h => by cases g <;> simp_all [beq]
  | .var _, g, h => by cases g <;> simp_all [beq]
  | .app f x, g, h => by
    cases g with
    | app g y =>
      simp only [beq, Bool.and_eq_true] at h
      rw [eq_of_beq h.1, eq_of_beq h.2]
    | _ => simp [beq] at h
  | .definition r xs, g, h => by
    cases g with
    | definition s ys =>
      simp only [beq, Bool.and_eq_true, beq_iff_eq] at h
      rw [h.1, eq_of_beqAll h.2]
    | _ => simp [beq] at h

theorem eq_of_beqAll : ∀ {xs ys : List Formula}, beqAll xs ys = true → xs = ys
  | [], [], _ => rfl
  | x :: xs, y :: ys, h => by
    simp only [beqAll, Bool.and_eq_true] at h
    rw [eq_of_beq h.1, eq_of_beqAll h.2]
  | [], _ :: _, h => by simp [beqAll] at h
  | _ :: _, [], h => by simp [beqAll] at h

end

mutual

theorem beq_self : ∀ f : Formula, beq f f = true
  | .symbol _ => by simp [beq]
  | .var _ => by simp [beq]
  | .app f x => by simp [beq, beq_self f, beq_self x]
  | .definition _ xs => by simp [beq, beqAll_self xs]

theorem beqAll_self : ∀ xs : List Formula, beqAll xs xs = true
  | [] => rfl
  | x :: xs => by simp [beqAll, beq_self x, beqAll_self xs]

end

theorem beq_iff {f g : Formula} : beq f g = true ↔ f = g :=
  ⟨eq_of_beq, fun h => h ▸ beq_self f⟩

instance : DecidableEq Formula := fun _ _ => decidable_of_iff _ beq_iff

/-! ## Substitution -/

mutual

/-- The formula with every variable replaced, all at once. -/
def substitute (σ : Ref → Formula) : Formula → Formula
  | .symbol ref => .symbol ref
  | .var ref => σ ref
  | .app f x => .app (substitute σ f) (substitute σ x)
  | .definition ref inputs => .definition ref (substituteAll σ inputs)

/-- Substitution in every formula of a list. -/
def substituteAll (σ : Ref → Formula) : List Formula → List Formula
  | [] => []
  | x :: xs => substitute σ x :: substituteAll σ xs

end

@[simp] theorem substituteAll_eq_map (σ : Ref → Formula) (xs : List Formula) :
    substituteAll σ xs = xs.map (substitute σ) := by
  induction xs with
  | nil => rfl
  | cons x xs ih => simp [substituteAll, ih]

/-- Replacing every variable by itself changes nothing. -/
@[simp] theorem substitute_var (f : Formula) : f.substitute .var = f := by
  induction f using inductionOn with
  | symbol | var => rfl
  | app f x hf hx => simp [substitute, hf, hx]
  | definition ref inputs h =>
    simp only [substitute, substituteAll_eq_map, definition.injEq, true_and]
    exact (List.map_congr_left h).trans (List.map_id _)

/-- The substitution that gives a definition's formal inputs their values; input `i` is the variable
`i` of the definition's body. -/
def inputValues (inputs : List Formula) (ref : Ref) : Formula :=
  (itemAt? inputs ref).getD (.var ref)

/-! ## Positions -/

/-- A step from a formula to one of its parts. -/
inductive Branch where
  | function
  | argument
  | input (index : Nat)
  deriving DecidableEq, Repr

/-- The way from a formula down to one of its subformulas. -/
abbrev Position := List Branch

/-- How a step is written. -/
def Branch.text : Branch → String
  | .function => "function"
  | .argument => "argument"
  | .input index => s!"inputs[{index}]"

/-- How a position is written behind a base, with points between the parts.  An empty base is left
out. -/
def Position.text (base : String) (position : Position) : String :=
  ".".intercalate ((if base.isEmpty then [] else [base]) ++ position.map Branch.text)

mutual

/-- Every node with its position, parents before children and children from left to right. -/
def nodes : Formula → List (Position × Formula)
  | .symbol ref => [([], .symbol ref)]
  | .var ref => [([], .var ref)]
  | .app f x =>
    ([], .app f x) :: ((nodes f).map (fun n => (.function :: n.1, n.2)) ++
      (nodes x).map (fun n => (.argument :: n.1, n.2)))
  | .definition ref inputs => ([], .definition ref inputs) :: nodesFrom 0 inputs

/-- The nodes of inputs that are counted from `index`. -/
def nodesFrom (index : Nat) : List Formula → List (Position × Formula)
  | [] => []
  | x :: xs => (nodes x).map (fun n => (.input index :: n.1, n.2)) ++ nodesFrom (index + 1) xs

end

mutual

/-- The number of nodes. -/
def size : Formula → Nat
  | .symbol _ => 1
  | .var _ => 1
  | .app f x => size f + size x + 1
  | .definition _ inputs => sizeAll inputs + 1

/-- The number of nodes of a list of formulas. -/
def sizeAll : List Formula → Nat
  | [] => 0
  | x :: xs => size x + sizeAll xs

end

mutual

/-- Every node is counted once. -/
theorem length_nodes : ∀ f : Formula, f.nodes.length = f.size
  | .symbol _ => rfl
  | .var _ => rfl
  | .app f x => by simp [nodes, size, length_nodes f, length_nodes x]
  | .definition _ inputs => by simp [nodes, size, length_nodesFrom inputs 0]

theorem length_nodesFrom : ∀ (xs : List Formula) (index : Nat),
    (nodesFrom index xs).length = sizeAll xs
  | [], _ => rfl
  | x :: xs, index => by
    simp [nodesFrom, sizeAll, length_nodes x, length_nodesFrom xs (index + 1)]

end

mutual

/-- The variables of a formula in the order of their nodes, with repeats. -/
def variableRefs : Formula → List Ref
  | .symbol _ => []
  | .var ref => [ref]
  | .app f x => variableRefs f ++ variableRefs x
  | .definition _ inputs => variableRefsAll inputs

/-- The variables of a list of formulas. -/
def variableRefsAll : List Formula → List Ref
  | [] => []
  | x :: xs => variableRefs x ++ variableRefsAll xs

end

mutual

/-- The definitions that a formula uses in the order of their nodes, with repeats. -/
def definitionRefs : Formula → List Ref
  | .symbol _ => []
  | .var _ => []
  | .app f x => definitionRefs f ++ definitionRefs x
  | .definition ref inputs => ref :: definitionRefsAll inputs

/-- The definitions that a list of formulas uses. -/
def definitionRefsAll : List Formula → List Ref
  | [] => []
  | x :: xs => definitionRefs x ++ definitionRefsAll xs

end

@[simp] theorem variableRefsAll_eq_flatMap (xs : List Formula) :
    variableRefsAll xs = xs.flatMap variableRefs := by
  induction xs with
  | nil => rfl
  | cons x xs ih => simp [variableRefsAll, ih]

@[simp] theorem definitionRefsAll_eq_flatMap (xs : List Formula) :
    definitionRefsAll xs = xs.flatMap definitionRefs := by
  induction xs with
  | nil => rfl
  | cons x xs ih => simp [definitionRefsAll, ih]

end Formula

end Deduction
