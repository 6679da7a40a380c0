import Deduction.Unfolding

/-!
# Matching a template against a formula

Matching binds the variables of a template so that putting the bindings back into the template gives
the target, up to definitions.  Only the variables of the template are bound.  A variable that
occurs again must be bound to a compatible formula, and the first binding is kept.  Templates are
read from right to left: the argument of an application before its function, the last input of a
definition before the others, so the binding that is kept is the one of the rightmost occurrence.

A premise may be matched by several facts, so sets of bindings come in lists of alternatives.
`Bindings.mergeAll` keeps every pairing of two alternatives that agree on the variables they share.

* `Bindings`: variables and the formulas they are bound to, in the order in which they were bound.
* `Bindings.ofMatch?`: matching a template against a target.
* `Bindings.merge?`: joining two sets of bindings.
* `Bindings.findAll`, `Bindings.mergeAll`: the same for alternatives.
-/

namespace Deduction

/-- Variables bound to formulas, in the order in which they were bound. -/
structure Bindings where
  entries : List (Ref × Formula) := []
  deriving DecidableEq, Repr

namespace Bindings

/-- The formula that a variable is bound to. -/
def get? (b : Bindings) (ref : Ref) : Option Formula := b.entries.lookup ref

/-- What a variable is replaced by: the formula it is bound to, or itself. -/
def image (b : Bindings) (ref : Ref) : Formula := (b.get? ref).getD (.var ref)

/-- A formula with its bound variables replaced. -/
def apply (b : Bindings) (f : Formula) : Formula := f.substitute b.image

/-- The bindings with one variable more, which is not bound yet. -/
def push (b : Bindings) (ref : Ref) (f : Formula) : Bindings := ⟨b.entries ++ [(ref, f)]⟩

@[simp] theorem get?_empty (ref : Ref) : ({} : Bindings).get? ref = none := rfl

/-- A variable that is bound keeps its formula. -/
theorem get?_push (b : Bindings) (ref other : Ref) (f : Formula) :
    (b.push ref f).get? other = (b.get? other).or (if other = ref then some f else none) := by
  by_cases h : other = ref
  · simp [get?, push, List.lookup_append, h]
  · have hb : (other == ref) = false := by simpa using h
    simp [get?, push, List.lookup_append, List.lookup_cons, h, hb]

/-- Binding a variable to a formula, which must be compatible with the formula that the variable is
bound to already. -/
def bind? (D : Directory) (b : Bindings) (ref : Ref) (f : Formula) :
    Except ContractError (Option Bindings) :=
  match b.get? ref with
  | none => .ok (some (b.push ref f))
  | some bound => do
    let fits ← D.compatible bound f
    return if fits then some b else none

mutual

/-- Matching a template against a target with some variables bound already. -/
def extend? (D : Directory) : Formula → Formula → Bindings →
    Except ContractError (Option Bindings)
  | .symbol ref, target, b => .ok (if target = .symbol ref then some b else none)
  | .var ref, target, b => b.bind? D ref target
  | .app f x, .app g y, b => do
    match ← extend? D x y b with
    | none => return none
    | some b => extend? D f g b
  | .definition ref xs, .definition other ys, b =>
    if ref = other ∧ xs.length = ys.length then extendAll? D xs ys b else .ok none
  | _, _, _ => .ok none

/-- Matching the inputs of a definition, the last one first. -/
def extendAll? (D : Directory) : List Formula → List Formula → Bindings →
    Except ContractError (Option Bindings)
  | [], [], b => .ok (some b)
  | x :: xs, y :: ys, b => do
    match ← extendAll? D xs ys b with
    | none => return none
    | some b => extend? D x y b
  | _, _, _ => .ok none

end

/-- Matching a template against a target. -/
def ofMatch? (D : Directory) (template target : Formula) :
    Except ContractError (Option Bindings) :=
  extend? D template target {}

/-- Whether every binding of a list is compatible with the one of the same variable. -/
def agreesWith (D : Directory) (b : Bindings) :
    List (Ref × Formula) → Except ContractError Bool
  | [] => .ok true
  | (ref, f) :: rest =>
    match b.get? ref with
    | none => agreesWith D b rest
    | some bound => do
      let fits ← D.compatible bound f
      if fits then agreesWith D b rest else return false

/-- The bindings of both sides, the left ones where both bind a variable.  The variables of the
right side come first. -/
def union (left right : Bindings) : Bindings :=
  ⟨right.entries.map (fun e => (e.1, (left.get? e.1).getD e.2)) ++
    left.entries.filter fun e => (right.get? e.1).isNone⟩

/-- Joining two sets of bindings that agree on the variables they share. -/
def merge? (D : Directory) (left right : Bindings) : Except ContractError (Option Bindings) := do
  let agree ← left.agreesWith D right.entries
  return if agree then some (left.union right) else none

/-! ## Alternatives -/

/-- Every way in which a template matches one of the candidates. -/
def findAll (D : Directory) (template : Formula) :
    List Formula → Except ContractError (List Bindings)
  | [] => .ok []
  | candidate :: candidates => do
    let found ← ofMatch? D template candidate
    let more ← findAll D template candidates
    return found.toList ++ more

/-- Every way of joining one set of bindings with one of the alternatives. -/
def mergeEach (D : Directory) (left : Bindings) :
    List Bindings → Except ContractError (List Bindings)
  | [] => .ok []
  | right :: rights => do
    let joined ← left.merge? D right
    let more ← mergeEach D left rights
    return joined.toList ++ more

/-- Every way of joining an alternative of the left with one of the right. -/
def mergeAll (D : Directory) (lefts rights : List Bindings) :
    Except ContractError (List Bindings) :=
  match lefts with
  | [] => .ok []
  | left :: lefts => do
    let joined ← mergeEach D left rights
    let more ← mergeAll D lefts rights
    return joined ++ more

end Bindings

end Deduction
