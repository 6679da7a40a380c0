import Deduction.Draft
import Deduction.Formula.Spine

/-!
# Equality of natural numbers

A draft to start from: natural numbers with a successor and a sum, two predicates, and equality with
its laws already flagged, so that equality is a symmetric preorder that successor and sum preserve.

    symbols     eq : Nat → Nat → Prop    zero, five : Nat      succ : Nat → Nat
                add : Nat → Nat → Nat    P, Q : Nat → Prop
    definition  double(x) := add(x, x)
    axioms      refl                     ⊢ eq(x, x)
                sym         eq(a, b)     ⊢ eq(b, a)
                trans       eq(a, b), eq(b, c)  ⊢ eq(a, c)
                succ_cong   eq(a, b)     ⊢ eq(succ(a), succ(b))
                add_cong    eq(a, c), eq(b, d)  ⊢ eq(add(a, b), add(c, d))
                add_zero                 ⊢ eq(add(x, zero), x)
                p_to_q      P(x)         ⊢ Q(x)

The law of symmetry and those of congruence can be left out, for documents that are not to rely on
them.
-/

namespace Deduction

/-- The positions of everything that the draft declares; laws that were left out have none. -/
structure Arithmetic where
  system : Nat
  nat : Signature
  prop : Signature
  eq : Nat
  zero : Nat
  five : Nat
  succ : Nat
  add : Nat
  p : Nat
  q : Nat
  double : Nat
  refl : Nat
  sym : Option Nat
  trans : Nat
  succCong : Option Nat
  addCong : Option Nat
  addZero : Nat
  pToQ : Nat
  deriving DecidableEq, Repr

namespace Arithmetic

/-- Variables for numbers; the name at position `i` is for variable `i`. -/
def numbers (a : Arithmetic) (names : List Name) : List Variable :=
  names.map fun name => ⟨name, a.nat⟩

/-- The equation of two formulas. -/
def equals (a : Arithmetic) (left right : Formula) : Formula :=
  (Head.symbol a.eq).apply [left, right]

/-- A formula twice added. -/
def doubled (a : Arithmetic) (f : Formula) : Formula :=
  .definition a.double [f]

/-- Adding a declaration only if it is wanted. -/
def optionally (wanted : Bool) (add : StateM Draft Nat) : StateM Draft (Option Nat) :=
  if wanted then some <$> add else return none

/-- Writing the draft, with or without the law of symmetry and those of congruence. -/
def declare (symmetric congruences : Bool) : StateM Draft Arithmetic := do
  let system ← Draft.addSystem ⟨.str "arithmetic"⟩
  let nat := Signature.ground (← Draft.addType ⟨.str "Nat", system⟩)
  let prop := Signature.ground (← Draft.addType ⟨.str "Prop", system⟩)
  let eq ← Draft.addSymbol ⟨.str "eq", system, .arrow nat (.arrow nat prop)⟩
  let nought ← Draft.addSymbol ⟨.str "zero", system, nat⟩
  let five ← Draft.addSymbol ⟨.str "five", system, nat⟩
  let next ← Draft.addSymbol ⟨.str "succ", system, .arrow nat nat⟩
  let add ← Draft.addSymbol ⟨.str "add", system, .arrow nat (.arrow nat nat)⟩
  let p ← Draft.addSymbol ⟨.str "P", system, .arrow nat prop⟩
  let q ← Draft.addSymbol ⟨.str "Q", system, .arrow nat prop⟩
  let call (symbol : Nat) (inputs : List Formula) : Formula := (Head.symbol symbol).apply inputs
  let nats (names : List String) : List Variable := names.map fun name => ⟨Json.word name, nat⟩
  let law (name : String) (names : List String) (premises : List Formula) (assertion : Formula)
      (flags : List Flag) : StateM Draft Nat :=
    Draft.addAxiom ⟨.str name, system, nats names, premises, some assertion, flags⟩
  let x := Formula.var 0
  let y := Formula.var 1
  let z := Formula.var 2
  let w := Formula.var 3
  let double ← Draft.addDefinition
    ⟨.str "double", system, nats ["x"], some (call add [x, x])⟩
  let refl ← law "refl" ["x"] [] (call eq [x, x]) [.reflexive]
  let sym ← optionally symmetric
    (law "sym" ["a", "b"] [call eq [x, y]] (call eq [y, x]) [.symmetric])
  let trans ← law "trans" ["a", "b", "c"] [call eq [x, y], call eq [y, z]] (call eq [x, z])
    [.transitive]
  let succCong ← optionally congruences
    (law "succ_cong" ["a", "b"] [call eq [x, y]] (call eq [call next [x], call next [y]])
      [.function])
  let addCong ← optionally congruences
    (law "add_cong" ["a", "b", "c", "d"] [call eq [x, z], call eq [y, w]]
      (call eq [call add [x, y], call add [z, w]]) [.function])
  let addZero ← law "add_zero" ["x"] [] (call eq [call add [x, call nought []], x]) []
  let pToQ ← law "p_to_q" ["x"] [call p [x]] (call q [x]) []
  return ⟨system, nat, prop, eq, nought, five, next, add, p, q, double, refl, sym, trans, succCong,
    addCong, addZero, pToQ⟩

/-- The positions and the draft. -/
def draft (symmetric congruences : Bool) : Arithmetic × Draft :=
  (declare symmetric congruences).run {}

end Arithmetic

end Deduction
