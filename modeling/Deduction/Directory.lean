import Deduction.Formula.Basic
import Deduction.Json.Basic
import Deduction.Justification
import Deduction.Signature

/-!
# Directories

A directory is a whole document with all of its references resolved to positions: the systems,
types, symbols, definitions, axioms, theorems and proofs, each in the order of declaration.

Axioms and theorems have the same parts and are both `Rule`s: from instances of the premises follows
the same instance of the assertion.  What sets a theorem apart is only that it has to be proved.
The flags of a rule announce that it is a law of a relation.

Identifiers are for people to read and mean nothing here.  A document may use any JSON value as one,
and it is kept as it is.
-/

namespace Deduction

/-- The identifier that a document gives to something it declares. -/
abbrev Name := Json

/-- A system, to which the other declarations belong. -/
structure SystemDecl where
  id : Name
  deriving DecidableEq, Repr

/-- A ground type. -/
structure TypeDecl where
  id : Name
  system : Ref
  deriving DecidableEq, Repr

/-- A symbol with its signature. -/
structure SymbolDecl where
  id : Name
  system : Ref
  signature : Signature
  deriving DecidableEq, Repr

/-- A variable of a scope. -/
structure Variable where
  id : Name
  signature : Signature
  deriving DecidableEq, Repr

/-- An abbreviation.  Its inputs are the scope of its expansion, so input `i` is the variable `i`
there. -/
structure Definition where
  id : Name
  system : Ref
  inputs : List Variable
  expansion : Formula
  deriving DecidableEq, Repr

/-- The number of inputs that a definition takes. -/
def Definition.arity (d : Definition) : Nat := d.inputs.length

/-- What a rule is announced to be. -/
inductive Flag where
  | reflexive
  | symmetric
  | transitive
  | function
  deriving DecidableEq, Repr

namespace Flag

/-- All flags. -/
def all : List Flag := [.reflexive, .symmetric, .transitive, .function]

/-- The word for a flag. -/
def name : Flag → String
  | .reflexive => "reflexive"
  | .symmetric => "symmetric"
  | .transitive => "transitive"
  | .function => "function"

/-- The flag of a word. -/
def ofName? (s : String) : Option Flag := all.find? fun f => f.name == s

@[simp] theorem ofName?_name (f : Flag) : ofName? f.name = some f := by
  cases f <;> decide

end Flag

/-- An axiom or a theorem. -/
structure Rule where
  id : Name
  system : Ref
  scope : List Variable
  premises : List Formula
  assertion : Formula
  flags : List Flag
  deriving DecidableEq, Repr

/-- A step of a proof. -/
structure Step where
  justification : Justification
  formula : Formula
  deriving DecidableEq, Repr

/-- A proof of a theorem. -/
structure Proof where
  theoremRef : Ref
  steps : List Step
  deriving DecidableEq, Repr

/-- A document with all references resolved to positions. -/
structure Directory where
  systems : List SystemDecl := []
  types : List TypeDecl := []
  symbols : List SymbolDecl := []
  definitions : List Definition := []
  axioms : List Rule := []
  theorems : List Rule := []
  proofs : List Proof := []
  deriving DecidableEq, Repr

namespace Directory

variable (D : Directory)

/-- The system at a position. -/
def system? (ref : Ref) : Option SystemDecl := itemAt? D.systems ref

/-- The type at a position. -/
def type? (ref : Ref) : Option TypeDecl := itemAt? D.types ref

/-- The symbol at a position. -/
def symbol? (ref : Ref) : Option SymbolDecl := itemAt? D.symbols ref

/-- The definition at a position. -/
def definition? (ref : Ref) : Option Definition := itemAt? D.definitions ref

/-- The proof at a position. -/
def proof? (ref : Ref) : Option Proof := itemAt? D.proofs ref

/-- The axiom or theorem that is cited. -/
def rule? : RuleRef → Option Rule
  | .ofAxiom ref => itemAt? D.axioms ref
  | .ofTheorem ref => itemAt? D.theorems ref

/-- The position of the first proof of a theorem, which is the one that counts. -/
def firstProof? (ref : Ref) : Option Nat := D.proofs.findIdx? fun p => p.theoremRef == ref

/-- Every rule with its reference, the axioms before the theorems. -/
def rules : List (RuleRef × Rule) :=
  D.axioms.zipIdx.map (fun r => (.ofAxiom r.2, r.1)) ++
    D.theorems.zipIdx.map fun r => (.ofTheorem r.2, r.1)

end Directory

end Deduction
