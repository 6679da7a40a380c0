import Deduction.Directory
import Deduction.Json.Display

/-!
# Drafts of directories

A draft is a directory that is still being written.  Declarations are added at the end, each
answered by its position, and some of their parts may follow later: the expansion of a definition,
the premises and the assertion of a rule, the steps of a proof.  An expansion or an assertion may
also be given again, and then the last one counts.

A declaration that is to be changed is named by its position, and positions below zero count from
the end.  `Draft.build` closes a draft.  It does not change the draft, so writing can go on after
it.
-/

namespace Deduction

/-- A definition whose expansion may be missing. -/
structure DefinitionDraft where
  id : Name
  system : Ref
  inputs : List Variable
  expansion : Option Formula
  deriving DecidableEq, Repr

/-- A rule whose assertion may be missing. -/
structure RuleDraft where
  id : Name
  system : Ref
  scope : List Variable
  premises : List Formula
  assertion : Option Formula
  flags : List Flag
  deriving DecidableEq, Repr

/-- A directory that is being written. -/
structure Draft where
  systems : List SystemDecl := []
  types : List TypeDecl := []
  symbols : List SymbolDecl := []
  definitions : List DefinitionDraft := []
  axioms : List RuleDraft := []
  theorems : List RuleDraft := []
  proofs : List Proof := []
  deriving DecidableEq, Repr

/-- Why something could not be done with a draft. -/
inductive DraftError where
  /-- There is no declaration at a position. -/
  | noEntry (position : Int)
  /-- A definition has no expansion yet. -/
  | noExpansion (id : Name)
  /-- A rule has no assertion yet. -/
  | noAssertion (id : Name)
  deriving DecidableEq, Repr

namespace DraftError

/-- The wording of each cause. -/
def message : DraftError → String
  | .noEntry position => s!"no entry at {position}"
  | .noExpansion id => s!"definition {id.display} has no expansion"
  | .noAssertion id => s!"{id.display} has no assertion"

end DraftError

/-! ## Positions -/

/-- The place that a position names in a list of some length; below zero it is counted from the
end. -/
def placeIn? (length : Nat) (position : Int) : Option Nat :=
  let place := if position < 0 then position + length else position
  if 0 ≤ place ∧ place < length then some place.toNat else none

/-- A list with the entry at a position changed. -/
def modifyAt {α : Type} (change : α → α) (position : Int) (entries : List α) :
    Except DraftError (List α) :=
  match placeIn? entries.length position with
  | none => .error (.noEntry position)
  | some place => .ok (entries.modify place change)

@[simp] theorem placeIn?_ofNat {length n : Nat} (h : n < length) :
    placeIn? length (n : Int) = some n := by
  have hn : ¬ (n : Int) < 0 := by omega
  simp [placeIn?, hn, h]

namespace Draft

/-! ## Adding declarations -/

/-- Adding a system. -/
def addSystem (system : SystemDecl) : StateM Draft Nat := fun d =>
  (d.systems.length, { d with systems := d.systems ++ [system] })

/-- Adding a type. -/
def addType (type : TypeDecl) : StateM Draft Nat := fun d =>
  (d.types.length, { d with types := d.types ++ [type] })

/-- Adding a symbol. -/
def addSymbol (symbol : SymbolDecl) : StateM Draft Nat := fun d =>
  (d.symbols.length, { d with symbols := d.symbols ++ [symbol] })

/-- Adding a definition. -/
def addDefinition (definition : DefinitionDraft) : StateM Draft Nat := fun d =>
  (d.definitions.length, { d with definitions := d.definitions ++ [definition] })

/-- Adding an axiom. -/
def addAxiom (rule : RuleDraft) : StateM Draft Nat := fun d =>
  (d.axioms.length, { d with axioms := d.axioms ++ [rule] })

/-- Adding a theorem. -/
def addTheorem (rule : RuleDraft) : StateM Draft Nat := fun d =>
  (d.theorems.length, { d with theorems := d.theorems ++ [rule] })

/-- Adding a proof. -/
def addProof (proof : Proof) : StateM Draft Nat := fun d =>
  (d.proofs.length, { d with proofs := d.proofs ++ [proof] })

/-! ## Parts that follow later -/

/-- Giving the expansion of a definition. -/
def setExpansion (position : Int) (expansion : Formula) (d : Draft) : Except DraftError Draft := do
  let definitions ← modifyAt
    (fun (e : DefinitionDraft) => { e with expansion := some expansion }) position d.definitions
  return { d with definitions }

/-- Adding a premise to an axiom. -/
def addAxiomPremise (position : Int) (premise : Formula) (d : Draft) :
    Except DraftError Draft := do
  let axioms ← modifyAt
    (fun (e : RuleDraft) => { e with premises := e.premises ++ [premise] }) position d.axioms
  return { d with axioms }

/-- Giving the assertion of an axiom. -/
def setAxiomAssertion (position : Int) (assertion : Formula) (d : Draft) :
    Except DraftError Draft := do
  let axioms ← modifyAt
    (fun (e : RuleDraft) => { e with assertion := some assertion }) position d.axioms
  return { d with axioms }

/-- Adding a premise to a theorem. -/
def addTheoremPremise (position : Int) (premise : Formula) (d : Draft) :
    Except DraftError Draft := do
  let theorems ← modifyAt
    (fun (e : RuleDraft) => { e with premises := e.premises ++ [premise] }) position d.theorems
  return { d with theorems }

/-- Giving the assertion of a theorem. -/
def setTheoremAssertion (position : Int) (assertion : Formula) (d : Draft) :
    Except DraftError Draft := do
  let theorems ← modifyAt
    (fun (e : RuleDraft) => { e with assertion := some assertion }) position d.theorems
  return { d with theorems }

/-- Adding a step to a proof. -/
def addStep (position : Int) (step : Step) (d : Draft) : Except DraftError Draft := do
  let proofs ← modifyAt
    (fun (e : Proof) => { e with steps := e.steps ++ [step] }) position d.proofs
  return { d with proofs }

end Draft

/-! ## Closing a draft -/

/-- The definition, if it has its expansion. -/
def DefinitionDraft.close (e : DefinitionDraft) : Except DraftError Definition :=
  match e.expansion with
  | none => .error (.noExpansion e.id)
  | some expansion => .ok ⟨e.id, e.system, e.inputs, expansion⟩

/-- The rule, if it has its assertion. -/
def RuleDraft.close (e : RuleDraft) : Except DraftError Rule :=
  match e.assertion with
  | none => .error (.noAssertion e.id)
  | some assertion => .ok ⟨e.id, e.system, e.scope, e.premises, assertion, e.flags⟩

/-- Closing every entry of a list, or the first cause why one cannot be. -/
def closeAll {α β : Type} (close : α → Except DraftError β) : List α → Except DraftError (List β)
  | [] => .ok []
  | entry :: entries => do
    let closed ← close entry
    let rest ← closeAll close entries
    return closed :: rest

/-- The directory of a draft in which nothing is missing.  Definitions are closed first, then
axioms, then theorems. -/
def Draft.build (d : Draft) : Except DraftError Directory := do
  let definitions ← closeAll DefinitionDraft.close d.definitions
  let axioms ← closeAll RuleDraft.close d.axioms
  let theorems ← closeAll RuleDraft.close d.theorems
  return ⟨d.systems, d.types, d.symbols, definitions, axioms, theorems, d.proofs⟩

end Deduction
