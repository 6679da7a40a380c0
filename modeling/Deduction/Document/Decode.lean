import Deduction.Directory
import Deduction.Json.Display
import Deduction.Json.Parser

/-!
# Reading documents

A document is read from the front to the back and the first problem ends the reading: systems,
types, symbols, definitions, axioms, theorems and then proofs, the entries of each in order, and the
parts of an entry in the order in which they are written.

* References are integers, and nothing else passes for one.
* A missing list counts as empty.  Where a list is expected anything with items will do: an object
  stands for its keys and a text for its characters.  An entry has to be an object, so in most
  places only the empty ones can be read.
* Only signatures, formulas and justifications are told apart by their `type`.  That of other nodes
  is not looked at, and neither are keys that no node has.

* `DocumentError`: what can be wrong.
* `Signature.ofJson`, `Formula.ofJson`, `Justification.ofJson`: the nodes that have kinds.
* `Directory.ofJson`, `Directory.load`: whole documents.
-/

namespace Deduction

open Json (word)

/-! ## What can be wrong -/

/-- What a reference is a reference to. -/
inductive IndexRole where
  | system
  | type
  | symbol
  | variable
  | definition
  | ofAxiom
  | ofTheorem
  | hypothesis
  deriving DecidableEq, Repr

/-- How messages name a reference. -/
def IndexRole.name : IndexRole → String
  | .system => "system ref"
  | .type => "type ref"
  | .symbol => "symbol ref"
  | .variable => "variable ref"
  | .definition => "definition ref"
  | .ofAxiom => "axiom ref"
  | .ofTheorem => "theorem ref"
  | .hypothesis => "hypothesis index"

/-- The nodes that are told apart by their `type`. -/
inductive NodeKind where
  | signature
  | formula
  | justification
  deriving DecidableEq, Repr

/-- How messages name a kind of node. -/
def NodeKind.name : NodeKind → String
  | .signature => "signature"
  | .formula => "formula"
  | .justification => "justification"

/-- Why a text is no document. -/
inductive DocumentError where
  /-- The text is not JSON. -/
  | notJson
  /-- An integer in the text has too many digits. -/
  | tooManyDigits (excess : DigitExcess)
  /-- The text is JSON, but no object. -/
  | notObject
  /-- A value does not have the parts or the items that are asked of it. -/
  | wrongShape
  /-- A part is missing. -/
  | missingKey (key : Text)
  /-- A reference is no integer. -/
  | badIndex (role : IndexRole) (got : Json)
  /-- There is no such type of node. -/
  | unknownType (kind : NodeKind) (got : Json)
  /-- There is no such flag. -/
  | unknownFlag (got : Json)
  deriving DecidableEq, Repr

namespace DocumentError

/-- The wording of each cause for a whole document.  It does not tell where a text is not JSON, or
which value has the wrong shape. -/
def message : DocumentError → Text
  | .notJson => "<json>"
  | .tooManyDigits excess => excess.message
  | .notObject => "document must be a JSON object"
  | .wrongShape => "malformed document: TypeError"
  | .missingKey key => s!"malformed document: KeyError({Text.quoted key})"
  | .badIndex role got => s!"{role.name} must be an integer index, got {got.display}"
  | .unknownType kind got => s!"Unknown {kind.name} type: " ++ got.plain
  | .unknownFlag got => s!"{got.display} is not a valid Flag"

end DocumentError

/-! ## Parts and items -/

namespace Json

/-- The part of an object. -/
def field (key : Text) : Json → Except DocumentError Json
  | .obj members =>
    match memberOf? key members with
    | some value => .ok value
    | none => .error (.missingKey key)
  | _ => .error .wrongShape

/-- The items of a value that has some. -/
def items : Json → Except DocumentError (List Json)
  | .arr values => .ok values
  | .str s => .ok (s.codePoints.map fun point => .str point.text)
  | .obj members => .ok (members.map fun m => .str m.1)
  | _ => .error .wrongShape

/-- The items of a part of an object; if there is no such part there are none. -/
def listField (key : Text) : Json → Except DocumentError (List Json)
  | .obj members => ((memberOf? key members).getD (.arr [])).items
  | _ => .error .wrongShape

/-- A reference. -/
def index (role : IndexRole) : Json → Except DocumentError Ref
  | .int n => .ok n
  | got => .error (.badIndex role got)

/-- The reference in a part of an object. -/
def indexField (role : IndexRole) (key : Text) (j : Json) : Except DocumentError Ref := do
  let value ← j.field key
  value.index role

end Json

/-- Reading every item, or the first problem. -/
def readAll {α : Type} (read : Json → Except DocumentError α) :
    List Json → Except DocumentError (List α)
  | [] => .ok []
  | j :: js => do
    let a ← read j
    let as ← readAll read js
    return a :: as

/-- What can be read back one by one can be read back as a list. -/
theorem readAll_map {α : Type} {read : Json → Except DocumentError α} {write : α → Json}
    {as : List α} (h : ∀ a ∈ as, read (write a) = .ok a) :
    readAll read (as.map write) = .ok as := by
  induction as with
  | nil => rfl
  | cons a as ih =>
    have ha := h a List.mem_cons_self
    have has := ih fun b hb => h b (List.mem_cons_of_mem _ hb)
    simp [readAll, ha, has, bind, Except.bind, pure, Except.pure]

/-! ## Signatures, formulas and justifications -/

namespace Signature

mutual

/-- Reading a signature. -/
def ofJson : Json → Except DocumentError Signature
  | .obj members =>
    match Json.memberOf? "type" members with
    | none => .error (.missingKey "type")
    | some kind =>
      if kind = word "ground" then do
        let type ← Json.indexField .type "ref" (.obj members)
        return .ground type
      else if kind = word "compound" then do
        let input ← ofMember "input" members
        let output ← ofMember "output" members
        return .arrow input output
      else .error (.unknownType .signature kind)
  | _ => .error .wrongShape

/-- Reading the signature in a part of an object. -/
def ofMember (key : Text) : List (Text × Json) → Except DocumentError Signature
  | [] => .error (.missingKey key)
  | (other, value) :: rest => if other = key then ofJson value else ofMember key rest

end

end Signature

namespace Formula

mutual

/-- Reading a formula. -/
def ofJson : Json → Except DocumentError Formula
  | .obj members =>
    match Json.memberOf? "type" members with
    | none => .error (.missingKey "type")
    | some kind =>
      if kind = word "symbol" then do
        let ref ← Json.indexField .symbol "ref" (.obj members)
        return .symbol ref
      else if kind = word "var" then do
        let ref ← Json.indexField .variable "ref" (.obj members)
        return .var ref
      else if kind = word "application" then do
        let f ← ofMember "function" members
        let x ← ofMember "argument" members
        return .app f x
      else if kind = word "definition" then do
        let ref ← Json.indexField .definition "ref" (.obj members)
        let inputs ← listOfMember "inputs" members
        return .definition ref inputs
      else .error (.unknownType .formula kind)
  | _ => .error .wrongShape

/-- Reading the formula in a part of an object. -/
def ofMember (key : Text) : List (Text × Json) → Except DocumentError Formula
  | [] => .error (.missingKey key)
  | (other, value) :: rest => if other = key then ofJson value else ofMember key rest

/-- Reading the formulas in a part of an object. -/
def listOfMember (key : Text) : List (Text × Json) → Except DocumentError (List Formula)
  | [] => .error (.missingKey key)
  | (other, value) :: rest => if other = key then listOfJson value else listOfMember key rest

/-- Reading a list of formulas.  Characters and keys are no formulas, so of texts and objects only
the empty ones can be read. -/
def listOfJson : Json → Except DocumentError (List Formula)
  | .arr values => ofAll values
  | .str s => if s.isEmpty then .ok [] else .error .wrongShape
  | .obj members => if members.isEmpty then .ok [] else .error .wrongShape
  | _ => .error .wrongShape

/-- Reading formulas one by one. -/
def ofAll : List Json → Except DocumentError (List Formula)
  | [] => .ok []
  | j :: js => do
    let f ← ofJson j
    let fs ← ofAll js
    return f :: fs

end

end Formula

/-- Reading a justification. -/
def Justification.ofJson (j : Json) : Except DocumentError Justification := do
  let kind ← j.field "type"
  if kind = word "axiom" then do
    let ref ← j.indexField .ofAxiom "ref"
    return .rule (.ofAxiom ref)
  else if kind = word "theorem" then do
    let ref ← j.indexField .ofTheorem "ref"
    return .rule (.ofTheorem ref)
  else if kind = word "hypothesis" then do
    let index ← j.indexField .hypothesis "index"
    return .hypothesis index
  else if kind = word "definition" then return .definition
  else if kind = word "function_application" then return .functionApplication
  else if kind = word "substitution" then return .substitution
  else .error (.unknownType .justification kind)

/-! ## Declarations -/

/-- Reading a variable. -/
def Variable.ofJson (j : Json) : Except DocumentError Variable := do
  let id ← j.field "id"
  let signature ← j.field "signature"
  let signature ← Signature.ofJson signature
  return ⟨id, signature⟩

/-- Reading a step. -/
def Step.ofJson (j : Json) : Except DocumentError Step := do
  let justification ← j.field "justification"
  let justification ← Justification.ofJson justification
  let formula ← j.field "formula"
  let formula ← Formula.ofJson formula
  return ⟨justification, formula⟩

/-- Reading a flag. -/
def Flag.ofJson (j : Json) : Except DocumentError Flag :=
  match Flag.all.find? fun flag => j = word flag.name with
  | some flag => .ok flag
  | none => .error (.unknownFlag j)

/-- Reading the entries of a list in a part of an object. -/
def readList {α : Type} (read : Json → Except DocumentError α) (key : Text) (j : Json) :
    Except DocumentError (List α) := do
  let values ← j.listField key
  readAll read values

/-- Reading a system. -/
def SystemDecl.ofJson (j : Json) : Except DocumentError SystemDecl := do
  let id ← j.field "id"
  return ⟨id⟩

/-- Reading a type. -/
def TypeDecl.ofJson (j : Json) : Except DocumentError TypeDecl := do
  let id ← j.field "id"
  let system ← j.indexField .system "system"
  return ⟨id, system⟩

/-- Reading a symbol. -/
def SymbolDecl.ofJson (j : Json) : Except DocumentError SymbolDecl := do
  let id ← j.field "id"
  let system ← j.indexField .system "system"
  let signature ← j.field "signature"
  let signature ← Signature.ofJson signature
  return ⟨id, system, signature⟩

/-- Reading a definition. -/
def Definition.ofJson (j : Json) : Except DocumentError Definition := do
  let id ← j.field "id"
  let system ← j.indexField .system "system"
  let inputs ← readList Variable.ofJson "inputs" j
  let expansion ← j.field "expansion"
  let expansion ← Formula.ofJson expansion
  return ⟨id, system, inputs, expansion⟩

/-- Reading an axiom or a theorem. -/
def Rule.ofJson (j : Json) : Except DocumentError Rule := do
  let id ← j.field "id"
  let system ← j.indexField .system "system"
  let scope ← readList Variable.ofJson "variables" j
  let premises ← readList Formula.ofJson "premises" j
  let assertion ← j.field "assertion"
  let assertion ← Formula.ofJson assertion
  let flags ← readList Flag.ofJson "flags" j
  return ⟨id, system, scope, premises, assertion, flags⟩

/-- Reading a proof. -/
def Proof.ofJson (j : Json) : Except DocumentError Proof := do
  let theoremRef ← j.indexField .ofTheorem "theorem"
  let steps ← readList Step.ofJson "steps" j
  return ⟨theoremRef, steps⟩

namespace Directory

/-- Reading a directory from an object. -/
def ofJson (j : Json) : Except DocumentError Directory := do
  let systems ← readList SystemDecl.ofJson "systems" j
  let types ← readList TypeDecl.ofJson "types" j
  let symbols ← readList SymbolDecl.ofJson "symbols" j
  let definitions ← readList Definition.ofJson "definitions" j
  let axioms ← readList Rule.ofJson "axioms" j
  let theorems ← readList Rule.ofJson "theorems" j
  let proofs ← readList Proof.ofJson "proofs" j
  return ⟨systems, types, symbols, definitions, axioms, theorems, proofs⟩

/-- Reading a directory from a text, with a limit on the digits of integers if one is given. -/
def load (text : String) (maxDigits : Option Nat := none) : Except DocumentError Directory :=
  match Json.parse text.toList maxDigits with
  | .error .malformed => .error .notJson
  | .error (.tooManyDigits excess) => .error (.tooManyDigits excess)
  | .ok (.obj members) => ofJson (.obj members)
  | .ok _ => .error .notObject

end Directory

end Deduction
