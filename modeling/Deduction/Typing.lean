import Deduction.Directory
import Deduction.Fault

/-!
# Signatures of formulas

A formula is checked and given a signature in one pass.  Symbols and variables have their declared
signatures; an application needs a function whose input is exactly the signature of the argument; a
definition needs inputs of the signatures it declares, and then has the signature of its expansion.
Where something is wrong the pass notes a fault at the position of the node and goes on with the
other parts.  A part without a signature causes no further faults above it.

The signature of an expansion is that of the formula in the scope of the definition's inputs, and
there only definitions declared *before* the definition may be used.  So a body leads to bodies of
strictly smaller positions, and the number of definitions bounds how often that can happen.

Many formulas use the same definitions.  `SignatureMemo` remembers the signatures of the expansions
that were already computed; it is passed along from one formula to the next, and what it holds does
not change any answer.

The limit of a host on the depth of recursion is left out: signatures of any depth are compared, and
the expansions of definitions may be nested to any depth.

* `Formula.analyse`: the pass over one formula.
* `Directory.bodySignature`, `Directory.definitionSignature`: the signature of an expansion and the
  one that a definition declares.
* `Directory.formulaFaults`: the faults of a formula, each with its path.
-/

namespace Deduction

/-! ## What is known of a formula -/

/-- The outcome of the pass over a formula: its signature, if it has one, and the faults by their
positions. -/
structure Analysis where
  signature : Option Signature
  faults : List (Formula.Position × ErrorKind)
  deriving DecidableEq, Repr

namespace Analysis

/-- The faults of a part, seen from the formula it is a part of. -/
def faultsUnder (branch : Formula.Branch) (part : Analysis) :
    List (Formula.Position × ErrorKind) :=
  part.faults.map fun fault => (branch :: fault.1, fault.2)

/-- A node whose only fault is its own. -/
def blame (kind : ErrorKind) : Analysis := ⟨none, [([], kind)]⟩

/-- An application from its two parts. -/
def ofParts (function argument : Analysis) : Analysis :=
  let below := function.faultsUnder .function ++ argument.faultsUnder .argument
  match function.signature, argument.signature with
  | some (.arrow input output), some actual =>
    if input = actual then ⟨some output, below⟩
    else ⟨none, below ++ [([.argument], .applicationTypeMismatch)]⟩
  | some (.ground _), some _ => ⟨none, below ++ [([], .applicationNotFunction)]⟩
  | _, _ => ⟨none, below⟩

/-- The faults of inputs that are counted from `index`. -/
def inputFaults (index : Nat) : List Analysis → List (Formula.Position × ErrorKind)
  | [] => []
  | part :: parts => part.faultsUnder (.input index) ++ inputFaults (index + 1) parts

/-- The inputs whose signature is known and is not the declared one. -/
def inputMismatches (index : Nat) :
    List Variable → List Analysis → List (Formula.Position × ErrorKind)
  | formal :: formals, part :: parts =>
    let rest := inputMismatches (index + 1) formals parts
    match part.signature with
    | none => rest
    | some actual =>
      if actual = formal.signature then rest
      else ([.input index], .definitionInputTypeMismatch) :: rest
  | _, _ => []

/-- Whether every input has the declared signature. -/
def inputsFit (formals : List Variable) (parts : List Analysis) : Bool :=
  (formals.zip parts).all fun pair => pair.2.signature == some pair.1.signature

end Analysis

/-! ## The memo -/

/-- The signatures of the expansions that are already known, by position. -/
structure SignatureMemo where
  entries : List (Ref × Option Signature) := []
  deriving DecidableEq, Repr

namespace SignatureMemo

/-- What is known of an expansion. -/
def find? (memo : SignatureMemo) (ref : Ref) : Option (Option Signature) :=
  memo.entries.lookup ref

/-- The memo with one expansion more. -/
def insert (memo : SignatureMemo) (ref : Ref) (signature : Option Signature) : SignatureMemo :=
  ⟨(ref, signature) :: memo.entries⟩

@[simp] theorem find?_insert_self (memo : SignatureMemo) (ref : Ref)
    (signature : Option Signature) : (memo.insert ref signature).find? ref = some signature := by
  simp [find?, insert]

theorem find?_insert_of_ne (memo : SignatureMemo) {ref other : Ref} (h : other ≠ ref)
    (signature : Option Signature) :
    (memo.insert ref signature).find? other = memo.find? other := by
  have hb : (other == ref) = false := by simpa using h
  simp [find?, insert, List.lookup_cons, hb]

/-- The remembered signature of an expansion, or the computed one, which is then remembered. -/
def lookUp (ref : Ref) (compute : StateM SignatureMemo (Option Signature)) :
    StateM SignatureMemo (Option Signature) := do
  match (← get).find? ref with
  | some known => return known
  | none =>
    let signature ← compute
    modify fun memo => memo.insert ref signature
    return signature

end SignatureMemo

/-! ## The pass over a formula -/

/-- The definition that a node may use, or what is wrong with its reference: it does not resolve, it
is not before the limit, or the number of inputs is not the declared one. -/
def Directory.usable (D : Directory) (limit : Option Ref) (ref : Ref) (count : Nat) :
    Except ErrorKind Definition :=
  match D.definition? ref with
  | none => .error .invalidDefinitionRef
  | some d =>
    if limit.any (· ≤ ref) then .error .definitionForwardReference
    else if d.arity ≠ count then .error .definitionWrongArity
    else .ok d

namespace Formula

mutual

/-- The pass over a formula in a scope.  Definitions must be declared before the limit, if there is
one; `body` gives the signatures of their expansions. -/
def analyse (D : Directory) (scope : List Variable) (limit : Option Ref)
    (body : Ref → StateM SignatureMemo (Option Signature)) :
    Formula → StateM SignatureMemo Analysis
  | .symbol ref =>
    match D.symbol? ref with
    | none => return .blame .invalidSymbolRef
    | some s => return ⟨some s.signature, []⟩
  | .var ref =>
    match itemAt? scope ref with
    | none => return .blame .invalidVariableRef
    | some v => return ⟨some v.signature, []⟩
  | .app f x => do
    let function ← analyse D scope limit body f
    let argument ← analyse D scope limit body x
    return .ofParts function argument
  | .definition ref inputs => do
    let parts ← analyseAll D scope limit body inputs
    let below := Analysis.inputFaults 0 parts
    match D.usable limit ref inputs.length with
    | .error kind => return ⟨none, ([], kind) :: below⟩
    | .ok d =>
      if Analysis.inputsFit d.inputs parts then
        let signature ← body ref
        return ⟨signature, below⟩
      else return ⟨none, below ++ Analysis.inputMismatches 0 d.inputs parts⟩

/-- The pass over a list of formulas, from left to right. -/
def analyseAll (D : Directory) (scope : List Variable) (limit : Option Ref)
    (body : Ref → StateM SignatureMemo (Option Signature)) :
    List Formula → StateM SignatureMemo (List Analysis)
  | [] => return []
  | x :: xs => do
    let part ← analyse D scope limit body x
    let parts ← analyseAll D scope limit body xs
    return part :: parts

end

end Formula

namespace Directory

variable (D : Directory)

/-- The signature of an expansion, through at most so many expansions inside each other. -/
def bodySignatureWithin : Nat → Ref → StateM SignatureMemo (Option Signature)
  | 0, ref => SignatureMemo.lookUp ref (return none)
  | bound + 1, ref => SignatureMemo.lookUp ref do
    match D.definition? ref with
    | none => return none
    | some d =>
      let analysis ← d.expansion.analyse D d.inputs (some ref) (bodySignatureWithin bound)
      return analysis.signature

/-- The signature of a definition applied to all of its inputs. -/
def bodySignature (ref : Ref) : StateM SignatureMemo (Option Signature) :=
  D.bodySignatureWithin D.definitions.length ref

/-- The signature that a definition declares: that of its expansion behind those of its inputs. -/
def definitionSignature (ref : Ref) : StateM SignatureMemo (Option Signature) := do
  let body ← D.bodySignature ref
  return (D.definition? ref).bind fun d =>
    body.map fun s => s.extend (d.inputs.map Variable.signature)

/-- The pass over a formula of the directory. -/
def analyse (scope : List Variable) (limit : Option Ref) (f : Formula) :
    StateM SignatureMemo Analysis :=
  f.analyse D scope limit D.bodySignature

/-- A fault with its path behind a base.  Without a base, a fault at the root has no path. -/
def locate (base : String) (fault : Formula.Position × ErrorKind) : Fault :=
  let text := fault.1.text base
  ⟨fault.2, if text.isEmpty then none else some text⟩

/-! ## Faults of declarations -/

/-- The faults of a formula whose path in its declaration is `base`. -/
def formulaFaults (scope : List Variable) (base : String) (limit : Option Ref) (f : Formula) :
    List Fault :=
  ((D.analyse scope limit f).run {}).1.faults.map (locate base)

/-- One fault for every type of a signature that does not resolve. -/
def signatureFaults (s : Signature) : List Fault :=
  (s.typeRefs.filter fun ref => (D.type? ref).isNone).map fun _ => ⟨.invalidTypeRef, none⟩

/-- The fault of a declaration whose system does not resolve. -/
def systemFaults (ref : Ref) : List Fault :=
  if (D.system? ref).isNone then [⟨.invalidSystemRef, some "system"⟩] else []

/-- The faults of the signatures of a scope. -/
def scopeFaults (scope : List Variable) : List Fault :=
  scope.zipIdx.flatMap fun v =>
    (D.signatureFaults v.1.signature).map fun fault =>
      { fault with path := some s!"variables[{v.2}]" }

end Directory

end Deduction
