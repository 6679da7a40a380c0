import Deduction.Checker
import Deduction.Json.Display

/-!
# Reports

A report tells in plain lines what came of checking a document: the verdict, what the document
holds, the errors with the names that it gives to things, and, if asked for, the steps that were
synthesized for macros.

Only so many errors are listed, and a last line says how many more there are.  A limit below zero
leaves out that many errors from the end of the list.
-/

namespace Deduction

/-! ## Names -/

/-- Whether a value says nothing: nothing, zero, or an empty text, list or object. -/
def Json.isVoid : Json → Bool
  | .null => true
  | .bool b => !b
  | .int n => n == 0
  | .float (.finite _ mantissa _) => mantissa == 0
  | .float _ => false
  | .str s => s.isEmpty
  | .arr values => values.isEmpty
  | .obj members => members.isEmpty

namespace Directory

variable (D : Directory)

/-- The document's name for what an error is about.  A proof goes by the name of its theorem. -/
def nameOf? (subject : Subject) : Option Name :=
  match subject.kind with
  | .type => (D.type? subject.index).map TypeDecl.id
  | .symbol => (D.symbol? subject.index).map SymbolDecl.id
  | .definition => (D.definition? subject.index).map Definition.id
  | .ofAxiom => (D.rule? (.ofAxiom subject.index)).map Rule.id
  | .ofTheorem => (D.rule? (.ofTheorem subject.index)).map Rule.id
  | .proof => do
    let proof ← D.proof? subject.index
    let rule ← D.rule? (.ofTheorem proof.theoremRef)
    return .str ("proof of " ++ rule.id.plain)

/-- How a synthesized step is listed: by the name of the rule that it cites. -/
def stepName (step : Step) : Text :=
  match step.justification with
  | .rule ref =>
    match D.rule? ref with
    | some rule => rule.id.plain
    | none => ref.describe
  | other => other.label

end Directory

/-! ## Lines -/

/-- How a report is to be written. -/
structure ReportOptions where
  name : Text
  maxErrors : Int := 50
  verbose : Bool := false
  deriving DecidableEq, Repr

/-- The first entries of a list, or all but the last ones if the number is below zero. -/
def firstEntries {α : Type} (count : Int) (entries : List α) : List α :=
  entries.take (if count < 0 then (entries.length + count).toNat else count.toNat)

/-- The line of an error. -/
def Directory.errorLine (D : Directory) (e : Error) : Text :=
  let name := (D.nameOf? e.subject).getD .null
  let named : Text := if name.isVoid then "" else " '" ++ name.plain ++ "'"
  let path := e.path.getD ""
  let located := if path.isEmpty then "" else s!" at {path}"
  s!"    - [{e.kind.name}] {e.subject.describe}" ++ named ++ located

/-- The lines about the errors of a result. -/
def Directory.errorLines (D : Directory) (maxErrors : Int) (result : CheckResult) : List Text :=
  if result.isValid then []
  else
    let total := result.errors.length
    let plural := if total = 1 then "" else "s"
    let heading : Text := s!"  {total} error{plural} in {result.phase.name} phase"
    let hidden := total - maxErrors
    let more : List Text := if 0 < hidden then [s!"    ... {hidden} more"] else []
    heading :: (firstEntries maxErrors result.errors).map D.errorLine ++ more

/-- The entries of an association list by ascending keys. -/
def byKey {α : Type} (entries : List (Int × α)) : List (Int × α) :=
  entries.mergeSort fun a b => a.1 ≤ b.1

/-- The lines about synthesized steps, one for every macro step that needed some. -/
def Directory.chainLines (D : Directory) (chains : List (Ref × Chains)) : List Text :=
  (byKey chains).flatMap fun proof =>
    ((byKey proof.2).filter fun step => !step.2.isEmpty).map fun step =>
      s!"    proof #{proof.1} step {step.1 + 1}: " ++ Text.intercalate ", " (step.2.map D.stepName)

/-- A text without the line ends that it ends in. -/
def trimLineEnds (text : Text) : Text :=
  ⟨(text.units.reverse.dropWhile (· == 0x0a)).reverse⟩

/-- The report on a result. -/
def Directory.report (D : Directory) (options : ReportOptions) (result : CheckResult) : Text :=
  let verdict := if result.isValid then "valid" else "INVALID"
  let heading : List Text :=
    [options.name ++ s!": {verdict}",
      s!"  {D.axioms.length} axioms, {D.theorems.length} theorems, {D.proofs.length} proofs"]
  let chains := if options.verbose then D.chainLines result.chains else []
  let synthesized : List Text := if chains.isEmpty then [] else "  Synthesized steps:" :: chains
  trimLineEnds
    (Text.intercalate "\n" (heading ++ D.errorLines options.maxErrors result ++ synthesized))

end Deduction
