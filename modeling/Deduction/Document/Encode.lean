import Deduction.Directory
import Deduction.Json.Printer

/-!
# Writing documents

Every node of a document is an object with a `type` and then its parts, in a fixed order.  All
references are positions.
-/

namespace Deduction

open Json (word)

namespace Signature

/-- The object of a signature. -/
def toJson : Signature → Json
  | .ground type => .obj [("type", word "ground"), ("ref", .int type)]
  | .arrow input output =>
    .obj [("type", word "compound"), ("input", toJson input), ("output", toJson output)]

end Signature

namespace Formula

mutual

/-- The object of a formula. -/
def toJson : Formula → Json
  | .symbol ref => .obj [("type", word "symbol"), ("ref", .int ref)]
  | .var ref => .obj [("type", word "var"), ("ref", .int ref)]
  | .app f x =>
    .obj [("type", word "application"), ("function", toJson f), ("argument", toJson x)]
  | .definition ref inputs =>
    .obj [("type", word "definition"), ("ref", .int ref), ("inputs", .arr (toJsonAll inputs))]

/-- The objects of a list of formulas. -/
def toJsonAll : List Formula → List Json
  | [] => []
  | f :: fs => toJson f :: toJsonAll fs

end

/-- A list is written formula by formula. -/
theorem toJsonAll_eq_map (fs : List Formula) : toJsonAll fs = fs.map toJson := by
  induction fs with
  | nil => rfl
  | cons f fs ih => rw [toJsonAll, ih, List.map_cons]

end Formula

/-- The object of a variable. -/
def Variable.toJson (v : Variable) : Json :=
  .obj [("type", word "variable"), ("id", v.id), ("signature", v.signature.toJson)]

/-- The object of a justification. -/
def Justification.toJson : Justification → Json
  | .rule (.ofAxiom ref) => .obj [("type", word "axiom"), ("ref", .int ref)]
  | .rule (.ofTheorem ref) => .obj [("type", word "theorem"), ("ref", .int ref)]
  | .hypothesis index => .obj [("type", word "hypothesis"), ("index", .int index)]
  | .definition => .obj [("type", word "definition")]
  | .functionApplication => .obj [("type", word "function_application")]
  | .substitution => .obj [("type", word "substitution")]

/-- The object of a step. -/
def Step.toJson (s : Step) : Json :=
  .obj [("type", word "step"), ("justification", s.justification.toJson),
    ("formula", s.formula.toJson)]

/-- The object of a system. -/
def SystemDecl.toJson (s : SystemDecl) : Json :=
  .obj [("type", word "system"), ("id", s.id)]

/-- The object of a type. -/
def TypeDecl.toJson (t : TypeDecl) : Json :=
  .obj [("type", word "type"), ("id", t.id), ("system", .int t.system)]

/-- The object of a symbol. -/
def SymbolDecl.toJson (s : SymbolDecl) : Json :=
  .obj [("type", word "symbol"), ("id", s.id), ("system", .int s.system),
    ("signature", s.signature.toJson)]

/-- The object of a definition. -/
def Definition.toJson (d : Definition) : Json :=
  .obj [("type", word "definition"), ("id", d.id), ("system", .int d.system),
    ("inputs", .arr (d.inputs.map Variable.toJson)), ("expansion", d.expansion.toJson)]

/-- The object of a rule; `type` says whether it is an axiom or a theorem. -/
def Rule.toJson (type : String) (r : Rule) : Json :=
  .obj [("type", word type), ("id", r.id), ("system", .int r.system),
    ("variables", .arr (r.scope.map Variable.toJson)),
    ("premises", .arr (r.premises.map Formula.toJson)), ("assertion", r.assertion.toJson),
    ("flags", .arr (r.flags.map fun f => word f.name))]

/-- The object of a proof. -/
def Proof.toJson (p : Proof) : Json :=
  .obj [("type", word "proof"), ("theorem", .int p.theoremRef),
    ("steps", .arr (p.steps.map Step.toJson))]

namespace Directory

/-- The object of a directory. -/
def toJson (D : Directory) : Json :=
  .obj [("type", word "document"),
    ("systems", .arr (D.systems.map SystemDecl.toJson)),
    ("types", .arr (D.types.map TypeDecl.toJson)),
    ("symbols", .arr (D.symbols.map SymbolDecl.toJson)),
    ("definitions", .arr (D.definitions.map Definition.toJson)),
    ("axioms", .arr (D.axioms.map (Rule.toJson "axiom"))),
    ("theorems", .arr (D.theorems.map (Rule.toJson "theorem"))),
    ("proofs", .arr (D.proofs.map Proof.toJson))]

/-- The text of a directory. -/
def save (D : Directory) : String := D.toJson.pretty

end Directory

end Deduction
