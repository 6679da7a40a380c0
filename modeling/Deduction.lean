import Deduction.Arithmetic
import Deduction.Checker
import Deduction.CommandLine.Arguments
import Deduction.CommandLine.Files
import Deduction.CommandLine.Host
import Deduction.CommandLine.Run
import Deduction.Contract
import Deduction.Directory
import Deduction.Document.Decode
import Deduction.Document.Encode
import Deduction.Draft
import Deduction.Fault
import Deduction.Formula.Basic
import Deduction.Formula.Spine
import Deduction.Json.Basic
import Deduction.Json.Display
import Deduction.Json.Parser
import Deduction.Json.Printer
import Deduction.Justification
import Deduction.Log
import Deduction.Main
import Deduction.Matching
import Deduction.Number.Binary64
import Deduction.Number.DigitLimit
import Deduction.Number.Notation
import Deduction.Number.Shortest
import Deduction.Proof.Derivation
import Deduction.Proof.Structure
import Deduction.Proofs.Substitution
import Deduction.Proofs.Typing.Memo
import Deduction.Proofs.Unfolding
import Deduction.Ref
import Deduction.Registry.Basic
import Deduction.Registry.Laws
import Deduction.Report
import Deduction.Settings
import Deduction.Signature
import Deduction.Synthesis
import Deduction.Text.Basic
import Deduction.Text.Blank
import Deduction.Text.Digit
import Deduction.Text.Printable
import Deduction.Typing
import Deduction.Unfolding
import Deduction.Proofs.Typing.Relation
import Deduction.Proofs.Typing.Preservation
import Deduction.Proofs.Matching
import Deduction.Proofs.Registry
import Deduction.Proofs.Verification
import Deduction.Proofs.Derivation
import Deduction.Proofs.Checking
import Deduction.Proofs.Soundness
import Deduction.Proofs.Extension
import Deduction.Proofs.MacroElimination
import Deduction.Proofs.Instances
import Deduction.Proofs.Generality
import Deduction.Proofs.Chains
import Deduction.Proofs.Json.RoundTrip
import Deduction.Proofs.Document.RoundTrip
import Deduction.Proofs.Registration
import Deduction.Proofs.Renaming
import Deduction.Proofs.Reordering
import Deduction.Proofs.Typing.Queries
import Deduction.Proofs.Typing.Faults
import Deduction.Proofs.WriteOnce
import Deduction.Proofs.FirstLaws
import Deduction.Proofs.Conservativity
import Deduction.Proofs.Compatibility
import Deduction.Proofs.Citation
import Deduction.Proofs.CongruenceClosure
import Deduction.Proofs.Reports
import Deduction.Proofs.Search
import Deduction.Proofs.Freshness
import Deduction.Proofs.MiddleTerm
import Deduction.Proofs.Arity
import Deduction.Proofs.Facing
import Deduction.Proofs.Merging
import Deduction.Proofs.Document.Reading
import Deduction.Proofs.Drafting
import Deduction.Proofs.Spines
import Deduction.Proofs.Composition
import Deduction.Proofs.Settings
import Deduction.Proofs.CommandLine.ExitCode
