import Deduction.Contract
import Deduction.Settings

/-!
# Hosts

A command is run on a host, and there are three things that a host may not be able to do: make an
integer of more than a number of digits, say 4300, find the stack for a document that is nested or
defined very deeply, and write a report, say because half of a surrogate pair has no bytes.  None of
them is a matter of documents, so a host is a parameter of every run.  A host says itself why it
could not go on with a run (`ε`); a failure that is not its own it only passes on (`Host.tell`).

`Host.boundless` can do everything.
-/

namespace Deduction

namespace CommandLine

/-- Why a run broke off. -/
inductive Failure where
  /-- A path holds the character zero. -/
  | zeroInPath (path : String)
  /-- A file is not UTF-8. -/
  | undecodable (path : String)
  /-- The number of errors to report could not be read. -/
  | settings (cause : SettingsError)
  /-- Checking relied on something that was not established. -/
  | contract (cause : ContractError)
  deriving DecidableEq, Repr

/-- The wording of each cause. -/
def Failure.message : Failure → String
  | .zeroInPath _ => "embedded null byte"
  | .undecodable path => s!"{path}: not UTF-8"
  | .settings cause => cause.message
  | .contract cause => cause.message

/-- What a command is run on. -/
structure Host (ε : Type) where
  /-- The most digits of an integer, if there is a limit. -/
  maxDigits : Option Nat
  /-- How a failure of the run is passed on. -/
  tell : Failure → ε
  /-- Whether there is stack enough for reading, checking and reporting on the document in a text,
  which is given with its path. -/
  bear : (path text : String) → Except ε Unit
  /-- Whether the report on a path can be written. -/
  write : (path : String) → (report : Text) → Except ε Unit

/-- The host without limits. -/
def Host.boundless : Host Failure where
  maxDigits := none
  tell := id
  bear _ _ := .ok ()
  write _ _ := .ok ()

end CommandLine

end Deduction
