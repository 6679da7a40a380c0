import Deduction.Json.Display
import Deduction.Log
import Deduction.Number.DigitLimit
import Deduction.Text.Blank
import Deduction.Text.Digit

/-!
# Settings

Two environment variables say from which severity on log entries are shown and how many errors a
report lists.  Blanks around a value do not count.  Where the environment comes from is not looked
at.

A severity may be written in small or capital letters.  A limit is a number above zero, in the
decimal digits of any script.  There are characters that are digits and yet no decimal digits, such
as raised or circled ones.  A limit of digits that has one of these is not refused like other text:
reading the number fails.  The message quotes the digits, up to a length.

Reading the number also fails if it has more digits than the host allows.  Digits are counted up to
the first one that is not decimal.
-/

namespace Deduction

/-- What can be set. -/
structure Settings where
  severity : Severity := .warning
  maxErrors : Nat := 50
  deriving DecidableEq, Repr

/-- Why there are no settings. -/
inductive SettingsError where
  /-- There is no such severity. -/
  | badSeverity
  /-- The limit is no number above zero. -/
  | badLimit
  /-- The limit is made of digits, but not of decimal ones. -/
  | notDecimal (text : String)
  /-- The limit has too many digits. -/
  | tooManyDigits (excess : DigitExcess)
  deriving DecidableEq, Repr

namespace SettingsError

/-- How many characters of a quoted number a message shows. -/
def shownLength : Nat := 200

/-- The wording of each cause. -/
def message : SettingsError → String
  | .badSeverity =>
    "PROOFCORE_LOG_LEVEL must be one of ('DEBUG', 'INFO', 'WARNING', 'ERROR', 'CRITICAL')"
  | .badLimit => "PROOFCORE_MAX_REPORTED_ERRORS must be a positive integer."
  | .notDecimal text =>
    let shown := String.ofList ((Text.quoted text).toList.take shownLength)
    s!"invalid literal for int() with base 10: {shown}"
  | .tooManyDigits excess => excess.message

/-- Whether a cause is no verdict on a value, but a number that could not be read. -/
def isFailure : SettingsError → Bool
  | .badSeverity | .badLimit => false
  | .notDecimal _ | .tooManyDigits _ => true

end SettingsError

/-- The variable for the severity from which on log entries are shown. -/
def severityVariable : String := "PROOFCORE_LOG_LEVEL"

/-- The variable for the number of errors that a report lists. -/
def limitVariable : String := "PROOFCORE_MAX_REPORTED_ERRORS"

/-- The capital of a letter, where that is a plain Latin one; the dotless i and the long s have such
capitals too. -/
def latinCapital (c : Char) : Char :=
  if c = 'ı' then 'I' else if c = 'ſ' then 'S' else c.toUpper

namespace Settings

/-- Reading the severity. -/
def readSeverity (value : String) : Except SettingsError Severity :=
  let text := (Text.trimBlanks value.toList).map latinCapital
  match Severity.ofName? (String.ofList text) with
  | some severity => .ok severity
  | none => .error .badSeverity

/-- Reading the limit, on a host that may bound the digits of numbers. -/
def readLimit (value : String) (maxDigits : Option Nat := none) : Except SettingsError Nat :=
  let text := Text.trimBlanks value.toList
  if text.isEmpty || !text.all Text.isDigit then .error .badLimit
  else
    match DigitExcess.of? maxDigits (Text.leadingDecimals text).length with
    | some excess => .error (.tooManyDigits excess)
    | none =>
      match Text.decimalNumber? text with
      | none => .error (.notDecimal (String.ofList text))
      | some limit => if 0 < limit then .ok limit else .error .badLimit

/-- Reading the settings from an environment.  The severity is read first. -/
def ofEnvironment (lookup : String → Option String) (maxDigits : Option Nat := none) :
    Except SettingsError Settings := do
  let severity ← readSeverity ((lookup severityVariable).getD "WARNING")
  let maxErrors ← readLimit ((lookup limitVariable).getD "50") maxDigits
  return ⟨severity, maxErrors⟩

end Settings

end Deduction
