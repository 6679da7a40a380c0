/-!
# Log entries

A log entry has a severity, and entries below a threshold are not shown.  A shown entry is one line:
its severity, its source and its message, with colons between them.
-/

namespace Deduction

/-- How serious a log entry is, the least serious first. -/
inductive Severity where
  | debug
  | info
  | warning
  | error
  | critical
  deriving DecidableEq, Repr

namespace Severity

/-- All severities. -/
def all : List Severity := [.debug, .info, .warning, .error, .critical]

/-- The word for a severity. -/
def name : Severity → String
  | .debug => "DEBUG"
  | .info => "INFO"
  | .warning => "WARNING"
  | .error => "ERROR"
  | .critical => "CRITICAL"

/-- The number of a severity; greater is more serious. -/
def level : Severity → Nat
  | .debug => 10
  | .info => 20
  | .warning => 30
  | .error => 40
  | .critical => 50

/-- The severity of a word. -/
def ofName? (s : String) : Option Severity := all.find? fun severity => severity.name == s

@[simp] theorem ofName?_name (severity : Severity) : ofName? severity.name = some severity := by
  cases severity <;> decide

end Severity

/-- Something that was noted while a document was checked. -/
structure LogEntry where
  severity : Severity
  message : String
  deriving DecidableEq, Repr

namespace LogEntry

/-- What notes the entries. -/
def source : String := "proofcore.checker"

/-- The line of an entry. -/
def line (entry : LogEntry) : String := s!"{entry.severity.name}:{source}:{entry.message}"

/-- The lines of the entries that reach a threshold. -/
def shown (threshold : Severity) (entries : List LogEntry) : List String :=
  (entries.filter fun entry => threshold.level ≤ entry.severity.level).map line

end LogEntry

end Deduction
