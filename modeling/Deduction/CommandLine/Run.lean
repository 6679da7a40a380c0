import Deduction.CommandLine.Arguments
import Deduction.CommandLine.Files
import Deduction.CommandLine.Host
import Deduction.Document.Decode
import Deduction.Report

/-!
# Running the command

Files are checked one after the other, whatever came of the ones before.  A file that cannot be read
and a text that is no document are noted, and a document is reported on.  The exit code is the worst
thing that happened: 0 if all documents are valid, 1 if one is not, 2 if a file was no document.

Bytes that are not UTF-8 end the run, and so does a path that holds the character zero, or a host
that cannot go on.  Paths are strings of characters.  Log entries of the severity debug are not part
of what is noted.
-/

namespace Deduction

namespace CommandLine

/-- What a run writes and notes, and how it ends. -/
structure Output where
  code : Nat := 0
  out : Text := ""
  err : List Text := []
  deriving DecidableEq, Repr

namespace Output

/-- The output of two runs, one after the other. -/
def append (first second : Output) : Output :=
  ⟨max first.code second.code, first.out ++ second.out, first.err ++ second.err⟩

/-- A run that notes something about a path and ends badly. -/
def complaint (path : String) (message : Text) : Output := ⟨2, "", [s!"{path}: " ++ message]⟩

end Output

section

variable {ε : Type} (host : Host ε) (settings : Settings) (verbose : Bool)

/-- Checking the document in a text. -/
def checkText (path text : String) : Except ε Output := do
  host.bear path text
  match Directory.load text host.maxDigits with
  | .error cause => return .complaint path ("malformed document: " ++ cause.message)
  | .ok D =>
    match D.check with
    | .error cause => .error (host.tell (.contract cause))
    | .ok result =>
      let report := D.report ⟨path, settings.maxErrors, verbose⟩ result
      host.write path report
      return ⟨if result.isValid then 0 else 1, report ++ "\n",
        (LogEntry.shown settings.severity [result.logEntry D.proofs.length]).map Text.ofString⟩

/-- Checking what was read from a path. -/
def checkFile (path : String) (content : Except ReadError ByteArray) : Except ε Output :=
  if path.toList.contains '\x00' then .error (host.tell (.zeroInPath path))
  else
    match content with
    | .error cause => .ok (.complaint path s!"could not read file: {cause.message path}")
    | .ok bytes =>
      match String.fromUTF8? bytes with
      | none => .error (host.tell (.undecodable path))
      | some text => checkText host settings verbose path text

/-- Checking files in order. -/
def checkFiles : List (String × Except ReadError ByteArray) → Except ε Output
  | [] => .ok {}
  | (path, content) :: rest => do
    let first ← checkFile host settings verbose path content
    let second ← checkFiles rest
    return first.append second

end

/-- What a command line comes to. -/
inductive Response where
  /-- A text about how to use the command, and an exit code. -/
  | usage (code : Nat)
  /-- A run. -/
  | ran (output : Output)
  deriving DecidableEq, Repr

/-- Answering a command line on a host.  Arguments are read before settings. -/
def respondOn {ε : Type} (host : Host ε) (args : List String) (environment : String → Option String)
    (read : String → Except ReadError ByteArray) : Except ε Response :=
  match Request.ofArguments args with
  | .help => .ok (.usage 0)
  | .refused => .ok (.usage 2)
  | .nothing =>
    match Settings.ofEnvironment environment host.maxDigits with
    | .error cause =>
      if cause.isFailure then .error (host.tell (.settings cause)) else .ok (.usage 2)
    | .ok _ => .ok (.usage 1)
  | .check files verbose =>
    match Settings.ofEnvironment environment host.maxDigits with
    | .error cause =>
      if cause.isFailure then .error (host.tell (.settings cause))
      else .ok (.ran ⟨2, "", [s!"Error reading settings: {cause.message}"]⟩)
    | .ok settings => do
      let output ← checkFiles host settings verbose (files.map fun path => (path, read path))
      return .ran output

/-- Answering a command line on a host without limits. -/
def respond (args : List String) (environment : String → Option String)
    (read : String → Except ReadError ByteArray) : Except Failure Response :=
  respondOn .boundless args environment read

end CommandLine

end Deduction
