import Deduction.CommandLine.Run

/-!
# The command

Reads the files that the arguments name and the two environment variables, answers, and writes what
there is to write.
-/

namespace Deduction

namespace CommandLine

/-- How the command is used. -/
def usageText : String := "usage: check [-h] [--verbose] files [files ...]"

/-- Reading the bytes of a file. -/
def readBytes (path : String) : IO (Except ReadError ByteArray) := do
  try
    let bytes ← IO.FS.readBinFile (plainPath path)
    return .ok bytes
  catch e =>
    match e with
    | .inappropriateType _ code _ =>
      return .error (if code = 21 then .isDirectory else .notDirectory)
    | .invalidArgument .. => return .error .tooLong
    | .permissionDenied .. => return .error .denied
    | _ => return .error .missing

/-- The files that the arguments name, with what they hold. -/
def readRequested (args : List String) : IO (List (String × Except ReadError ByteArray)) :=
  match Request.ofArguments args with
  | .check files _ => files.mapM fun path => return (path, ← readBytes path)
  | _ => return []

/-- The two environment variables. -/
def readEnvironment : IO (List (String × Option String)) :=
  [severityVariable, limitVariable].mapM fun name => return (name, ← IO.getEnv name)

/-- Writing what a run has to say, and its exit code. -/
def writeOutput (output : Output) : IO UInt32 := do
  IO.print output.out.toString
  for line in output.err do
    IO.eprintln line.toString
  return output.code.toUInt32

end CommandLine

end Deduction

open Deduction
open Deduction.CommandLine

/-- The command. -/
def main (args : List String) : IO UInt32 := do
  let contents ← readRequested args
  let environment ← readEnvironment
  let response := respond args (fun name => (environment.lookup name).join)
    fun path => (contents.lookup path).getD (.error .missing)
  match response with
  | .ok (.usage code) =>
    IO.println usageText
    return code.toUInt32
  | .ok (.ran output) => writeOutput output
  | .error failure =>
    IO.eprintln failure.message
    return 1
