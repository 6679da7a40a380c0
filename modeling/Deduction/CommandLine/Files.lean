import Deduction.Json.Display

/-!
# Files of a working directory

A path is read by its parts.  Empty parts and single dots do not count, and a path without any is
the working directory itself.  Messages give a path in this plain form.

The parts lead from place to place, and the first one that leads nowhere ends the reading.  A
working directory holds files and empty directories.  Above it there are directories, up to the root
and no further, in which nothing is found.  Paths and their parts must not be too long; the length
of a path is looked at before anything else, and the length of a part when it is looked up.
-/

namespace Deduction

namespace CommandLine

/-- Why a file could not be read. -/
inductive ReadError where
  | missing
  | denied
  | notDirectory
  | isDirectory
  | tooLong
  deriving DecidableEq, Repr

/-- What stands under a name in a directory. -/
inductive FileEntry where
  | file (bytes : ByteArray)
  | directory

/-- The entries of a working directory, which has no deeper ones. -/
structure Files where
  entries : List (String × FileEntry)

/-- The parts of a path that count. -/
def pathParts (path : String) : List String :=
  ((path.splitOn "/").filter fun part => part ≠ "" && part ≠ ".")

/-- The slashes that a path from the root keeps: one, or two if there are exactly two. -/
def pathRoot (path : String) : String :=
  match path.toList with
  | '/' :: '/' :: '/' :: _ => "/"
  | '/' :: '/' :: _ => "//"
  | '/' :: _ => "/"
  | _ => ""

/-- The plain form of a path. -/
def plainPath (path : String) : String :=
  let plain := pathRoot path ++ String.intercalate "/" (pathParts path)
  if plain.isEmpty then "." else plain

namespace ReadError

/-- The number of a cause. -/
def code : ReadError → Nat
  | .missing => 2
  | .denied => 13
  | .notDirectory => 20
  | .isDirectory => 21
  | .tooLong => 36

/-- The wording of a cause. -/
def text : ReadError → String
  | .missing => "No such file or directory"
  | .denied => "Permission denied"
  | .notDirectory => "Not a directory"
  | .isDirectory => "Is a directory"
  | .tooLong => "File name too long"

/-- The message for a path that could not be read. -/
def message (path : String) (e : ReadError) : String :=
  s!"[Errno {e.code}] {e.text}: {Text.quoted (plainPath path)}"

end ReadError

/-- Where a path has led so far. -/
inductive Place where
  /-- The working directory. -/
  | working
  /-- An empty directory in the working directory. -/
  | inside
  /-- A directory that leads to the working directory, or the root. -/
  | above
  deriving DecidableEq, Repr

/-- The directory that holds a place.  The root holds itself. -/
def Place.parent : Place → Place
  | .inside => .working
  | _ => .above

/-- The most bytes that a part of a path has. -/
def maxPartBytes : Nat := 255

/-- The most bytes that a path has. -/
def maxPathBytes : Nat := 4095

namespace Files

/-- What stands under a name in the working directory. -/
def find? (files : Files) (name : String) : Option FileEntry := files.entries.lookup name

/-- Reading what stands at the end of a path that has led to a place. -/
def readFrom (files : Files) : Place → List String → Except ReadError ByteArray
  | _, [] => .error .isDirectory
  | place, part :: rest =>
    if part = ".." then files.readFrom place.parent rest
    else if maxPartBytes < part.utf8ByteSize then .error .tooLong
    else
      match place, files.find? part with
      | .working, some (.file bytes) => if rest.isEmpty then .ok bytes else .error .notDirectory
      | .working, some .directory => files.readFrom .inside rest
      | _, _ => .error .missing

/-- Reading the file at a path. -/
def read (files : Files) (path : String) : Except ReadError ByteArray :=
  if maxPathBytes < (plainPath path).utf8ByteSize then .error .tooLong
  else files.readFrom (if (pathRoot path).isEmpty then .working else .above) (pathParts path)

end Files

end CommandLine

end Deduction
