import Deduction.Text.Digit

/-!
# Arguments

The only command is `check`, which takes files and may be asked to be verbose; help can be asked for
before the command and after it.

What starts with a dash is an option, with these exceptions: a dash alone, a negative number, and a
text with a blank in it that is no known option.  Long options may be cut short as long as only one
option remains.  Short ones may share a dash, and the first of them may be set off from the others
by an equals sign.  No option takes a value.  After `--` everything is a file.  The files have to
stand together, with no option between them.

Options are acted on from left to right.  Help ends the reading at once, and so does an option that
is misused.  Unknown options and files that stand apart are refused only at the end, so help that is
asked for after them is still given.

* `Token.classify`: what one argument is.
* `Request.ofArguments`: what is asked for.
-/

namespace Deduction

namespace CommandLine

/-! ## Options -/

/-- The options there are. -/
inductive CommandOption where
  | help
  | verbose
  deriving DecidableEq, Repr

namespace CommandOption

/-- The letter of an option. -/
def letter : CommandOption → Char
  | .help => 'h'
  | .verbose => 'v'

/-- The long name of an option. -/
def word : CommandOption → String
  | .help => "--help"
  | .verbose => "--verbose"

end CommandOption

/-- What one argument is. -/
inductive Token where
  /-- A text that is no option. -/
  | text (value : String)
  /-- The mark after which nothing is an option. -/
  | separator
  /-- Known options. -/
  | options (known : List CommandOption)
  /-- An option that is not known. -/
  | unknown
  /-- A known option with a value. -/
  | misused
  /-- The beginning of several options. -/
  | ambiguous
  deriving DecidableEq, Repr

namespace Token

/-- Whether a text is a minus sign with decimal digits, maybe with a point before the last of
them. -/
def isNegativeNumber (text : List Char) : Bool :=
  let isDecimal (c : Char) := (Text.decimalValue? c).isSome
  match text with
  | '-' :: rest =>
    let rest := if rest.getLast? = some '\n' then rest.dropLast else rest
    match rest.dropWhile isDecimal with
    | [] => !rest.isEmpty
    | '.' :: fraction => !fraction.isEmpty && fraction.all isDecimal
    | _ => false
  | _ => false

/-- Letters that share a dash with the options before them. -/
def cluster (table : List CommandOption) (known : List CommandOption) : List Char → Token
  | [] => .options known
  | letter :: letters =>
    match table.find? fun o => o.letter = letter with
    | none => .misused
    | some o => cluster table (known ++ [o]) letters

/-- A text with a dash in front that is no known option. -/
def undashed (arg : String) : Token :=
  if isNegativeNumber arg.toList || arg.toList.contains ' ' then .text arg else .unknown

/-- What one argument is if these options are known. -/
def classify (table : List CommandOption) (arg : String) : Token :=
  let isValued := arg.toList.contains '='
  let name := arg.toList.takeWhile (· ≠ '=')
  match arg.toList with
  | ['-'] => .text arg
  | '-' :: '-' :: _ =>
    match table.filter fun o => name.isPrefixOf o.word.toList with
    | [] => undashed arg
    | [o] => if isValued then .misused else .options [o]
    | _ => .ambiguous
  | '-' :: letter :: letters =>
    match table.find? fun o => o.letter = letter with
    | none => undashed arg
    | some o =>
      match letters with
      | ['='] => .misused
      | '=' :: others => cluster table [o] others
      | others => cluster table [o] others
  | _ => .text arg

end Token

/-! ## Requests -/

/-- What a command line asks for. -/
inductive Request where
  /-- Nothing at all. -/
  | nothing
  /-- Help. -/
  | help
  /-- Something that there is not. -/
  | refused
  /-- Checking files. -/
  | check (files : List String) (verbose : Bool)
  deriving DecidableEq, Repr

/-- Where the files of a command line are looked for. -/
inductive Stage where
  /-- No file has come yet. -/
  | before
  /-- Files are being read. -/
  | among
  /-- An option has ended the files. -/
  | after
  deriving DecidableEq, Repr

/-- What the arguments so far ask for. -/
structure Reading where
  stage : Stage := .before
  files : List String := []
  verbose : Bool := false
  extra : Bool := false
  deriving DecidableEq, Repr

namespace Reading

/-- Reading a text that is no option. -/
def addText (r : Reading) (value : String) : Reading :=
  match r.stage with
  | .after => { r with extra := true }
  | _ => { r with stage := .among, files := r.files ++ [value] }

/-- Reading the mark after which nothing is an option. -/
def addSeparator (r : Reading) : Reading :=
  match r.stage with
  | .after => { r with extra := true }
  | _ => { r with stage := .among }

/-- Where files are looked for after an option. -/
def stageAfterOption (r : Reading) : Stage := if r.stage = .before then .before else .after

/-- Reading options other than help. -/
def addOptions (r : Reading) (known : List CommandOption) : Reading :=
  { r with stage := r.stageAfterOption, verbose := r.verbose || known.contains .verbose }

/-- Reading an option that is not known. -/
def addUnknown (r : Reading) : Reading :=
  { r with stage := r.stageAfterOption, extra := true }

/-- What is asked for when there are no more arguments. -/
def finish (r : Reading) : Request :=
  if r.files.isEmpty || r.extra then .refused else .check r.files r.verbose

end Reading

namespace Request

/-- The tokens of the arguments of the command. -/
def tokens : List String → List Token
  | [] => []
  | arg :: args =>
    if arg = "--" then .separator :: args.map .text
    else Token.classify [.help, .verbose] arg :: tokens args

/-- Reading the tokens after the command. -/
def ofTokens (r : Reading) : List Token → Request
  | [] => r.finish
  | .text value :: rest => ofTokens (r.addText value) rest
  | .separator :: rest => ofTokens r.addSeparator rest
  | .options known :: rest =>
    if known.contains .help then .help else ofTokens (r.addOptions known) rest
  | .unknown :: rest => ofTokens r.addUnknown rest
  | .misused :: _ => .refused
  | .ambiguous :: _ => .refused

/-- What the arguments of the command ask for. -/
def ofCommandArguments (extra : Bool) (args : List String) : Request :=
  let tokens := tokens args
  if tokens.contains .ambiguous then .refused else ofTokens { extra } tokens

/-- What arguments ask for, with unknown options before them or not. -/
def ofArgumentsAfter (extra : Bool) : List String → Request
  | [] => .refused
  | arg :: args =>
    if arg = "--" then .refused
    else
      match Token.classify [.help] arg with
      | .text value => if value = "check" then ofCommandArguments extra args else .refused
      | .options known => if known.contains .help then .help else ofArgumentsAfter extra args
      | .unknown => ofArgumentsAfter true args
      | _ => .refused

/-- What a command line asks for. -/
def ofArguments : List String → Request
  | [] => .nothing
  | args => ofArgumentsAfter false args

end Request

end CommandLine

end Deduction
