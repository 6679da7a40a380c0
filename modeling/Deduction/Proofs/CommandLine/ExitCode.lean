import Deduction.CommandLine.Run
import Deduction.Proofs.Checking
import Deduction.Proofs.Document.RoundTrip
import Deduction.Proofs.Settings
import Mathlib.Order.Bounds.Defs

/-!
# How the command ends

The command promises an exit code for every environment and all files: 2 if a setting is invalid,
and otherwise the worst that one of the files leads to, with every file looked at whatever came of
the ones before it.  `Earns` is the promise for a single file and `Documented` the one for a run.

Most of it is kept.  Checking a document always gives a result, a file that cannot be read is noted
and the next one is taken, and the order of the files does not matter, since the exit code is the
greatest element of a set.  What the run does not survive is put down in `Interrupted`.  A limit on
the reported errors may have more digits than the host allows, or digits that are not all decimal.
A path may hold the character zero, and a file may be no text.  And the host may give out: it may
not have the stack for a document, or be unable to write the report on it.  Whatever comes first
ends the run, and the files behind it are not looked at.

All this is said of an arbitrary host, of which nothing is assumed.  What is noted besides the
report on a document is left open.

* `Obstacle.checkFile_eq`, `Survives.exists_checkFile_eq`: what comes of one file.
* `StopsAt.checkFiles_eq`, `exists_checkFiles_eq`: what comes of all of them.
* `isGreatest_code_joined`: the exit code of a run that survives its files.
* `Request.ofArguments_check`: plain file names are always accepted.
* `respondOn_check_documented`: the promise is kept exactly if nothing interrupts the run.
-/

namespace Deduction

/-- Checking always gives a result. -/
theorem Directory.exists_check (D : Directory) : ∃ result, D.check = .ok result := by
  by_cases h : D.verify.errors = []
  · obtain ⟨result, hresult, -⟩ := (verify_errors_eq_nil_iff.mp h).yields_check
    exact ⟨result, hresult⟩
  · exact ⟨_, check_of_errors h⟩

namespace CommandLine

open Settings

variable {ε : Type} {host : Host ε} {maxDigits : Option Nat} {settings : Settings} {verbose : Bool}
  {path : String} {files : List String} {content : Except ReadError ByteArray}
  {environment : String → Option String} {read : String → Except ReadError ByteArray}
  {part output : Output} {failure : ε}

/-! ## What is promised -/

/-- The bytes of a file are no text. -/
def Undecodable (bytes : ByteArray) : Prop := ∀ text : String, text.toUTF8 ≠ bytes

/-- The exit code that a file leads to. -/
inductive Earns (maxDigits : Option Nat) : Except ReadError ByteArray → Nat → Prop
  | unread (cause : ReadError) : Earns maxDigits (.error cause) 2
  | undecodable {bytes : ByteArray} : Undecodable bytes → Earns maxDigits (.ok bytes) 2
  | malformed {bytes : ByteArray} {text : String} {cause : DocumentError} : text.toUTF8 = bytes →
      Directory.load text maxDigits = .error cause → Earns maxDigits (.ok bytes) 2
  | checked {bytes : ByteArray} {text : String} {D : Directory} {result : CheckResult} :
      text.toUTF8 = bytes → Directory.load text maxDigits = .ok D → D.check = .ok result →
      Earns maxDigits (.ok bytes) (if result.isValid then 0 else 1)

/-- What is written about a file: a complaint if it holds no document, and otherwise the report,
whatever is noted besides. -/
inductive Handled (maxDigits : Option Nat) (settings : Settings) (verbose : Bool) (path : String) :
    Except ReadError ByteArray → Output → Prop
  | unread (cause : ReadError) : Handled maxDigits settings verbose path (.error cause)
      (.complaint path s!"could not read file: {cause.message path}")
  | undecodable {bytes : ByteArray} (message : Text) : Undecodable bytes →
      Handled maxDigits settings verbose path (.ok bytes) (.complaint path message)
  | malformed {bytes : ByteArray} {text : String} {cause : DocumentError} : text.toUTF8 = bytes →
      Directory.load text maxDigits = .error cause →
      Handled maxDigits settings verbose path (.ok bytes)
        (.complaint path ("malformed document: " ++ cause.message))
  | checked {bytes : ByteArray} {text : String} {D : Directory} {result : CheckResult}
      (notes : List Text) : text.toUTF8 = bytes → Directory.load text maxDigits = .ok D →
      D.check = .ok result → Handled maxDigits settings verbose path (.ok bytes)
        ⟨if result.isValid then 0 else 1,
          D.report ⟨path, settings.maxErrors, verbose⟩ result ++ "\n", notes⟩

/-- What several files lead to, one after the other. -/
def Output.joined (parts : List Output) : Output := parts.foldr .append {}

/-- **What is promised of a run.** -/
structure Documented (maxDigits : Option Nat) (environment : String → Option String)
    (read : String → Except ReadError ByteArray) (files : List String) (verbose : Bool)
    (output : Output) : Prop where
  /-- Without settings nothing is looked at, and the exit code is 2. -/
  unset : (∀ settings : Settings, ¬ settings.SetBy environment) →
    ∃ cause : SettingsError, output = ⟨2, "", [s!"Error reading settings: {cause.message}"]⟩
  /-- With settings, the exit code is the greatest that one of the files leads to. -/
  worst : ∀ {settings : Settings}, settings.SetBy environment →
    IsGreatest {code | ∃ path ∈ files, Earns maxDigits (read path) code} output.code
  /-- With settings, every file is handled. -/
  handled : ∀ {settings : Settings}, settings.SetBy environment → ∃ parts,
    List.Forall₂ (fun path part => Handled maxDigits settings verbose path (read path) part) files
      parts ∧ output = .joined parts

/-! ## What ends a run -/

/-- What a run on a host does not survive about a file. -/
inductive Obstacle (host : Host ε) (settings : Settings) (verbose : Bool) (path : String) :
    Except ReadError ByteArray → ε → Prop
  | zeroInPath {content : Except ReadError ByteArray} : '\x00' ∈ path.toList →
      Obstacle host settings verbose path content (host.tell (.zeroInPath path))
  | undecodable {bytes : ByteArray} : '\x00' ∉ path.toList → Undecodable bytes →
      Obstacle host settings verbose path (.ok bytes) (host.tell (.undecodable path))
  /-- There is not enough stack for the document. -/
  | unbearable {text : String} {failure : ε} : '\x00' ∉ path.toList →
      host.bear path text = .error failure →
      Obstacle host settings verbose path (.ok text.toUTF8) failure
  /-- The report on the document cannot be written. -/
  | unwritable {text : String} {D : Directory} {result : CheckResult} {failure : ε} :
      '\x00' ∉ path.toList → host.bear path text = .ok () →
      Directory.load text host.maxDigits = .ok D → D.check = .ok result →
      host.write path (D.report ⟨path, settings.maxErrors, verbose⟩ result) = .error failure →
      Obstacle host settings verbose path (.ok text.toUTF8) failure

/-- The run goes on after a file. -/
def Survives (host : Host ε) (settings : Settings) (verbose : Bool) (path : String)
    (content : Except ReadError ByteArray) : Prop :=
  ∀ failure, ¬ Obstacle host settings verbose path content failure

/-- A run over these files ends at the first one that it does not survive. -/
def StopsAt (host : Host ε) (settings : Settings) (verbose : Bool)
    (read : String → Except ReadError ByteArray) (files : List String) (failure : ε) : Prop :=
  ∃ before path after, files = before ++ path :: after ∧
    (∀ p ∈ before, Survives host settings verbose p (read p)) ∧
    Obstacle host settings verbose path (read path) failure

/-- What interrupts a run. -/
inductive Interrupted (host : Host ε) (environment : String → Option String)
    (read : String → Except ReadError ByteArray) (files : List String) (verbose : Bool) : ε → Prop
  | overlong {excess : DigitExcess} : Overlong host.maxDigits environment excess →
      Interrupted host environment read files verbose
        (host.tell (.settings (.tooManyDigits excess)))
  | loneDigits : LoneDigits host.maxDigits environment →
      Interrupted host environment read files verbose
        (host.tell (.settings (.notDecimal (String.ofList (limitText environment)))))
  | file {settings : Settings} {failure : ε} : settings.SetBy environment →
      (∀ excess, ¬ Overlong host.maxDigits environment excess) →
      StopsAt host settings verbose read files failure →
      Interrupted host environment read files verbose failure

/-! ## One file -/

theorem fromUTF8?_eq_some_iff {bytes : ByteArray} {text : String} :
    String.fromUTF8? bytes = some text ↔ text.toUTF8 = bytes := by
  rw [String.fromUTF8?]
  split
  · rw [Option.some.injEq]
    constructor
    · rintro rfl
      rfl
    · rintro rfl
      rfl
  · next h =>
    refine iff_of_false (fun hn => by cases hn) ?_
    rintro rfl
    exact h text.isValidUTF8

theorem fromUTF8?_eq_none_iff {bytes : ByteArray} :
    String.fromUTF8? bytes = none ↔ Undecodable bytes := by
  rw [Option.eq_none_iff_forall_ne_some]
  exact forall_congr' fun text => not_congr fromUTF8?_eq_some_iff

/-- A file leads to one exit code only. -/
theorem Earns.unique {code other : Nat} (h : Earns maxDigits content code)
    (h' : Earns maxDigits content other) : code = other := by
  cases h with
  | unread cause =>
    cases h'
    rfl
  | undecodable hbytes =>
    cases h' with
    | undecodable | malformed => rfl
    | checked htext => exact absurd htext (hbytes _)
  | malformed htext hload =>
    cases h' with
    | undecodable | malformed => rfl
    | checked htext' hload' =>
      cases String.toByteArray_inj.mp (htext.trans htext'.symm)
      cases hload.symm.trans hload'
  | checked htext hload hcheck =>
    cases h' with
    | undecodable hbytes => exact absurd htext (hbytes _)
    | malformed htext' hload' =>
      cases String.toByteArray_inj.mp (htext.trans htext'.symm)
      cases hload.symm.trans hload'
    | checked htext' hload' hcheck' =>
      cases String.toByteArray_inj.mp (htext.trans htext'.symm)
      cases hload.symm.trans hload'
      cases hcheck.symm.trans hcheck'
      rfl

/-- What is written about a file has the exit code that the file leads to. -/
theorem Handled.earns (h : Handled maxDigits settings verbose path content part) :
    Earns maxDigits content part.code := by
  cases h with
  | unread cause => exact .unread cause
  | undecodable message hbytes => exact .undecodable hbytes
  | malformed htext hload => exact .malformed htext hload
  | checked notes htext hload hcheck => exact .checked htext hload hcheck

theorem checkFile_toUTF8 (hzero : '\x00' ∉ path.toList) (text : String) :
    checkFile host settings verbose path (.ok text.toUTF8) =
      checkText host settings verbose path text := by
  unfold checkFile
  rw [if_neg (mt List.contains_iff_mem.mp hzero)]
  simp only [fromUTF8?_eq_some_iff.mpr rfl]

/-- A file that the run does not survive ends it. -/
theorem Obstacle.checkFile_eq (h : Obstacle host settings verbose path content failure) :
    checkFile host settings verbose path content = .error failure := by
  cases h with
  | zeroInPath hzero =>
    unfold checkFile
    rw [if_pos (List.contains_iff_mem.mpr hzero)]
  | undecodable hzero hbytes =>
    unfold checkFile
    rw [if_neg (mt List.contains_iff_mem.mp hzero)]
    simp only [fromUTF8?_eq_none_iff.mpr hbytes]
  | unbearable hzero hbear =>
    rw [checkFile_toUTF8 hzero, checkText]
    exact bind_eq_error.mpr (Or.inl hbear)
  | unwritable hzero hbear hload hcheck hwrite =>
    rw [checkFile_toUTF8 hzero, checkText]
    simp only [hload, hcheck]
    exact bind_eq_error.mpr (Or.inr ⟨(), hbear, bind_eq_error.mpr (Or.inl hwrite)⟩)

theorem exists_checkText_eq {text : String} (hzero : '\x00' ∉ path.toList)
    (h : Survives host settings verbose path (.ok text.toUTF8)) :
    ∃ part, Handled host.maxDigits settings verbose path (.ok text.toUTF8) part ∧
      checkText host settings verbose path text = .ok part := by
  rw [checkText]
  -- the host is asked before the text is read and again when there is a report
  cases hbear : host.bear path text with
  | error failure => exact absurd (.unbearable hzero hbear) (h failure)
  | ok _ =>
    cases hload : Directory.load text host.maxDigits with
    | error cause => exact ⟨_, .malformed rfl hload, rfl⟩
    | ok D =>
      obtain ⟨result, hcheck⟩ := D.exists_check
      cases hwrite : host.write path (D.report ⟨path, settings.maxErrors, verbose⟩ result) with
      | error failure => exact absurd (.unwritable hzero hbear hload hcheck hwrite) (h failure)
      | ok _ =>
        refine ⟨_, .checked ((LogEntry.shown settings.severity
          [result.logEntry D.proofs.length]).map Text.ofString) rfl hload hcheck, ?_⟩
        simp only [hcheck]
        exact bind_eq_ok.mpr ⟨(), rfl, bind_eq_ok.mpr ⟨(), hwrite, rfl⟩⟩

/-- **Every other file is handled.** -/
theorem Survives.exists_checkFile_eq (h : Survives host settings verbose path content) :
    ∃ part, Handled host.maxDigits settings verbose path content part ∧
      checkFile host settings verbose path content = .ok part := by
  have hzero : '\x00' ∉ path.toList := fun hzero => h _ (.zeroInPath hzero)
  cases content with
  | error cause =>
    refine ⟨_, .unread cause, ?_⟩
    unfold checkFile
    rw [if_neg (mt List.contains_iff_mem.mp hzero)]
  | ok bytes =>
    by_cases hbytes : Undecodable bytes
    · exact absurd (.undecodable hzero hbytes) (h _)
    · simp only [Undecodable, not_forall, not_not] at hbytes
      obtain ⟨text, rfl⟩ := hbytes
      rw [checkFile_toUTF8 hzero]
      exact exists_checkText_eq hzero h

/-! ## All files -/

/-- The run ends at a file or survives them all. -/
theorem exists_stopsAt_or_forall_survives (host : Host ε) (settings : Settings) (verbose : Bool)
    (read : String → Except ReadError ByteArray) (files : List String) :
    (∃ failure, StopsAt host settings verbose read files failure) ∨
      ∀ path ∈ files, Survives host settings verbose path (read path) := by
  induction files with
  | nil => exact Or.inr (List.forall_mem_nil _)
  | cons path files ih =>
    by_cases hpath : Survives host settings verbose path (read path)
    -- this file is no obstacle, so the first one among the others is the first one of all
    · rcases ih with ⟨failure, before, p, after, rfl, hbefore, hp⟩ | hfiles
      · exact Or.inl ⟨failure, path :: before, p, after, rfl,
          List.forall_mem_cons.mpr ⟨hpath, hbefore⟩, hp⟩
      · exact Or.inr (List.forall_mem_cons.mpr ⟨hpath, hfiles⟩)
    · simp only [Survives, not_forall, not_not] at hpath
      obtain ⟨failure, hpath⟩ := hpath
      exact Or.inl ⟨failure, [], path, files, rfl, List.forall_mem_nil _, hpath⟩

/-- **A run ends at the first file that it does not survive.** -/
theorem StopsAt.checkFiles_eq (h : StopsAt host settings verbose read files failure) :
    checkFiles host settings verbose (files.map fun path => (path, read path)) =
      .error failure := by
  obtain ⟨before, path, after, rfl, hbefore, hpath⟩ := h
  induction before with
  | nil =>
    rw [List.nil_append, List.map_cons, checkFiles]
    exact bind_eq_error.mpr (Or.inl hpath.checkFile_eq)
  | cons p before ih =>
    rw [List.forall_mem_cons] at hbefore
    obtain ⟨part, -, hpart⟩ := hbefore.1.exists_checkFile_eq
    rw [List.cons_append, List.map_cons, checkFiles]
    exact bind_eq_error.mpr
      (Or.inr ⟨part, hpart, bind_eq_error.mpr (Or.inl (ih hbefore.2))⟩)

/-- **A run that survives all files handles all of them.** -/
theorem exists_checkFiles_eq (h : ∀ path ∈ files, Survives host settings verbose path (read path)) :
    ∃ parts, List.Forall₂
        (fun path part => Handled host.maxDigits settings verbose path (read path) part) files
        parts ∧
      checkFiles host settings verbose (files.map fun path => (path, read path)) =
        .ok (.joined parts) := by
  induction files with
  | nil => exact ⟨[], .nil, rfl⟩
  | cons path files ih =>
    rw [List.forall_mem_cons] at h
    obtain ⟨part, hhandled, hpart⟩ := h.1.exists_checkFile_eq
    obtain ⟨parts, hparts, hrest⟩ := ih h.2
    refine ⟨part :: parts, .cons hhandled hparts, ?_⟩
    rw [List.map_cons, checkFiles, hpart, hrest]
    rfl

/-! ## The exit code -/

theorem Output.code_joined_cons (part : Output) (parts : List Output) :
    (Output.joined (part :: parts)).code = max part.code (Output.joined parts).code := rfl

theorem Output.code_le_joined {parts : List Output} (h : part ∈ parts) :
    part.code ≤ (Output.joined parts).code := by
  induction parts with
  | nil => cases h
  | cons first parts ih =>
    rw [code_joined_cons]
    rcases List.mem_cons.mp h with rfl | h
    · exact Nat.le_max_left ..
    · exact (ih h).trans (Nat.le_max_right ..)

theorem Output.exists_code_eq_joined {parts : List Output} (h : parts ≠ []) :
    ∃ part ∈ parts, part.code = (Output.joined parts).code := by
  induction parts with
  | nil => exact absurd rfl h
  | cons first parts ih =>
    rw [code_joined_cons]
    rcases Nat.le_total (Output.joined parts).code first.code with hle | hle
    · exact ⟨first, List.mem_cons_self, (Nat.max_eq_left hle).symm⟩
    -- without other parts the greater code is still the first one, since no part at all gives 0
    · cases parts with
      | nil => exact ⟨first, List.mem_cons_self, (Nat.max_zero _).symm⟩
      | cons second parts =>
        obtain ⟨part, hpart, hcode⟩ := ih (List.cons_ne_nil _ _)
        exact ⟨part, List.mem_cons_of_mem _ hpart, by rw [hcode, Nat.max_eq_right hle]⟩

/-- **The exit code of a run is the greatest that one of the files leads to.** -/
theorem isGreatest_code_joined {parts : List Output} (hfiles : files ≠ [])
    (h : List.Forall₂ (fun path part => Handled maxDigits settings verbose path (read path) part)
      files parts) :
    IsGreatest {code | ∃ path ∈ files, Earns maxDigits (read path) code}
      (Output.joined parts).code := by
  constructor
  · have hparts : parts ≠ [] := by
      rintro rfl
      cases h
      exact hfiles rfl
    obtain ⟨part, hpart, hcode⟩ := Output.exists_code_eq_joined hparts
    obtain ⟨path, hpath, hhandled⟩ := exists_mem_of_forall₂_of_mem h hpart
    exact ⟨path, hpath, hcode ▸ hhandled.earns⟩
  · rintro code ⟨path, hpath, hcode⟩
    obtain ⟨part, hpart, hhandled⟩ := exists_mem_of_forall₂_of_mem h.flip hpath
    rw [hcode.unique hhandled.earns]
    exact Output.code_le_joined hpart

/-! ## The arguments -/

namespace Request

theorem files_ne_nil_of_ofTokens {r : Reading} {tokens : List Token}
    (h : ofTokens r tokens = .check files verbose) : files ≠ [] := by
  fun_induction ofTokens r tokens with
  | case1 r =>
    rw [Reading.finish] at h
    split at h
    · cases h
    · next hfiles =>
      cases h
      intro hnil
      simp [hnil] at hfiles
  | case2 _ _ _ ih | case3 _ _ ih | case5 _ _ _ _ ih | case6 _ _ ih => exact ih h
  | case4 | case7 | case8 => cases h

/-- **A check is asked for only with files.** -/
theorem files_ne_nil {args : List String} (h : ofArguments args = .check files verbose) :
    files ≠ [] := by
  -- what stands before the command is skipped or ends the reading
  have hafter : ∀ extra args, ofArgumentsAfter extra args = .check files verbose → files ≠ [] := by
    intro extra args h
    fun_induction ofArgumentsAfter extra args with
    | case1 | case2 | case4 | case5 | case8 => cases h
    | case3 =>
      simp only [ofCommandArguments] at h
      split at h
      · cases h
      · exact files_ne_nil_of_ofTokens h
    | case6 _ _ _ _ _ _ _ ih | case7 _ _ _ _ _ ih => exact ih h
  cases args with
  | nil => cases h
  | cons arg args => exact hafter _ _ h

/-- A text that does not start with a dash is no option. -/
theorem classify_of_plain {table : List CommandOption} {arg : String}
    (h : arg.toList.head? ≠ some '-') : Token.classify table arg = .text arg := by
  unfold Token.classify
  dsimp only
  split
  · rfl
  · next heq => simp [heq] at h
  · next heq => simp [heq] at h
  · rfl

theorem tokens_of_plain (h : ∀ path ∈ files, path.toList.head? ≠ some '-') :
    tokens files = files.map .text := by
  induction files with
  | nil => rfl
  | cons path files ih =>
    rw [List.forall_mem_cons] at h
    have hseparator : path ≠ "--" := by
      rintro rfl
      exact h.1 rfl
    rw [tokens, if_neg hseparator, classify_of_plain h.1, ih h.2, List.map_cons]

theorem ofTokens_map_text {r : Reading} (hr : r.stage ≠ .after) :
    ofTokens r (files.map .text) = ({ r with files := r.files ++ files } : Reading).finish := by
  induction files generalizing r with
  | nil => rw [List.map_nil, ofTokens, List.append_nil]
  | cons path files ih =>
    have hadd : r.addText path = { r with stage := .among, files := r.files ++ [path] } := by
      rw [Reading.addText]
      split
      · next hstage => exact absurd hstage hr
      · rfl
    rw [List.map_cons, ofTokens, hadd, ih Stage.noConfusion, List.append_assoc]
    rfl

/-- **A command with plain file names is a check of these files.** -/
theorem ofArguments_check (hne : files ≠ []) (h : ∀ path ∈ files, path.toList.head? ≠ some '-') :
    ofArguments ("check" :: files) = .check files false := by
  have hcommand : ofArguments ("check" :: files) = ofCommandArguments false files := rfl
  have hambiguous : ¬ (files.map Token.text).contains .ambiguous = true := by simp
  have hfiles : ¬ (files.isEmpty || false) = true := by simpa using hne
  rw [hcommand]
  simp only [ofCommandArguments, tokens_of_plain h]
  rw [if_neg hambiguous, ofTokens_map_text Stage.noConfusion, Reading.finish]
  exact if_neg hfiles

end Request

/-! ## The command -/

section

variable {args : List String} (hargs : Request.ofArguments args = .check files verbose)

include hargs

theorem respondOn_of_setBy (h : settings.SetBy environment)
    (hshort : ∀ excess, ¬ Overlong host.maxDigits environment excess) :
    respondOn host args environment read =
      (checkFiles host settings verbose (files.map fun path => (path, read path))).map .ran := by
  rw [respondOn, hargs]
  simp only [ofEnvironment_eq_ok_iff.mpr ⟨h, hshort⟩]
  cases checkFiles host settings verbose (files.map fun path => (path, read path)) <;> rfl

theorem respondOn_of_isFailure {cause : SettingsError} (hcause : cause.isFailure = true)
    (h : ofEnvironment environment host.maxDigits = .error cause) :
    respondOn host args environment read = .error (host.tell (.settings cause)) := by
  rw [respondOn, hargs]
  simp only [h, if_pos hcause]

/-- Without settings that could be read, the exit code is 2. -/
theorem exists_respondOn_of_not_setBy (h : ∀ settings : Settings, ¬ settings.SetBy environment)
    (hlone : ¬ LoneDigits host.maxDigits environment)
    (hshort : ∀ excess, ¬ Overlong host.maxDigits environment excess) : ∃ cause : SettingsError,
      respondOn host args environment read =
        .ok (.ran ⟨2, "", [s!"Error reading settings: {cause.message}"]⟩) := by
  rw [respondOn, hargs]
  cases hread : ofEnvironment environment host.maxDigits with
  | ok settings => exact absurd (ofEnvironment_eq_ok_iff.mp hread).1 (h settings)
  | error cause =>
    cases cause with
    | badSeverity => exact ⟨.badSeverity, rfl⟩
    | badLimit => exact ⟨.badLimit, rfl⟩
    | notDecimal shown => exact absurd (ofEnvironment_eq_notDecimal_iff.mp hread).2 hlone
    | tooManyDigits excess =>
      exact absurd (ofEnvironment_eq_tooManyDigits_iff.mp hread) (hshort excess)

theorem Interrupted.respondOn_eq (h : Interrupted host environment read files verbose failure) :
    respondOn host args environment read = .error failure := by
  cases h with
  | overlong h =>
    exact respondOn_of_isFailure hargs rfl (ofEnvironment_eq_tooManyDigits_iff.mpr h)
  | loneDigits h =>
    exact respondOn_of_isFailure hargs rfl (ofEnvironment_eq_notDecimal_iff.mpr ⟨rfl, h⟩)
  | file h hshort hstops =>
    rw [respondOn_of_setBy hargs h hshort, hstops.checkFiles_eq]
    rfl

/-- **A run that nothing interrupts keeps what is promised.** -/
theorem exists_documented
    (h : ∀ failure, ¬ Interrupted host environment read files verbose failure) :
    ∃ output, respondOn host args environment read = .ok (.ran output) ∧
      Documented host.maxDigits environment read files verbose output := by
  have hshort : ∀ excess, ¬ Overlong host.maxDigits environment excess :=
    fun excess hexcess => h _ (.overlong hexcess)
  by_cases hset : ∃ settings : Settings, settings.SetBy environment
  · obtain ⟨settings, hset⟩ := hset
    have hstops := exists_stopsAt_or_forall_survives host settings verbose read files
    have hsurvives := hstops.resolve_left
      fun ⟨failure, hstops⟩ => h failure (.file hset hshort hstops)
    obtain ⟨parts, hparts, hrun⟩ := exists_checkFiles_eq hsurvives
    refine ⟨.joined parts, ?_, fun hunset => absurd hset (hunset settings), fun _ => ?_,
      fun hset' => ?_⟩
    · rw [respondOn_of_setBy hargs hset hshort, hrun]
      rfl
    · exact isGreatest_code_joined (Request.files_ne_nil hargs) hparts
    -- an environment describes at most one choice of settings
    · cases hset.unique hset'
      exact ⟨parts, hparts, rfl⟩
  · have hunset := not_exists.mp hset
    have hlone : ¬ LoneDigits host.maxDigits environment := fun hlone => h _ (.loneDigits hlone)
    obtain ⟨cause, hrespond⟩ := exists_respondOn_of_not_setBy hargs hunset hlone hshort
    exact ⟨_, hrespond, fun _ => ⟨cause, rfl⟩, fun hset => absurd hset (hunset _),
      fun hset => absurd hset (hunset _)⟩

/-- **How the command ends.**  Whatever the host can do, whatever the environment sets and whatever
stands in the files, a check ends as it is promised, with the exit code 2 without settings and the
greatest code of a file otherwise, exactly if nothing interrupts it: a limit of too many digits or
of digits that are no number, a path with the character zero, a file that is no text, a document for
which the host has no stack, or a report that it cannot write.  What interrupts it first is what it
fails with. -/
theorem respondOn_check_documented (host : Host ε) (environment : String → Option String)
    (read : String → Except ReadError ByteArray) :
    ((∃ output, respondOn host args environment read = .ok (.ran output) ∧
        Documented host.maxDigits environment read files verbose output) ↔
      ∀ failure, ¬ Interrupted host environment read files verbose failure) ∧
    ∀ failure, respondOn host args environment read = .error failure ↔
      Interrupted host environment read files verbose failure := by
  refine ⟨⟨?_, exists_documented hargs⟩, fun failure => ⟨fun herror => ?_, fun h => ?_⟩⟩
  · rintro ⟨output, hok, -⟩ failure h
    rw [h.respondOn_eq hargs] at hok
    cases hok
  · by_cases h : ∃ failure, Interrupted host environment read files verbose failure
    · obtain ⟨failure', h⟩ := h
      cases (h.respondOn_eq hargs).symm.trans herror
      exact h
    · obtain ⟨output, hok, -⟩ := exists_documented hargs (not_exists.mp h)
      cases hok.symm.trans herror
  · exact h.respondOn_eq hargs

end

end CommandLine

namespace Sample

open CommandLine Settings

/-- Why a run broke off on the small host. -/
inductive Breakdown where
  | failed (cause : Failure)
  | overflow (path : String)
  | unprintable (path : String)
  deriving DecidableEq

/-- A small host: integers have up to four digits, the stack is enough for two brackets, and only
characters can be written. -/
def small : Host Breakdown where
  maxDigits := some 4
  tell := .failed
  bear path text := if text.toList.count '[' ≤ 2 then .ok () else .error (.overflow path)
  write path report :=
    if report.codePoints.all (· matches .char _) then .ok () else .error (.unprintable path)

/-- An environment that shows everything and lists three errors, the number in Arabic digits. -/
def chatty (name : String) : Option String :=
  if name = severityVariable then some " debug" else some "٣"

/-- An environment that sets nothing but the limit. -/
def limited (limit name : String) : Option String :=
  if name = limitVariable then some limit else none

/-- A proof of a theorem that there is not. -/
def flawed : Directory := { proofs := [⟨0, []⟩] }

/-- A type without a system, called by half of a surrogate pair. -/
def lonely : Directory := { types := [⟨.str ⟨[0xd800]⟩, 7⟩] }

/-- Documents, brackets and a byte that no text has. -/
def shelf (path : String) : Except ReadError ByteArray :=
  if path = "empty" then .ok "\x7b\x7d".toUTF8
  else if path = "flawed" then .ok "\x7b\"proofs\":[\x7b\"theorem\":0\x7d]\x7d".toUTF8
  else if path = "lonely" then
    .ok "\x7b\"types\":[\x7b\"id\":\"\\ud800\",\"system\":7\x7d]\x7d".toUTF8
  else if path = "deep" then .ok "[[[".toUTF8
  else if path = "garbled" then .ok ⟨#[0xff]⟩
  else .error .missing

theorem earns_absent : Earns small.maxDigits (shelf "absent") 2 := .unread .missing

theorem earns_empty : Earns small.maxDigits (shelf "empty") 0 := by
  have hload : Directory.load "\x7b\x7d" (some 4) = .ok {} := by decide +kernel
  exact .checked rfl hload rfl

theorem earns_flawed : Earns small.maxDigits (shelf "flawed") 1 := by
  have hload : Directory.load "\x7b\"proofs\":[\x7b\"theorem\":0\x7d]\x7d" (some 4) =
      .ok flawed := by
    decide +kernel
  exact .checked rfl hload rfl

/-- A file that is not there, an invalid document and a valid one: nothing interrupts the run, all
three are handled, and the first one decides. -/
theorem respondOn_check_shelf :
    (∀ failure, ¬ Interrupted small chatty shelf ["absent", "flawed", "empty"] false failure) ∧
      (Earns small.maxDigits (shelf "absent") 2 ∧ Earns small.maxDigits (shelf "flawed") 1 ∧
        Earns small.maxDigits (shelf "empty") 0) ∧
      ∃ output, respondOn small ["check", "absent", "flawed", "empty"] chatty shelf =
          .ok (.ran output) ∧
        Documented small.maxDigits chatty shelf ["absent", "flawed", "empty"] false output ∧
        output.code = 2 := by
  have hargs : Request.ofArguments ["check", "absent", "flawed", "empty"] =
      .check ["absent", "flawed", "empty"] false :=
    Request.ofArguments_check (List.cons_ne_nil _ _) (by decide +kernel)
  have hset : (⟨.debug, 3⟩ : Settings).SetBy chatty := by
    have hread : ofEnvironment chatty = .ok ⟨.debug, 3⟩ := by decide +kernel
    exact (ofEnvironment_eq_ok_iff.mp hread).1
  have hended :
      (respondOn small ["check", "absent", "flawed", "empty"] chatty shelf).isOk = true := by
    decide +kernel
  have hinterrupted : ∀ failure,
      ¬ Interrupted small chatty shelf ["absent", "flawed", "empty"] false failure := by
    intro failure h
    rw [((respondOn_check_documented hargs small chatty shelf).2 failure).mpr h] at hended
    cases hended
  obtain ⟨output, hrespond, hdocumented⟩ :=
    (respondOn_check_documented hargs small chatty shelf).1.mpr hinterrupted
  refine ⟨hinterrupted, ⟨earns_absent, earns_flawed, earns_empty⟩, output, hrespond, hdocumented,
    ?_⟩
  obtain ⟨⟨path, hpath, hcode⟩, hgreatest⟩ := hdocumented.worst hset
  have hle : 2 ≤ output.code := hgreatest ⟨"absent", List.mem_cons_self, earns_absent⟩
  simp only [List.mem_cons, List.not_mem_nil, or_false] at hpath
  rcases hpath with rfl | rfl | rfl
  · exact hcode.unique earns_absent
  · rw [hcode.unique earns_flawed] at hle
    omega
  · rw [hcode.unique earns_empty] at hle
    omega

/-- The check of a file breaks off on the small host, and does not end as promised. -/
def Breaks (environment : String → Option String) (path : String) (failure : Breakdown) : Prop :=
  respondOn small ["check", path] environment shelf = .error failure ∧
    ¬ ∃ output, respondOn small ["check", path] environment shelf = .ok (.ran output) ∧
      Documented small.maxDigits environment shelf [path] false output

theorem breaks_of_eq_error {environment : String → Option String} {path : String}
    {failure : Breakdown}
    (h : respondOn small ["check", path] environment shelf = .error failure) :
    Breaks environment path failure := by
  refine ⟨h, ?_⟩
  rintro ⟨output, hok, -⟩
  cases h.symm.trans hok

/-- A byte that no text has, brackets in brackets, half of a surrogate pair in a report, a raised
digit in the limit and a limit of many digits end the run.  The first two ought to end in the exit
code 2 and the third in 1, the fourth leaves nothing set and the fifth sets a limit. -/
theorem not_documented :
    (Breaks chatty "garbled" (.failed (.undecodable "garbled")) ∧
      Earns small.maxDigits (shelf "garbled") 2) ∧
    (Breaks chatty "deep" (.overflow "deep") ∧ Earns small.maxDigits (shelf "deep") 2) ∧
    (Breaks chatty "lonely" (.unprintable "lonely") ∧ Earns small.maxDigits (shelf "lonely") 1) ∧
    (Breaks (limited "²") "empty" (.failed (.settings (.notDecimal "²"))) ∧
      ∀ settings : Settings, ¬ settings.SetBy (limited "²")) ∧
    Breaks (limited "12345") "empty" (.failed (.settings (.tooManyDigits ⟨4, 5⟩))) ∧
      (⟨.warning, 12345⟩ : Settings).SetBy (limited "12345") := by
  have hundecodable : Undecodable ⟨#[0xff]⟩ := fromUTF8?_eq_none_iff.mp (by decide +kernel)
  have hdeep : Directory.load "[[[" (some 4) = .error .notJson := by decide +kernel
  have hlonely : Directory.load "\x7b\"types\":[\x7b\"id\":\"\\ud800\",\"system\":7\x7d]\x7d"
      (some 4) = .ok lonely := by
    decide +kernel
  have hraised : ofEnvironment (limited "²") = .error (.notDecimal "²") := by decide +kernel
  have hmany : ofEnvironment (limited "12345") = .ok ⟨.warning, 12345⟩ := by decide +kernel
  refine ⟨⟨breaks_of_eq_error (by decide +kernel), .undecodable hundecodable⟩,
    ⟨breaks_of_eq_error (by decide +kernel), .malformed rfl hdeep⟩,
    ⟨breaks_of_eq_error (by decide +kernel), .checked rfl hlonely rfl⟩,
    ⟨breaks_of_eq_error (by decide +kernel), fun settings h => ?_⟩,
    breaks_of_eq_error (by decide +kernel), (ofEnvironment_eq_ok_iff.mp hmany).1⟩
  have hshort := (ofEnvironment_eq_notDecimal_iff.mp hraised).2.short
  cases hraised.symm.trans (ofEnvironment_eq_ok_iff.mpr ⟨h, hshort⟩)

end Sample

end Deduction
