import Deduction.Proofs.Unfolding
import Deduction.Settings
import Mathlib.Data.Nat.Digits.Defs

/-!
# What an environment sets

Reading the settings ends in one of four ways.  The limit is made of digits, and there are more of
them than the host allows; it is made of digits of which one is not decimal; in both cases there is
no reading at all.  Otherwise the environment describes settings, and then they are what is read, or
it describes none, and the reading says so.  The first two ways are open only if the severity can be
read, since that comes first.

A limit is what its decimal digits denote, the first of them weighing most, whatever scripts they
are taken from (`Text.Decimal`).

* `Settings.SetBy`: the settings that an environment describes.
* `Settings.Overlong`: a limit of too many digits.
* `Settings.LoneDigits`: a limit that is made of digits but is no decimal number.
* `Settings.ofEnvironment_eq_ok_iff`, `Settings.ofEnvironment_eq_tooManyDigits_iff`,
  `Settings.ofEnvironment_eq_notDecimal_iff`: what is read.
-/

namespace Deduction

namespace Text

variable {text : List Char} {n : Nat}

/-! ## Decimal numbers -/

/-- The number that a text of decimal digits denotes. -/
def Decimal (text : List Char) (n : Nat) : Prop :=
  ∃ digits : List Nat, text.map decimalValue? = digits.map some ∧ n = Nat.ofDigits 10 digits.reverse

/-- Reading on behind the digits that make `start`. -/
theorem foldlM_decimalValue?_eq_some_iff (start : Nat) :
    text.foldlM (fun n c => (decimalValue? c).map (10 * n + ·)) start = some n ↔
      ∃ digits : List Nat, text.map decimalValue? = digits.map some ∧
        n = digits.foldl (fun n digit => 10 * n + digit) start := by
  induction text generalizing start with
  | nil =>
    constructor
    · intro h
      cases h
      exact ⟨[], rfl, rfl⟩
    · rintro ⟨digits, hdigits, rfl⟩
      cases List.map_eq_nil_iff.mp hdigits.symm
      rfl
  | cons c text ih =>
    rw [List.foldlM_cons, Option.bind_eq_bind, Option.bind_eq_some_iff]
    constructor
    · rintro ⟨next, hnext, hrest⟩
      obtain ⟨digit, hdigit, rfl⟩ := Option.map_eq_some_iff.mp hnext
      obtain ⟨digits, hdigits, rfl⟩ := (ih _).mp hrest
      exact ⟨digit :: digits, by rw [List.map_cons, List.map_cons, hdigit, hdigits], rfl⟩
    · rintro ⟨digits, hdigits, rfl⟩
      cases digits with
      | nil => cases hdigits
      | cons digit digits =>
        rw [List.map_cons, List.map_cons, List.cons.injEq] at hdigits
        refine ⟨10 * start + digit, by rw [hdigits.1, Option.map_some], ?_⟩
        exact (ih _).mpr ⟨digits, hdigits.2, rfl⟩

/-- **A text of decimal digits is read as the number that it denotes.** -/
theorem decimalNumber?_eq_some_iff : decimalNumber? text = some n ↔ Decimal text n := by
  rw [decimalNumber?, foldlM_decimalValue?_eq_some_iff, Decimal]
  refine exists_congr fun digits => and_congr_right fun _ => ?_
  rw [Nat.ofDigits_eq_foldr, List.foldr_reverse]
  simp only [Nat.cast_id, Nat.add_comm]

theorem decimalNumber?_eq_none_iff :
    decimalNumber? text = none ↔ ∃ c ∈ text, decimalValue? c = none := by
  constructor
  · intro h
    by_contra hall
    push Not at hall
    -- the values of all characters would make a number
    have hdigits : ∃ digits : List Nat, text.map decimalValue? = digits.map some := by
      refine ⟨text.map fun c => (decimalValue? c).getD 0, ?_⟩
      rw [List.map_map]
      refine List.map_congr_left fun c hc => ?_
      obtain ⟨digit, hdigit⟩ := Option.ne_none_iff_exists'.mp (hall c hc)
      rw [Function.comp_apply, hdigit, Option.getD_some]
    obtain ⟨digits, hdigits⟩ := hdigits
    rw [decimalNumber?_eq_some_iff.mpr ⟨digits, hdigits, rfl⟩] at h
    cases h
  · rintro ⟨c, hc, hnone⟩
    rw [Option.eq_none_iff_forall_ne_some]
    intro n hn
    obtain ⟨digits, hdigits, -⟩ := decimalNumber?_eq_some_iff.mp hn
    have hmem : none ∈ text.map decimalValue? := List.mem_map.mpr ⟨c, hc, hnone⟩
    rw [hdigits] at hmem
    simp at hmem

theorem Decimal.isDigit (h : Decimal text n) : ∀ c ∈ text, isDigit c = true := by
  intro c hc
  have hsome : decimalValue? c ≠ none := by
    intro hnone
    have hn := decimalNumber?_eq_some_iff.mpr h
    rw [decimalNumber?_eq_none_iff.mpr ⟨c, hc, hnone⟩] at hn
    cases hn
  rw [Text.isDigit, Option.isSome_iff_ne_none.mpr hsome, Bool.true_or]

theorem Decimal.ne_nil (h : Decimal text n) (hn : 0 < n) : text ≠ [] := by
  rintro rfl
  have hzero : some n = some 0 := (decimalNumber?_eq_some_iff.mpr h).symm
  cases hzero
  exact Nat.lt_irrefl 0 hn

end Text

theorem Severity.ofName?_eq_some_iff {name : String} {severity : Severity} :
    Severity.ofName? name = some severity ↔ severity.name = name := by
  constructor
  · intro h
    have hname := List.find?_some h
    exact beq_iff_eq.mp hname
  · rintro rfl
    exact Severity.ofName?_name severity

namespace Settings

variable {environment : String → Option String} {settings : Settings} {value : String}
  {maxDigits : Option Nat} {excess : DigitExcess}

/-! ## The two variables -/

/-- What is set for a variable, without the blanks around it. -/
def valueOf (environment : String → Option String) (name standard : String) : List Char :=
  Text.trimBlanks ((environment name).getD standard).toList

/-- The text that is set for the limit. -/
def limitText (environment : String → Option String) : List Char :=
  valueOf environment limitVariable "50"

/-- The severity that an environment names, in small or capital letters. -/
def Names (environment : String → Option String) (severity : Severity) : Prop :=
  (valueOf environment severityVariable "WARNING").map latinCapital = severity.name.toList

/-- The settings that an environment describes. -/
structure SetBy (settings : Settings) (environment : String → Option String) : Prop where
  severity : Names environment settings.severity
  limit : Text.Decimal (limitText environment) settings.maxErrors
  positive : 0 < settings.maxErrors

/-- The severity can be read, and the limit is made of digits, of which those in front of the first
one that is not decimal are too many. -/
structure Overlong (maxDigits : Option Nat) (environment : String → Option String)
    (excess : DigitExcess) : Prop where
  severity : ∃ severity, Names environment severity
  digits : ∀ c ∈ limitText environment, Text.isDigit c = true
  limit : maxDigits = some excess.limit
  count : excess.count = (Text.leadingDecimals (limitText environment)).length
  exceeds : excess.limit < excess.count

/-- The severity can be read, and the limit is made of digits, of which one is not decimal and those
in front of it are not too many. -/
structure LoneDigits (maxDigits : Option Nat) (environment : String → Option String) : Prop where
  severity : ∃ severity, Names environment severity
  digits : ∀ c ∈ limitText environment, Text.isDigit c = true
  lone : ∃ c ∈ limitText environment, Text.decimalValue? c = none
  short : ∀ excess, ¬ Overlong maxDigits environment excess

/-! ## What is read -/

theorem readSeverity_eq_ok_iff {severity : Severity} : readSeverity value = .ok severity ↔
    (Text.trimBlanks value.toList).map latinCapital = severity.name.toList := by
  have hname : Severity.ofName? (String.ofList ((Text.trimBlanks value.toList).map latinCapital)) =
      some severity ↔ (Text.trimBlanks value.toList).map latinCapital = severity.name.toList := by
    rw [Severity.ofName?_eq_some_iff, ← String.toList_inj, String.toList_ofList, eq_comm]
  rw [← hname, readSeverity]
  split
  · next h => rw [h, Except.ok.injEq, Option.some.injEq]
  · next h => simp [h]

theorem readSeverity_error {cause : SettingsError} (h : readSeverity value = .error cause) :
    cause = .badSeverity := by
  rw [readSeverity] at h
  split at h
  · cases h
  · cases h
    rfl

/-- A text that is looked at as a number has digits and nothing else. -/
theorem not_isEmpty_or_not_all_iff {text : List Char} :
    ¬ (text.isEmpty || !text.all Text.isDigit) = true ↔
      text ≠ [] ∧ ∀ c ∈ text, Text.isDigit c = true := by
  simp

theorem readLimit_eq_ok_iff {n : Nat} : readLimit value maxDigits = .ok n ↔
    (Text.Decimal (Text.trimBlanks value.toList) n ∧ 0 < n) ∧
      DigitExcess.of? maxDigits (Text.leadingDecimals (Text.trimBlanks value.toList)).length =
        none := by
  simp only [readLimit]
  split
  · next hguard =>
    refine iff_of_false (fun h => by cases h) fun h => ?_
    exact not_isEmpty_or_not_all_iff.mpr ⟨h.1.1.ne_nil h.1.2, h.1.1.isDigit⟩ hguard
  split
  · next excess hexcess => simp [hexcess]
  · next hexcess =>
    rw [← Text.decimalNumber?_eq_some_iff, and_iff_left hexcess]
    split
    · next hnone => simp [hnone]
    · next limit hlimit =>
      rw [hlimit, Option.some.injEq]
      split
      · next hpos =>
        rw [Except.ok.injEq]
        exact ⟨fun h => ⟨h, h ▸ hpos⟩, And.left⟩
      · next hzero =>
        exact iff_of_false (fun h => by cases h) fun h => hzero (h.1 ▸ h.2)

theorem readLimit_eq_tooManyDigits_iff :
    readLimit value maxDigits = .error (.tooManyDigits excess) ↔
      (∀ c ∈ Text.trimBlanks value.toList, Text.isDigit c = true) ∧
      DigitExcess.of? maxDigits (Text.leadingDecimals (Text.trimBlanks value.toList)).length =
        some excess := by
  simp only [readLimit]
  split
  · next hguard =>
    refine iff_of_false (fun h => by cases h) fun h => ?_
    refine not_isEmpty_or_not_all_iff.mpr ⟨fun hnil => ?_, h.1⟩ hguard
    -- no digits are never too many
    obtain ⟨-, hlt, -⟩ := DigitExcess.of?_eq_some_iff.mp h.2
    rw [hnil] at hlt
    exact Nat.not_lt_zero _ hlt
  · next hguard =>
    rw [and_iff_right (not_isEmpty_or_not_all_iff.mp hguard).2]
    split
    · next excess' hexcess =>
      rw [hexcess, Except.error.injEq, SettingsError.tooManyDigits.injEq, Option.some.injEq]
    · next hexcess =>
      rw [hexcess]
      refine iff_of_false (fun h => ?_) (fun h => by cases h)
      split at h
      · cases h
      · split at h <;> cases h

theorem readLimit_eq_notDecimal_iff {shown : String} :
    readLimit value maxDigits = .error (.notDecimal shown) ↔
      String.ofList (Text.trimBlanks value.toList) = shown ∧
      ((∀ c ∈ Text.trimBlanks value.toList, Text.isDigit c = true) ∧
      ∃ c ∈ Text.trimBlanks value.toList, Text.decimalValue? c = none) ∧
      DigitExcess.of? maxDigits (Text.leadingDecimals (Text.trimBlanks value.toList)).length =
        none := by
  simp only [readLimit]
  split
  · next hguard =>
    refine iff_of_false (fun h => by cases h) ?_
    rintro ⟨-, ⟨hdigits, c, hc, -⟩, -⟩
    exact not_isEmpty_or_not_all_iff.mpr ⟨List.ne_nil_of_mem hc, hdigits⟩ hguard
  · next hguard =>
    rw [and_iff_right (not_isEmpty_or_not_all_iff.mp hguard).2]
    split
    · next excess hexcess => simp [hexcess]
    · next hexcess =>
      rw [← Text.decimalNumber?_eq_none_iff, and_iff_left hexcess]
      split
      · next hnone =>
        rw [Except.error.injEq, SettingsError.notDecimal.injEq]
        exact (and_iff_left hnone).symm
      · next limit hlimit =>
        refine iff_of_false (fun h => ?_) fun h => ?_
        · split at h <;> cases h
        · rw [hlimit] at h
          cases h.2

theorem overlong_iff : Overlong maxDigits environment excess ↔
    (∃ severity, Names environment severity) ∧
      (∀ c ∈ limitText environment, Text.isDigit c = true) ∧
      DigitExcess.of? maxDigits (Text.leadingDecimals (limitText environment)).length =
        some excess := by
  rw [DigitExcess.of?_eq_some_iff]
  constructor
  · intro h
    exact ⟨h.severity, h.digits, h.limit, h.count ▸ h.exceeds, h.count⟩
  · rintro ⟨hseverity, hdigits, hlimit, hlt, hcount⟩
    exact ⟨hseverity, hdigits, hlimit, hcount, hcount ▸ hlt⟩

/-- A limit of digits is not too long if they are not too many. -/
theorem forall_not_overlong_iff (hseverity : ∃ severity, Names environment severity)
    (hdigits : ∀ c ∈ limitText environment, Text.isDigit c = true) :
    (∀ excess, ¬ Overlong maxDigits environment excess) ↔
      DigitExcess.of? maxDigits (Text.leadingDecimals (limitText environment)).length = none := by
  rw [Option.eq_none_iff_forall_ne_some]
  refine forall_congr' fun excess => not_congr ?_
  rw [overlong_iff, and_iff_right hseverity, and_iff_right hdigits]

/-- **The settings that are read** are those that the environment describes, unless the limit is too
long. -/
theorem ofEnvironment_eq_ok_iff : ofEnvironment environment maxDigits = .ok settings ↔
    settings.SetBy environment ∧ ∀ excess, ¬ Overlong maxDigits environment excess := by
  rw [ofEnvironment, bind_eq_ok]
  constructor
  · rintro ⟨severity, hseverity, h⟩
    obtain ⟨limit, hlimit, h⟩ := bind_eq_ok.mp h
    cases h
    obtain ⟨⟨hdecimal, hpositive⟩, hshort⟩ := readLimit_eq_ok_iff.mp hlimit
    have hnames := readSeverity_eq_ok_iff.mp hseverity
    exact ⟨⟨hnames, hdecimal, hpositive⟩,
      (forall_not_overlong_iff ⟨severity, hnames⟩ hdecimal.isDigit).mpr hshort⟩
  · rintro ⟨h, hshort⟩
    refine ⟨settings.severity, readSeverity_eq_ok_iff.mpr h.severity, ?_⟩
    refine bind_eq_ok.mpr ⟨_, readLimit_eq_ok_iff.mpr ⟨⟨h.limit, h.positive⟩, ?_⟩, rfl⟩
    exact (forall_not_overlong_iff ⟨_, h.severity⟩ h.limit.isDigit).mp hshort

theorem SetBy.unique {other : Settings} (h : settings.SetBy environment)
    (h' : other.SetBy environment) : settings = other := by
  have hshort : ∀ excess, ¬ Overlong none environment excess := fun _ hexcess => by
    cases hexcess.limit
  have hread := ofEnvironment_eq_ok_iff.mpr ⟨h, hshort⟩
  rw [ofEnvironment_eq_ok_iff.mpr ⟨h', hshort⟩] at hread
  cases hread
  rfl

/-- Reading the settings fails in reading the severity or, if that can be read, the limit. -/
theorem ofEnvironment_eq_error_iff {cause : SettingsError} (hcause : cause ≠ .badSeverity) :
    ofEnvironment environment maxDigits = .error cause ↔
      (∃ severity, Names environment severity) ∧
        readLimit ((environment limitVariable).getD "50") maxDigits = .error cause := by
  rw [ofEnvironment, bind_eq_error]
  constructor
  · rintro (h | ⟨severity, hseverity, h⟩)
    · exact absurd (readSeverity_error h) hcause
    · rcases bind_eq_error.mp h with h | ⟨limit, -, h⟩
      · exact ⟨⟨severity, readSeverity_eq_ok_iff.mp hseverity⟩, h⟩
      · cases h
  · rintro ⟨⟨severity, hseverity⟩, h⟩
    exact Or.inr ⟨severity, readSeverity_eq_ok_iff.mpr hseverity, bind_eq_error.mpr (Or.inl h)⟩

/-- **The settings cannot be read** if the limit has too many digits. -/
theorem ofEnvironment_eq_tooManyDigits_iff :
    ofEnvironment environment maxDigits = .error (.tooManyDigits excess) ↔
      Overlong maxDigits environment excess := by
  rw [ofEnvironment_eq_error_iff SettingsError.noConfusion, readLimit_eq_tooManyDigits_iff,
    overlong_iff]
  rfl

/-- **The settings cannot be read** if the limit has a digit that is not decimal and nothing else is
wrong before. -/
theorem ofEnvironment_eq_notDecimal_iff {shown : String} :
    ofEnvironment environment maxDigits = .error (.notDecimal shown) ↔
      String.ofList (limitText environment) = shown ∧ LoneDigits maxDigits environment := by
  rw [ofEnvironment_eq_error_iff SettingsError.noConfusion, readLimit_eq_notDecimal_iff]
  constructor
  · rintro ⟨hseverity, hshown, ⟨hdigits, hlone⟩, hshort⟩
    exact ⟨hshown, hseverity, hdigits, hlone,
      (forall_not_overlong_iff hseverity hdigits).mpr hshort⟩
  · rintro ⟨hshown, h⟩
    exact ⟨h.severity, hshown, ⟨h.digits, h.lone⟩,
      (forall_not_overlong_iff h.severity h.digits).mp h.short⟩

end Settings

end Deduction
