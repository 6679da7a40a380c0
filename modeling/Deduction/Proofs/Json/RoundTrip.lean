import Deduction.Json.Parser
import Deduction.Json.Printer
import Mathlib.Data.List.Nodup

/-!
# JSON text is read back

What is written by `Json.pretty` is read by `Json.parse` as the value that was written.  This is so
for every value without fractions and exponents in which no object repeats a key (`Json.Lossless`).
Numbers with a fraction are left out because they are written with their shortest digits, and
repeated keys because reading joins them.  Integers may have any number of digits, so they are read
without a limit on these.

Each part of the text is read whatever stands behind it, so that the parts can be put together.
Only an integer has to know what follows, since another digit would belong to it; behind a value
stands a comma, a new line or nothing (`Delimits`).  The counter that bounds the nesting never runs
out: every call that spends a unit leaves a shorter text, so the length of the text is enough.

* `stringRest_escapeUnit`, `parseNumber_intText`: strings and integers.
* `Lossless.parseValue_text`: every value, in front of any text that delimits it.
* `Lossless.parse_pretty`: whole texts.
* `Lossless.ascii_text`: the text is ASCII.
-/

namespace Deduction
namespace Json

/-! ## Strings -/

theorem hexValue?_hexDigit : ∀ n < 16, hexValue? (hexDigit n) = some n := by decide

/-- The four digits of a unit stand for it. -/
theorem hexUnit?_hexDigit (unit : UInt16) :
    hexUnit? (hexDigit (unit.toNat / 4096 % 16)) (hexDigit (unit.toNat / 256 % 16))
      (hexDigit (unit.toNat / 16 % 16)) (hexDigit (unit.toNat % 16)) = some unit := by
  have hdigit : ∀ n, hexValue? (hexDigit (n % 16)) = some (n % 16) :=
    fun n => hexValue?_hexDigit _ (Nat.mod_lt n (by decide))
  have hlt := unit.toNat_lt
  have hsum : ((unit.toNat / 4096 % 16 * 16 + unit.toNat / 256 % 16) * 16 +
      unit.toNat / 16 % 16) * 16 + unit.toNat % 16 = unit.toNat := by
    omega
  rw [hexUnit?, hdigit, hdigit, hdigit, hdigit]
  dsimp only
  rw [hsum]
  exact congrArg some UInt16.ofNat_toNat

theorem toNat_ofNat_of_lt {n : Nat} (h : n < 0x80) : (Char.ofNat n).toNat = n := by
  have hvalid : n.isValidChar := Or.inl (by omega)
  rw [Char.ofNat, dif_pos hvalid]
  rfl

/-- A printable character stands for its own unit. -/
theorem stringRest_ofNat {n : Nat} (hlow : 0x20 ≤ n) (hhigh : n ≤ 0x7e) (hquote : n ≠ 0x22)
    (hslash : n ≠ 0x5c) (done : List UInt16) (rest : List Char) :
    stringRest done (Char.ofNat n :: rest) = stringRest (n.toUInt16 :: done) rest := by
  have hn : (Char.ofNat n).toNat = n := toNat_ofNat_of_lt (by omega)
  generalize Char.ofNat n = c at hn
  subst hn
  have hunits : Text.charUnits c = [c.toNat.toUInt16] := by
    rw [Text.charUnits, if_pos (by omega)]
  have hc : ¬ c = '"' ∧ ¬ c = '\\' := by
    constructor <;> rintro rfl <;> contradiction
  have hplain : (decide (c.toNat < 0x20) || decide (c = '\\')) = false := by
    rw [Bool.or_eq_false_iff, decide_eq_false_iff_not, decide_eq_false_iff_not]
    exact ⟨by omega, hc.2⟩
  rw [stringRest.eq_def]
  split
  · next heq => cases heq
  · next heq => exact absurd (List.cons.inj heq).1 hc.1
  · next heq => exact absurd (List.cons.inj heq).1 hc.2
  · next heq => exact absurd (List.cons.inj heq).1 hc.2
  · next heq =>
    obtain ⟨rfl, rfl⟩ := List.cons.inj heq
    rw [hplain, hunits]
    rfl

/-- The units that have an escape of one letter. -/
def shortUnits : List Nat := [0x22, 0x5c, 0x0a, 0x0d, 0x09, 0x08, 0x0c]

theorem escapeUnit_of_notMem {unit : UInt16} (h : unit.toNat ∉ shortUnits) :
    escapeUnit unit =
      if 0x20 ≤ unit.toNat ∧ unit.toNat ≤ 0x7e then [Char.ofNat unit.toNat]
      else unitEscape unit.toNat := by
  simp only [shortUnits, List.mem_cons, List.not_mem_nil, or_false, not_or] at h
  simp only [escapeUnit, h, if_false]

/-- What is said of a unit by its number is said of the unit. -/
theorem forall_shortUnits {P : UInt16 → Prop} (h : ∀ n ∈ shortUnits, P n.toUInt16) {unit : UInt16}
    (hunit : unit.toNat ∈ shortUnits) : P unit := by
  have hP := h unit.toNat hunit
  rw [Nat.toUInt16_eq, UInt16.ofNat_toNat] at hP
  exact hP

/-- **A unit is read back from what was written for it**, whatever follows. -/
theorem stringRest_escapeUnit (unit : UInt16) (done : List UInt16) (rest : List Char) :
    stringRest done (escapeUnit unit ++ rest) = stringRest (unit :: done) rest := by
  by_cases hshort : unit.toNat ∈ shortUnits
  · refine forall_shortUnits (P := fun unit =>
      stringRest done (escapeUnit unit ++ rest) = stringRest (unit :: done) rest) ?_ hshort
    simp only [shortUnits, List.forall_mem_cons]
    exact ⟨rfl, rfl, rfl, rfl, rfl, rfl, rfl, fun _ h => nomatch h⟩
  · rw [escapeUnit_of_notMem hshort]
    split
    · next hprintable =>
      rw [List.singleton_append, stringRest_ofNat hprintable.1 hprintable.2, Nat.toUInt16_eq,
        UInt16.ofNat_toNat]
      · exact fun h => hshort (h ▸ by decide)
      · exact fun h => hshort (h ▸ by decide)
    · simp only [unitEscape, List.cons_append, List.nil_append]
      rw [stringRest, hexUnit?_hexDigit]

theorem stringRest_escapeUnits (units done : List UInt16) (rest : List Char) :
    stringRest done (units.flatMap escapeUnit ++ '"' :: rest) =
      some (⟨done.reverse ++ units⟩, rest) := by
  induction units generalizing done with
  | nil => rw [List.flatMap_nil, List.nil_append, stringRest, List.append_nil]
  | cons unit units ih =>
    rw [List.flatMap_cons, List.append_assoc, stringRest_escapeUnit, ih, List.reverse_cons,
      List.append_assoc, List.singleton_append]

/-- A string is read back from its text. -/
theorem stringText_append (t : Text) (rest : List Char) :
    ∃ body, stringText t ++ rest = '"' :: body ∧ stringRest [] body = some (t, rest) := by
  refine ⟨t.units.flatMap escapeUnit ++ '"' :: rest, ?_, stringRest_escapeUnits t.units [] rest⟩
  rw [stringText, List.cons_append, List.append_assoc, List.singleton_append]

/-! ## Integers -/

/-- The text that may follow a value. -/
def Delimits (rest : List Char) : Prop := ∀ c ∈ rest.head?, c = ',' ∨ c = '\n'

theorem delimits_nil : Delimits [] := fun _ h => nomatch h

theorem delimits_cons {c : Char} (h : c = ',' ∨ c = '\n') (rest : List Char) :
    Delimits (c :: rest) := by
  intro d hd
  rw [← Option.some.inj hd]
  exact h

variable {rest : List Char}

theorem takeDigits_append (hrest : Delimits rest) {digits : List Char}
    (h : ∀ c ∈ digits, c.isDigit = true) : takeDigits (digits ++ rest) = (digits, rest) := by
  induction digits with
  | nil =>
    cases rest with
    | nil => rfl
    | cons c rest =>
      rcases hrest c rfl with rfl | rfl <;> rfl
  | cons c digits ih =>
    rw [List.forall_mem_cons] at h
    rw [List.cons_append, takeDigits, if_pos h.1, ih h.2]

theorem exists_toDigits_eq_cons (n : Nat) :
    ∃ c cs, Nat.toDigits 10 n = c :: cs ∧ c.isDigit = true := by
  obtain ⟨c, cs, hcs⟩ := List.exists_cons_of_ne_nil (Nat.toDigits_ne_nil (n := n) (b := 10))
  exact ⟨c, cs, hcs, Nat.isDigit_of_mem_toDigits (by decide) (by decide) (hcs ▸ List.mem_cons_self)⟩

/-- Only the zero starts with a zero. -/
theorem toDigits_eq_zero_cons {n : Nat} {digits : List Char}
    (h : Nat.toDigits 10 n = '0' :: digits) : n = 0 := by
  induction n using Nat.strongRecOn generalizing digits with
  | ind n ih =>
    by_cases hn : n < 10
    · rw [Nat.toDigits_of_lt_base hn] at h
      have hdigit : ∀ m < 10, m.digitChar = '0' → m = 0 := by decide
      exact hdigit n hn (List.cons.inj h).1
    · rw [Nat.toDigits_of_base_le (by decide) (by omega)] at h
      obtain ⟨c, cs, hcs, -⟩ := exists_toDigits_eq_cons (n / 10)
      rw [hcs, List.cons_append] at h
      rw [(List.cons.inj h).1] at hcs
      have hzero := ih (n / 10) (by omega) hcs
      omega

theorem takeWhole_toDigits (hrest : Delimits rest) (n : Nat) :
    takeWhole (Nat.toDigits 10 n ++ rest) = some (Nat.toDigits 10 n, rest) := by
  have hdigits : ∀ c ∈ Nat.toDigits 10 n, c.isDigit = true :=
    fun c hc => Nat.isDigit_of_mem_toDigits (by decide) (by decide) hc
  have htake := takeDigits_append hrest hdigits
  obtain ⟨c, cs, hcs, -⟩ := exists_toDigits_eq_cons n
  by_cases hc : c = '0'
  · subst hc
    rw [toDigits_eq_zero_cons hcs]
    rfl
  · rw [hcs] at htake ⊢
    rw [takeWhole.eq_def]
    split
    · next heq => exact absurd (List.cons.inj heq).1 hc
    · rw [htake]

theorem takeFraction_of_delimits (hrest : Delimits rest) : takeFraction rest = ([], rest) := by
  cases rest with
  | nil => rfl
  | cons c rest => rcases hrest c rfl with rfl | rfl <;> rfl

theorem takeExponent_of_delimits (hrest : Delimits rest) : takeExponent rest = (none, rest) := by
  cases rest with
  | nil => rfl
  | cons c rest => rcases hrest c rfl with rfl | rfl <;> rfl

theorem parseUnsigned_toDigits (hrest : Delimits rest) (negative : Bool) (n : Nat) :
    parseUnsigned none negative (Nat.toDigits 10 n ++ rest) =
      .ok (.int (if negative then -n else n), rest) := by
  rw [parseUnsigned, takeWhole_toDigits hrest]
  dsimp only
  rw [takeFraction_of_delimits hrest, takeExponent_of_delimits hrest]
  simp [NumberText.excess?, NumberText.value, NumberText.isInteger, Nat.ofDigitChars_toDigits]

/-- The first character of a number decides how it is read. -/
theorem parseNumber_of_isDigit {c : Char} (h : c.isDigit = true) (text : List Char) :
    parseNumber none (c :: text) = parseUnsigned none false (c :: text) := by
  rw [parseNumber.eq_def]
  split <;> simp_all

/-- **An integer is read back from its digits.** -/
theorem parseNumber_intText (hrest : Delimits rest) (n : Int) :
    parseNumber none (intText n ++ rest) = .ok (.int n, rest) := by
  cases n with
  | ofNat n =>
    obtain ⟨c, cs, hcs, hc⟩ := exists_toDigits_eq_cons n
    have hread := parseUnsigned_toDigits hrest false n
    rw [intText]
    rw [hcs] at hread ⊢
    rw [List.cons_append, parseNumber_of_isDigit hc]
    exact hread
  | negSucc n =>
    obtain ⟨c, cs, hcs, hc⟩ := exists_toDigits_eq_cons (n + 1)
    have hread := parseUnsigned_toDigits hrest true (n + 1)
    have hword : dropWord ['I', 'n', 'f', 'i', 'n', 'i', 't', 'y'] (c :: cs ++ rest) = none := by
      rw [List.cons_append, dropWord, if_neg]
      rintro rfl
      contradiction
    rw [intText]
    rw [hcs] at hread ⊢
    rw [List.cons_append, parseNumber, hword]
    exact hread

/-! ## Values -/

/-- The values that writing keeps: they hold no fractions, and no object has a key twice. -/
inductive Lossless : Json → Prop
  | null : Lossless .null
  | bool (value : Bool) : Lossless (.bool value)
  | int (value : Int) : Lossless (.int value)
  | str (value : Text) : Lossless (.str value)
  | arr {items : List Json} : (∀ item ∈ items, Lossless item) → Lossless (.arr items)
  | obj {members : List (Text × Json)} : (members.map Prod.fst).Nodup →
      (∀ member ∈ members, Lossless member.2) → Lossless (.obj members)

theorem lossless_word (s : String) : (word s).Lossless := .str s

/-- A value starts with a character that is neither a blank nor a closing bracket. -/
theorem Lossless.exists_text_eq_cons {j : Json} (h : j.Lossless) (level : Nat) :
    ∃ c cs, text level j = c :: cs ∧ isSpace c = false ∧ c ≠ ']' := by
  cases h with
  | null => exact ⟨_, _, rfl, rfl, by decide⟩
  | bool value => cases value <;> exact ⟨_, _, rfl, rfl, by decide⟩
  | int value =>
    cases value with
    | ofNat n =>
      obtain ⟨c, cs, hcs, hc⟩ := exists_toDigits_eq_cons n
      refine ⟨c, cs, hcs, ?_, ?_⟩
      · by_contra hspace
        simp only [isSpace, Bool.not_eq_false, Bool.or_eq_true, decide_eq_true_eq] at hspace
        rcases hspace with ((rfl | rfl) | rfl) | rfl <;> contradiction
      · rintro rfl
        contradiction
    | negSucc n => exact ⟨'-', _, rfl, rfl, by decide⟩
  | str value => exact ⟨'"', _, rfl, rfl, by decide⟩
  | @arr items _ => cases items <;> exact ⟨'[', _, rfl, rfl, by decide⟩
  | @obj members _ _ => cases members <;> exact ⟨'{', _, rfl, rfl, by decide⟩

theorem skipSpaces_newLine (level : Nat) (rest : List Char) :
    skipSpaces (newLine level ++ rest) = skipSpaces rest := by
  have hblanks : ∀ n, skipSpaces (List.replicate n ' ' ++ rest) = skipSpaces rest := by
    intro n
    induction n with
    | zero => rfl
    | succ n ih => exact ih
  exact hblanks (2 * level)

/-- Blanks end where a value starts. -/
theorem Lossless.skipSpaces_text {j : Json} (h : j.Lossless) (level : Nat) (rest : List Char) :
    skipSpaces (text level j ++ rest) = text level j ++ rest := by
  obtain ⟨c, cs, htext, hspace, -⟩ := h.exists_text_eq_cons level
  rw [htext, List.cons_append, skipSpaces, hspace]
  rfl

/-- A value is read back from its text in front of anything that delimits it. -/
def ReadsBack (j : Json) : Prop :=
  ∀ (level fuel : Nat) (rest : List Char), (text level j).length ≤ fuel → Delimits rest →
    parseValue none fuel (text level j ++ rest) = .ok (j, rest)

theorem Lossless.readsBack {j : Json} (hj : j.Lossless)
    (h : ∀ (level fuel : Nat) (rest : List Char), (text level j).length ≤ fuel + 1 →
      Delimits rest → parseValue none (fuel + 1) (text level j ++ rest) = .ok (j, rest)) :
    j.ReadsBack := by
  intro level fuel rest hfuel hrest
  obtain ⟨c, cs, htext, -⟩ := hj.exists_text_eq_cons level
  cases fuel with
  | zero =>
    rw [htext] at hfuel
    cases hfuel
  | succ fuel => exact h level fuel rest hfuel hrest

/-- What starts with a digit or a sign is a number. -/
theorem parseValue_eq_parseNumber {c : Char} (h : c.isDigit = true ∨ c = '-') (fuel : Nat)
    (text : List Char) : parseValue none (fuel + 1) (c :: text) = parseNumber none (c :: text) := by
  rw [parseValue]
  all_goals
    intro rest heq
    rw [(List.cons.inj heq).1] at h
    revert h
    decide

theorem parseValue_bracket {c : Char} {opened more : List Char} (h : skipSpaces opened = c :: more)
    (hc : c ≠ ']') (fuel : Nat) :
    parseValue none (fuel + 1) ('[' :: opened) = parseItems none fuel [] (c :: more) := by
  rw [parseValue, h]
  split
  · next heq => exact absurd (List.cons.inj heq).1 hc
  · rfl

theorem parseValue_brace {opened more : List Char} (h : skipSpaces opened = '"' :: more)
    (fuel : Nat) :
    parseValue none (fuel + 1) ('{' :: opened) = parseMembers none fuel [] ('"' :: more) := by
  rw [parseValue, h]
  rfl

theorem delimits_newLine (level : Nat) (rest : List Char) : Delimits (newLine level ++ rest) :=
  delimits_cons (Or.inr rfl) _

theorem delimits_itemsText (level close : Nat) (items : List Json) (rest : List Char) :
    Delimits (itemsText level items ++ (newLine close ++ rest)) := by
  cases items with
  | nil => exact delimits_newLine close rest
  | cons item items => exact delimits_cons (Or.inl rfl) _

theorem delimits_membersText (level close : Nat) (members : List (Text × Json))
    (rest : List Char) : Delimits (membersText level members ++ (newLine close ++ rest)) := by
  cases members with
  | nil => exact delimits_newLine close rest
  | cons member members => exact delimits_cons (Or.inl rfl) _

/-- The items of an array are read one by one. -/
theorem parseItems_itemsText {item : Json} {items : List Json}
    (hlossless : ∀ j ∈ item :: items, j.Lossless) (hreads : ∀ j ∈ item :: items, j.ReadsBack)
    (level close fuel : Nat) (done : List Json) (rest : List Char)
    (hfuel : (text level item ++ itemsText level items).length + 1 ≤ fuel) :
    parseItems none fuel done
      (text level item ++ (itemsText level items ++ (newLine close ++ ']' :: rest))) =
        .ok (.arr (done.reverse ++ item :: items), rest) := by
  induction items generalizing item fuel done with
  | nil =>
    obtain ⟨fuel, rfl⟩ := Nat.exists_eq_add_one_of_ne_zero (by omega : fuel ≠ 0)
    rw [itemsText, List.append_nil] at hfuel
    have hitem := hreads item List.mem_cons_self level fuel _ (by omega)
      (delimits_newLine close (']' :: rest))
    rw [parseItems, itemsText, List.nil_append, hitem]
    dsimp only
    rw [skipSpaces_newLine]
    show Except.ok (Json.arr (item :: done).reverse, rest) = _
    rw [List.reverse_cons]
  | cons next items ih =>
    obtain ⟨fuel, rfl⟩ := Nat.exists_eq_add_one_of_ne_zero (by omega : fuel ≠ 0)
    rw [List.forall_mem_cons] at hlossless hreads
    simp only [itemsText, newLine, List.length_append, List.length_cons] at hfuel
    have hitem := hreads.1 level fuel _ (by omega) (delimits_itemsText level close (next :: items)
      (']' :: rest))
    have hrest := ih hlossless.2 hreads.2 fuel (item :: done) (by rw [List.length_append]; omega)
    rw [parseItems, hitem]
    dsimp only
    rw [itemsText, List.cons_append, skipSpaces]
    show parseItems none fuel (item :: done) (skipSpaces _) = _
    rw [List.append_assoc, List.append_assoc, skipSpaces_newLine,
      (hlossless.2 next List.mem_cons_self).skipSpaces_text, hrest, List.reverse_cons,
      List.append_assoc, List.singleton_append]

theorem setMember_of_notMem {key : Text} {value : Json} {members : List (Text × Json)}
    (h : key ∉ members.map Prod.fst) : setMember key value members = members ++ [(key, value)] := by
  induction members with
  | nil => rfl
  | cons member members ih =>
    rw [List.map_cons, List.mem_cons, not_or] at h
    rw [setMember, if_neg (Ne.symm h.1), ih h.2]
    rfl

/-- One member with a new key is read. -/
theorem parseMembers_of_readsBack {key : Text} {value : Json} (hlossless : value.Lossless)
    (hreads : value.ReadsBack) {level fuel : Nat} (hfuel : (text level value).length ≤ fuel)
    {done : List (Text × Json)} (hkey : key ∉ done.map Prod.fst) (hrest : Delimits rest) :
    (∀ next, skipSpaces rest = ',' :: next →
      parseMembers none (fuel + 1) done
        (stringText key ++ (':' :: ' ' :: (text level value ++ rest))) =
        parseMembers none fuel (done ++ [(key, value)]) (skipSpaces next)) ∧
    ∀ next, skipSpaces rest = '}' :: next →
      parseMembers none (fuel + 1) done
        (stringText key ++ (':' :: ' ' :: (text level value ++ rest))) =
        .ok (.obj (done ++ [(key, value)]), next) := by
  obtain ⟨body, hbody, hstring⟩ := stringText_append key (':' :: ' ' :: (text level value ++ rest))
  have hblank : skipSpaces (' ' :: (text level value ++ rest)) = text level value ++ rest :=
    hlossless.skipSpaces_text level rest
  have hcolon : skipSpaces (':' :: ' ' :: (text level value ++ rest)) =
      ':' :: ' ' :: (text level value ++ rest) := rfl
  have hvalue := hreads level fuel rest hfuel hrest
  rw [hbody]
  constructor
  · intro next hnext
    simp only [parseMembers, hstring, hcolon, hblank, hvalue, setMember_of_notMem hkey, hnext]
  · intro next hnext
    simp only [parseMembers, hstring, hcolon, hblank, hvalue, setMember_of_notMem hkey, hnext]

/-- The members of an object are read one by one. -/
theorem parseMembers_membersText {key : Text} {value : Json} {members : List (Text × Json)}
    (hlossless : ∀ m ∈ (key, value) :: members, m.2.Lossless)
    (hreads : ∀ m ∈ (key, value) :: members, m.2.ReadsBack) (level close fuel : Nat)
    (done : List (Text × Json)) (rest : List Char)
    (hkeys : ((done ++ (key, value) :: members).map Prod.fst).Nodup)
    (hfuel : (text level value ++ membersText level members).length + 1 ≤ fuel) :
    parseMembers none fuel done
      (stringText key ++ (':' :: ' ' :: (text level value ++
        (membersText level members ++ (newLine close ++ '}' :: rest))))) =
          .ok (.obj (done ++ (key, value) :: members), rest) := by
  induction members generalizing key value fuel done with
  | nil =>
    obtain ⟨fuel, rfl⟩ := Nat.exists_eq_add_one_of_ne_zero (by omega : fuel ≠ 0)
    have hkey : key ∉ done.map Prod.fst := by
      rw [List.map_append] at hkeys
      exact fun hmem => (List.nodup_append.mp hkeys).2.2 key hmem key List.mem_cons_self rfl
    rw [membersText, List.append_nil] at hfuel
    rw [List.forall_mem_singleton] at hlossless hreads
    rw [membersText, List.nil_append]
    exact (parseMembers_of_readsBack hlossless hreads (Nat.le_of_succ_le_succ hfuel) hkey
      (delimits_newLine close _)).2 rest (skipSpaces_newLine close _)
  | cons next members ih =>
    obtain ⟨fuel, rfl⟩ := Nat.exists_eq_add_one_of_ne_zero (by omega : fuel ≠ 0)
    obtain ⟨nextKey, nextValue⟩ := next
    have hkey : key ∉ done.map Prod.fst := by
      rw [List.map_append] at hkeys
      exact fun hmem => (List.nodup_append.mp hkeys).2.2 key hmem key List.mem_cons_self rfl
    rw [List.forall_mem_cons] at hlossless hreads
    simp only [membersText, newLine, List.length_append, List.length_cons] at hfuel
    have hvalue : (text level value).length ≤ fuel := by omega
    have hrest := ih hlossless.2 hreads.2 fuel (done ++ [(key, value)])
      (by rw [List.append_assoc]; exact hkeys) (by rw [List.length_append]; omega)
    have hcomma : skipSpaces (membersText level ((nextKey, nextValue) :: members) ++
        (newLine close ++ '}' :: rest)) =
          ',' :: (newLine level ++ (stringText nextKey ++ (':' :: ' ' :: (text level nextValue ++
            (membersText level members ++ (newLine close ++ '}' :: rest)))))) := by
      simp only [membersText, List.cons_append, List.append_assoc]
      rfl
    have hquote : ∀ more, skipSpaces (stringText nextKey ++ more) = stringText nextKey ++ more :=
      fun more => rfl
    rw [(parseMembers_of_readsBack hlossless.1 hreads.1 hvalue hkey
      (delimits_membersText level close _ _)).1 _ hcomma, skipSpaces_newLine, hquote, hrest,
      List.append_assoc, List.singleton_append]

/-- **Every value that writing keeps is read back from its text.** -/
theorem Lossless.parseValue_text {j : Json} (h : j.Lossless) : j.ReadsBack := by
  induction h with
  | null => exact Lossless.null.readsBack fun level fuel rest _ _ => rfl
  | bool value =>
    refine (Lossless.bool value).readsBack fun level fuel rest _ _ => ?_
    cases value <;> rfl
  | int value =>
    refine (Lossless.int value).readsBack fun level fuel rest _ hrest => ?_
    rw [text, ← parseNumber_intText hrest]
    cases value with
    | ofNat n =>
      obtain ⟨c, cs, hcs, hc⟩ := exists_toDigits_eq_cons n
      rw [intText, hcs]
      exact parseValue_eq_parseNumber (Or.inl hc) fuel (cs ++ rest)
    | negSucc n => exact parseValue_eq_parseNumber (Or.inr rfl) fuel _
  | str value =>
    refine (Lossless.str value).readsBack fun level fuel rest _ _ => ?_
    obtain ⟨body, hbody, hstring⟩ := stringText_append value rest
    rw [text, hbody, parseValue, hstring]
  | @arr items hitems ih =>
    refine (Lossless.arr hitems).readsBack fun level fuel rest hfuel _ => ?_
    cases items with
    | nil => rfl
    | cons item items =>
      obtain ⟨c, cs, htext, -, hclose⟩ :=
        (hitems item List.mem_cons_self).exists_text_eq_cons (level + 1)
      simp only [text, newLine, List.length_append, List.length_cons] at hfuel
      have hread := parseItems_itemsText hitems ih (level + 1) level fuel [] rest
        (by rw [List.length_append]; omega)
      have hopened := (hitems item List.mem_cons_self).skipSpaces_text (level + 1)
        (itemsText (level + 1) items ++ (newLine level ++ ']' :: rest))
      rw [← skipSpaces_newLine (level + 1)] at hopened
      nth_rewrite 2 [htext] at hopened
      rw [htext] at hread
      have hvalue := (parseValue_bracket hopened hclose fuel).trans hread
      simp only [text, List.cons_append, List.append_assoc] at hvalue ⊢
      exact hvalue
  | @obj members hkeys hmembers ih =>
    refine (Lossless.obj hkeys hmembers).readsBack fun level fuel rest hfuel _ => ?_
    cases members with
    | nil => rfl
    | cons member members =>
      obtain ⟨key, value⟩ := member
      simp only [text, newLine, List.length_append, List.length_cons] at hfuel
      have hread := parseMembers_membersText hmembers ih (level + 1) level fuel [] rest hkeys
        (by rw [List.length_append]; omega)
      obtain ⟨body, hbody, -⟩ := stringText_append key (':' :: ' ' :: (text (level + 1) value ++
        (membersText (level + 1) members ++ (newLine level ++ '}' :: rest))))
      rw [hbody] at hread
      have hopened : skipSpaces (newLine (level + 1) ++ '"' :: body) = '"' :: body :=
        skipSpaces_newLine (level + 1) _
      have hvalue := (parseValue_brace hopened fuel).trans hread
      rw [← hbody] at hvalue
      simp only [text, List.cons_append, List.append_assoc] at hvalue ⊢
      exact hvalue

/-- **What was written is read back.** -/
theorem Lossless.parse_pretty {j : Json} (h : j.Lossless) : parse j.pretty.toList = .ok j := by
  have hblanks := h.skipSpaces_text 0 []
  have hread := h.parseValue_text 0 (2 * (text 0 j).length + 2) [] (by omega) delimits_nil
  rw [List.append_nil] at hblanks hread
  rw [pretty, String.toList_ofList, parse, hblanks, hread]
  rfl

/-! ## ASCII -/

/-- Text that every reader reads alike. -/
def Ascii (cs : List Char) : Prop := ∀ c ∈ cs, c.toNat < 0x80

instance (cs : List Char) : Decidable (Ascii cs) :=
  List.decidableBAll (fun c : Char => c.toNat < 0x80) cs

@[simp] theorem ascii_nil : Ascii [] := fun _ h => nomatch h

@[simp] theorem ascii_cons {c : Char} {cs : List Char} :
    Ascii (c :: cs) ↔ c.toNat < 0x80 ∧ Ascii cs := List.forall_mem_cons

@[simp] theorem ascii_append {cs ds : List Char} : Ascii (cs ++ ds) ↔ Ascii cs ∧ Ascii ds :=
  List.forall_mem_append

theorem ascii_unitEscape (n : Nat) : Ascii (unitEscape n) := by
  have hdigit : ∀ k < 16, (hexDigit k).toNat < 0x80 := by decide
  have hmod : ∀ k, (hexDigit (k % 16)).toNat < 0x80 := fun k => hdigit _ (Nat.mod_lt k (by decide))
  simp only [unitEscape, ascii_cons]
  exact ⟨by decide, by decide, hmod _, hmod _, hmod _, hmod _, ascii_nil⟩

theorem ascii_escapeUnit (unit : UInt16) : Ascii (escapeUnit unit) := by
  by_cases hshort : unit.toNat ∈ shortUnits
  · refine forall_shortUnits (P := fun unit => Ascii (escapeUnit unit)) ?_ hshort
    decide
  · rw [escapeUnit_of_notMem hshort]
    split
    · next h =>
      rw [ascii_cons, toNat_ofNat_of_lt (by omega)]
      exact ⟨by omega, ascii_nil⟩
    · exact ascii_unitEscape unit.toNat

theorem ascii_stringText (t : Text) : Ascii (stringText t) := by
  have hunits : Ascii (t.units.flatMap escapeUnit) := by
    intro c hc
    obtain ⟨unit, -, hmem⟩ := List.mem_flatMap.mp hc
    exact ascii_escapeUnit unit c hmem
  rw [stringText, ascii_cons, ascii_append]
  exact ⟨by decide, hunits, ascii_cons.mpr ⟨by decide, ascii_nil⟩⟩

theorem ascii_newLine (level : Nat) : Ascii (newLine level) := by
  refine ascii_cons.mpr ⟨by decide, fun c hc => ?_⟩
  rw [List.eq_of_mem_replicate hc]
  decide

theorem ascii_toDigits (n : Nat) : Ascii (Nat.toDigits 10 n) := by
  intro c hc
  have hdigit := Nat.isDigit_of_mem_toDigits (by decide) (by decide) hc
  rw [Char.isDigit, Bool.and_eq_true, decide_eq_true_eq, decide_eq_true_eq] at hdigit
  exact Nat.lt_of_le_of_lt hdigit.2 (by decide)

theorem ascii_itemsText {items : List Json} (level : Nat)
    (h : ∀ item ∈ items, Ascii (text level item)) : Ascii (itemsText level items) := by
  induction items with
  | nil => exact ascii_nil
  | cons item items ih =>
    rw [List.forall_mem_cons] at h
    simp only [itemsText, ascii_cons, ascii_append]
    exact ⟨by decide, ascii_newLine level, h.1, ih h.2⟩

theorem ascii_membersText {members : List (Text × Json)} (level : Nat)
    (h : ∀ member ∈ members, Ascii (text level member.2)) :
    Ascii (membersText level members) := by
  induction members with
  | nil => exact ascii_nil
  | cons member members ih =>
    rw [List.forall_mem_cons] at h
    simp only [membersText, ascii_cons, ascii_append]
    exact ⟨by decide, ascii_newLine level, ascii_stringText member.1, by decide, by decide, h.1,
      ih h.2⟩

/-- **The text of a value is ASCII.** -/
theorem Lossless.ascii_text {j : Json} (h : j.Lossless) (level : Nat) : Ascii (text level j) := by
  induction h generalizing level with
  | null =>
    rw [text]
    decide
  | bool value => cases value <;> rw [text] <;> decide
  | int value =>
    cases value with
    | ofNat n => exact ascii_toDigits n
    | negSucc n => exact ascii_cons.mpr ⟨by decide, ascii_toDigits (n + 1)⟩
  | str value => exact ascii_stringText value
  | @arr items _ ih =>
    cases items with
    | nil =>
      rw [text]
      decide
    | cons item items =>
      rw [List.forall_mem_cons] at ih
      simp only [text, ascii_cons, ascii_append]
      exact ⟨by decide, ascii_newLine _, ih.1 _, ascii_itemsText _ fun item h => ih.2 item h _,
        ascii_newLine level, by decide, ascii_nil⟩
  | @obj members _ _ ih =>
    cases members with
    | nil =>
      rw [text]
      decide
    | cons member members =>
      rw [List.forall_mem_cons] at ih
      simp only [text, ascii_cons, ascii_append]
      exact ⟨by decide, ascii_newLine _, ascii_stringText member.1, by decide, by decide, ih.1 _,
        ascii_membersText _ fun member h => ih.2 member h _, ascii_newLine level, by decide,
        ascii_nil⟩

end Json
end Deduction
