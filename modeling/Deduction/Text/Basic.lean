/-!
# Text

A text is a sequence of UTF-16 units, which is what the strings of a JSON document are made of.
Nearly every text is a string of characters, and `Text.ofString` makes it one.  A document may also
escape half of a surrogate pair without its other half.  Such a half is no character, but it is kept
and written back, so a text can hold it.

* `Text.ofString`: the units of a string.
* `Text.codePoints`: the characters of a text, and the halves that stand alone.
* `Text.codePoints_ofString`, `Text.ofString_inj`: nothing of a string is lost.
-/

namespace Deduction

/-- A text. -/
structure Text where
  units : List UInt16
  deriving DecidableEq, Repr, Inhabited

namespace Text

/-! ## Units of characters -/

/-- The units of a character: one, or a surrogate pair. -/
def charUnits (c : Char) : List UInt16 :=
  if c.toNat < 0x10000 then [c.toNat.toUInt16]
  else
    let offset := c.toNat - 0x10000
    [(0xd800 + offset / 0x400).toUInt16, (0xdc00 + offset % 0x400).toUInt16]

/-- The text of a string. -/
def ofString (s : String) : Text := ⟨s.toList.flatMap charUnits⟩

instance : Coe String Text := ⟨ofString⟩

/-! ## Joining texts -/

instance : Append Text := ⟨fun first second => ⟨first.units ++ second.units⟩⟩

@[simp] theorem units_append (first second : Text) :
    (first ++ second).units = first.units ++ second.units := rfl

/-- Whether there is nothing in a text. -/
def isEmpty (t : Text) : Bool := t.units.isEmpty

/-- Texts with a separator between them. -/
def intercalate (separator : Text) (parts : List Text) : Text :=
  ⟨separator.units.intercalate (parts.map units)⟩

/-! ## Code points -/

/-- What the units of a text stand for: a character, or half of a surrogate pair that stands
alone. -/
inductive CodePoint where
  | char (c : Char)
  | half (unit : UInt16)
  deriving DecidableEq, Repr

/-- The first half of a surrogate pair. -/
def isHighHalf (unit : UInt16) : Bool := 0xd800 ≤ unit.toNat && unit.toNat ≤ 0xdbff

/-- The second half of a surrogate pair. -/
def isLowHalf (unit : UInt16) : Bool := 0xdc00 ≤ unit.toNat && unit.toNat ≤ 0xdfff

/-- The character of a surrogate pair. -/
def pairChar (high low : UInt16) : Char :=
  Char.ofNat (0x10000 + (high.toNat - 0xd800) * 0x400 + (low.toNat - 0xdc00))

namespace CodePoint

/-- What a unit stands for by itself. -/
def ofUnit (unit : UInt16) : CodePoint :=
  if isHighHalf unit || isLowHalf unit then .half unit else .char (Char.ofNat unit.toNat)

/-- The text that holds nothing else. -/
def text : CodePoint → Text
  | .char c => ⟨charUnits c⟩
  | .half unit => ⟨[unit]⟩

end CodePoint

/-- What units stand for. -/
def codePointsOf : List UInt16 → List CodePoint
  | [] => []
  | [unit] => [.ofUnit unit]
  | unit :: next :: rest =>
    if isHighHalf unit && isLowHalf next then .char (pairChar unit next) :: codePointsOf rest
    else .ofUnit unit :: codePointsOf (next :: rest)

/-- The characters of a text, and the halves that stand alone. -/
def codePoints (t : Text) : List CodePoint := codePointsOf t.units

/-- A unit that is no first half stands for itself, whatever follows. -/
theorem codePointsOf_cons_of_not_high {unit : UInt16} (h : isHighHalf unit = false)
    (rest : List UInt16) : codePointsOf (unit :: rest) = .ofUnit unit :: codePointsOf rest := by
  cases rest with
  | nil => rfl
  | cons next rest => simp [codePointsOf, h]

/-- The units of a character stand for it, whatever follows. -/
theorem codePointsOf_charUnits_append (c : Char) (rest : List UInt16) :
    codePointsOf (charUnits c ++ rest) = .char c :: codePointsOf rest := by
  have valid : c.toNat < 0xd800 ∨ 0xdfff < c.toNat ∧ c.toNat < 0x110000 := c.valid
  by_cases h : c.toNat < 0x10000
  · have small : c.toNat.toUInt16.toNat = c.toNat := by
      rw [UInt16.toNat_ofNat']
      omega
    have high : isHighHalf c.toNat.toUInt16 = false := by
      simp only [isHighHalf, small, Bool.and_eq_false_imp, decide_eq_true_eq,
        decide_eq_false_iff_not]
      omega
    have low : isLowHalf c.toNat.toUInt16 = false := by
      simp only [isLowHalf, small, Bool.and_eq_false_imp, decide_eq_true_eq,
        decide_eq_false_iff_not]
      omega
    simp [charUnits, h, codePointsOf_cons_of_not_high high, CodePoint.ofUnit, high, low, small]
  · have first : (0xd800 + (c.toNat - 0x10000) / 0x400).toUInt16.toNat =
        0xd800 + (c.toNat - 0x10000) / 0x400 := by
      rw [UInt16.toNat_ofNat']
      omega
    have second : (0xdc00 + (c.toNat - 0x10000) % 0x400).toUInt16.toNat =
        0xdc00 + (c.toNat - 0x10000) % 0x400 := by
      rw [UInt16.toNat_ofNat']
      omega
    have high : isHighHalf (0xd800 + (c.toNat - 0x10000) / 0x400).toUInt16 = true := by
      simp only [isHighHalf, first, Bool.and_eq_true, decide_eq_true_eq]
      omega
    have low : isLowHalf (0xdc00 + (c.toNat - 0x10000) % 0x400).toUInt16 = true := by
      simp only [isLowHalf, second, Bool.and_eq_true, decide_eq_true_eq]
      omega
    have joined : pairChar (0xd800 + (c.toNat - 0x10000) / 0x400).toUInt16
        (0xdc00 + (c.toNat - 0x10000) % 0x400).toUInt16 = c := by
      rw [pairChar, first, second]
      have sum : 0x10000 + (0xd800 + (c.toNat - 0x10000) / 0x400 - 0xd800) * 0x400 +
          (0xdc00 + (c.toNat - 0x10000) % 0x400 - 0xdc00) = c.toNat := by omega
      rw [sum, Char.ofNat_toNat]
    rw [charUnits, if_neg h, List.cons_append, List.cons_append, List.nil_append, codePointsOf,
      high, low, joined]
    rfl

/-- A string is read back from its units. -/
@[simp] theorem codePoints_ofString (s : String) :
    (ofString s).codePoints = s.toList.map .char := by
  have all : ∀ cs : List Char, codePointsOf (cs.flatMap charUnits) = cs.map .char := by
    intro cs
    induction cs with
    | nil => rfl
    | cons c cs ih => rw [List.flatMap_cons, codePointsOf_charUnits_append, ih, List.map_cons]
  exact all s.toList

/-- Different strings have different units. -/
@[simp] theorem ofString_inj {s t : String} : ofString s = ofString t ↔ s = t := by
  constructor
  · intro h
    have points := congrArg codePoints h
    rw [codePoints_ofString, codePoints_ofString] at points
    have same : s.toList = t.toList :=
      (List.map_inj_right fun _ _ => CodePoint.char.inj).1 points
    exact String.toList_inj.1 same
  · intro h
    rw [h]

end Text

end Deduction
