import Deduction.Number.Binary64
import Deduction.Text.Basic

/-!
# JSON values

The value type of documents.  Some points differ from the bare minimum, because documents are
written back and quoted in messages exactly as they came:

* integers and numbers with a fraction or an exponent are different values, so `1` is not `1.0`;
* integers have no bounds;
* strings and keys are `Text`s, which may hold half of a surrogate pair;
* an object keeps its members in the order of the text.  A key stands in it once: a second
  occurrence of a key in the text replaces the value and keeps the place (`setMember`).

Equality is decided by `Json.beq`, which is structural.
-/

namespace Deduction

/-- A JSON value. -/
inductive Json where
  | null
  | bool (value : Bool)
  | int (value : Int)
  | float (value : Binary64)
  | str (value : Text)
  | arr (items : List Json)
  | obj (members : List (Text × Json))
  deriving Repr, Inhabited

namespace Json

/-! ## Equality -/

mutual

/-- Structural equality. -/
def beq : Json → Json → Bool
  | .null, .null => true
  | .bool a, .bool b => a == b
  | .int a, .int b => a == b
  | .float a, .float b => a == b
  | .str a, .str b => a == b
  | .arr as, .arr bs => beqItems as bs
  | .obj as, .obj bs => beqMembers as bs
  | _, _ => false

/-- Equality of the items of two arrays. -/
def beqItems : List Json → List Json → Bool
  | [], [] => true
  | a :: as, b :: bs => beq a b && beqItems as bs
  | _, _ => false

/-- Equality of the members of two objects, their order included. -/
def beqMembers : List (Text × Json) → List (Text × Json) → Bool
  | [], [] => true
  | (k, a) :: as, (l, b) :: bs => k == l && beq a b && beqMembers as bs
  | _, _ => false

end

mutual

theorem eq_of_beq : ∀ {a b : Json}, beq a b = true → a = b
  | .null, b, h => by cases b <;> simp_all [beq]
  | .bool _, b, h => by cases b <;> simp_all [beq]
  | .int _, b, h => by cases b <;> simp_all [beq]
  | .float _, b, h => by cases b <;> simp_all [beq]
  | .str _, b, h => by cases b <;> simp_all [beq]
  | .arr as, b, h => by
    cases b with
    | arr bs => rw [beq] at h; rw [eq_of_beqItems h]
    | _ => simp [beq] at h
  | .obj as, b, h => by
    cases b with
    | obj bs => rw [beq] at h; rw [eq_of_beqMembers h]
    | _ => simp [beq] at h

theorem eq_of_beqItems : ∀ {as bs : List Json}, beqItems as bs = true → as = bs
  | [], [], _ => rfl
  | a :: as, b :: bs, h => by
    simp only [beqItems, Bool.and_eq_true] at h
    rw [eq_of_beq h.1, eq_of_beqItems h.2]
  | [], _ :: _, h => by simp [beqItems] at h
  | _ :: _, [], h => by simp [beqItems] at h

theorem eq_of_beqMembers :
    ∀ {as bs : List (Text × Json)}, beqMembers as bs = true → as = bs
  | [], [], _ => rfl
  | (k, a) :: as, (l, b) :: bs, h => by
    simp only [beqMembers, Bool.and_eq_true, beq_iff_eq] at h
    rw [h.1.1, eq_of_beq h.1.2, eq_of_beqMembers h.2]
  | [], _ :: _, h => by simp [beqMembers] at h
  | _ :: _, [], h => by simp [beqMembers] at h

end

mutual

theorem beq_self : ∀ a : Json, beq a a = true
  | .null => rfl
  | .bool _ => by simp [beq]
  | .int _ => by simp [beq]
  | .float _ => by simp [beq]
  | .str _ => by simp [beq]
  | .arr as => by rw [beq]; exact beqItems_self as
  | .obj as => by rw [beq]; exact beqMembers_self as

theorem beqItems_self : ∀ as : List Json, beqItems as as = true
  | [] => rfl
  | a :: as => by simp [beqItems, beq_self a, beqItems_self as]

theorem beqMembers_self : ∀ as : List (Text × Json), beqMembers as as = true
  | [] => rfl
  | (_, a) :: as => by simp [beqMembers, beq_self a, beqMembers_self as]

end

theorem beq_iff {a b : Json} : beq a b = true ↔ a = b :=
  ⟨eq_of_beq, fun h => h ▸ beq_self a⟩

instance : DecidableEq Json := fun _ _ => decidable_of_iff _ beq_iff

/-! ## Strings -/

/-- The value of a string. -/
def word (s : String) : Json := .str s

/-! ## Members of objects -/

/-- The value of a key. -/
def memberOf? (key : Text) : List (Text × Json) → Option Json
  | [] => none
  | (k, v) :: rest => if k = key then some v else memberOf? key rest

/-- The members with the value of `key` set: a key that is there keeps its place, a new one goes to
the end. -/
def setMember (key : Text) (value : Json) : List (Text × Json) → List (Text × Json)
  | [] => [(key, value)]
  | (k, v) :: rest => if k = key then (k, value) :: rest else (k, v) :: setMember key value rest

@[simp] theorem memberOf?_setMember_self (key : Text) (value : Json)
    (members : List (Text × Json)) :
    memberOf? key (setMember key value members) = some value := by
  induction members with
  | nil => simp [setMember, memberOf?]
  | cons m rest ih =>
    by_cases h : m.1 = key <;> simp [setMember, memberOf?, h, ih]

theorem memberOf?_setMember_of_ne {key other : Text} (h : other ≠ key) (value : Json)
    (members : List (Text × Json)) :
    memberOf? other (setMember key value members) = memberOf? other members := by
  induction members with
  | nil => simp [setMember, memberOf?, h.symm]
  | cons m rest ih =>
    by_cases hk : m.1 = key
    · simp [setMember, memberOf?, hk, h.symm]
    · by_cases ho : m.1 = other <;> simp_all [setMember, memberOf?]

end Json

end Deduction
