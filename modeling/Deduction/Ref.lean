/-!
# References

Everything in a document is addressed by its position in the list that owns it.  A document may
write any integer as a reference; only an integer that is a position of the list refers to
something, and a negative one never does.
-/

namespace Deduction

/-- The position of an entity in the list that owns it. -/
abbrev Ref := Int

/-- The entry at a position. -/
def itemAt? {α : Type} (items : List α) : Ref → Option α
  | .ofNat n => items[n]?
  | .negSucc _ => none

section

variable {α : Type}

@[simp] theorem itemAt?_ofNat (items : List α) (n : Nat) :
    itemAt? items (n : Int) = items[n]? := rfl

@[simp] theorem itemAt?_negSucc (items : List α) (n : Nat) :
    itemAt? items (.negSucc n) = none := rfl

@[simp] theorem itemAt?_nil (ref : Ref) : itemAt? ([] : List α) ref = none := by
  cases ref <;> rfl

/-- A reference that resolves is a position of the list. -/
theorem itemAt?_eq_some_iff {items : List α} {ref : Ref} {a : α} :
    itemAt? items ref = some a ↔ ∃ n : Nat, ref = n ∧ items[n]? = some a := by
  cases ref with
  | ofNat n => exact ⟨fun h => ⟨n, rfl, h⟩, fun ⟨m, hm, h⟩ => by cases hm; exact h⟩
  | negSucc n => exact ⟨fun h => by simp at h, fun ⟨m, hm, _⟩ => by cases hm⟩

theorem mem_of_itemAt? {items : List α} {ref : Ref} {a : α} (h : itemAt? items ref = some a) :
    a ∈ items := by
  obtain ⟨n, _, hn⟩ := itemAt?_eq_some_iff.mp h
  exact List.mem_of_getElem? hn

end

end Deduction
