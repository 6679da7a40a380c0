import Deduction.Directory
import Deduction.Fault
import Deduction.Formula.Spine

/-!
# The registry of laws

The registry holds, for every relation, the rules that prove it reflexive, symmetric and transitive,
and for every function the rules that prove it a congruence of a relation.  A place that is taken is
never overwritten: a second rule for it is refused.

Heads are listed in the order in which something was first registered for them.  Being asked to
register something puts a head on the list even if nothing comes of it.
-/

namespace Deduction

/-- What is known about one relation or function.  The congruences of a function are given by the
relation that it preserves. -/
structure Properties where
  reflexive : Option RuleRef := none
  symmetric : Option RuleRef := none
  transitive : Option RuleRef := none
  congruences : List (Head × RuleRef) := []
  deriving DecidableEq, Repr

namespace Properties

/-- A relation that is reflexive and transitive. -/
def isPreorder (p : Properties) : Bool := p.reflexive.isSome && p.transitive.isSome

/-- The congruence law for a relation. -/
def congruence? (p : Properties) (relation : Head) : Option RuleRef :=
  p.congruences.lookup relation

end Properties

/-- The place that a rule takes when it is registered. -/
inductive Slot where
  | reflexive
  | symmetric
  | transitive
  | congruence (relation : Head)
  deriving DecidableEq, Repr

namespace Properties

/-- The rule in a place. -/
def slot? (p : Properties) : Slot → Option RuleRef
  | .reflexive => p.reflexive
  | .symmetric => p.symmetric
  | .transitive => p.transitive
  | .congruence relation => p.congruence? relation

/-- The properties with a rule in a place that is free. -/
def fill (p : Properties) (rule : RuleRef) : Slot → Properties
  | .reflexive => { p with reflexive := some rule }
  | .symmetric => { p with symmetric := some rule }
  | .transitive => { p with transitive := some rule }
  | .congruence relation => { p with congruences := p.congruences ++ [(relation, rule)] }

end Properties

/-- The properties of every relation and function. -/
structure Registry where
  lists : List (Head × Properties) := []
  deriving DecidableEq, Repr

/-- What came of registering a rule. -/
inductive Registration where
  | recorded
  | duplicate
  | relationMissing
  deriving DecidableEq, Repr

namespace Registration

/-- The fault of a rule whose place is taken. -/
def fault? : Registration → Option Fault
  | .duplicate => some ⟨.duplicateProperty, none⟩
  | _ => none

/-- Why nothing could be registered. -/
def message : String := "congruence registration needs a relation"

end Registration

namespace Registry

/-- The properties of a head. -/
def get (r : Registry) (head : Head) : Properties := (r.lists.lookup head).getD {}

/-- The registry with the properties of a head replaced; a new head goes to the end of the list. -/
def set (r : Registry) (head : Head) (p : Properties) : Registry :=
  ⟨if (r.lists.lookup head).isSome then
      r.lists.map fun e => if e.1 = head then (e.1, p) else e
    else r.lists ++ [(head, p)]⟩

/-- Replacing the properties of a head changes what is found for it and for nothing else. -/
theorem lookup_map_replace (head : Head) (p : Properties) (other : Head)
    (lists : List (Head × Properties)) :
    (lists.map fun e => if e.1 = head then (e.1, p) else e).lookup other =
      if other = head then (lists.lookup other).map fun _ => p else lists.lookup other := by
  induction lists with
  | nil => simp
  | cons e lists ih =>
    obtain ⟨key, value⟩ := e
    by_cases hk : key = head <;> by_cases ho : other = key
    · subst hk ho
      simp
    · have hb : (other == key) = false := by simpa using ho
      simp only [List.map_cons, hk, if_true, List.lookup_cons, ih]
      subst hk
      simp [hb, ho]
    · subst ho
      simp [hk]
    · have hb : (other == key) = false := by simpa using ho
      simp [List.lookup_cons, hk, hb, ih]

@[simp] theorem get_set_self (r : Registry) (head : Head) (p : Properties) :
    (r.set head p).get head = p := by
  unfold set get
  cases h : r.lists.lookup head with
  | some q => simp [lookup_map_replace, h]
  | none => simp [List.lookup_append, h]

theorem get_set_of_ne (r : Registry) {head other : Head} (h : other ≠ head) (p : Properties) :
    (r.set head p).get other = r.get other := by
  have hb : (other == head) = false := by simpa using h
  unfold set get
  split
  · simp [lookup_map_replace, h]
  · simp [List.lookup_append, List.lookup_cons, hb]

/-- Whether a relation is known to be reflexive and transitive. -/
def isPreorder (r : Registry) (relation : Head) : Bool := (r.get relation).isPreorder

/-- The law that makes a relation reflexive. -/
def reflexivity? (r : Registry) (relation : Head) : Option RuleRef := (r.get relation).reflexive

/-- The law that makes a relation symmetric. -/
def symmetry? (r : Registry) (relation : Head) : Option RuleRef := (r.get relation).symmetric

/-- The law that makes a relation transitive. -/
def transitivity? (r : Registry) (relation : Head) : Option RuleRef := (r.get relation).transitive

/-- The law that makes a function a congruence of a relation. -/
def congruence? (r : Registry) (function relation : Head) : Option RuleRef :=
  (r.get function).congruence? relation

/-- Putting a rule into a place of a head, unless the place is taken. -/
def put (r : Registry) (slot : Slot) (head : Head) (rule : RuleRef) : Registration × Registry :=
  let p := r.get head
  match p.slot? slot with
  | some _ => (.duplicate, r.set head p)
  | none => (.recorded, r.set head (p.fill rule slot))

/-- Registering a rule under a flag.  For a congruence the head is the function, and the relation
has to be given too. -/
def register (r : Registry) (flag : Flag) (head : Head) (rule : RuleRef)
    (relation : Option Head) : Registration × Registry :=
  match flag, relation with
  | .reflexive, _ => r.put .reflexive head rule
  | .symmetric, _ => r.put .symmetric head rule
  | .transitive, _ => r.put .transitive head rule
  | .function, some relation => r.put (.congruence relation) head rule
  | .function, none => (.relationMissing, r.set head (r.get head))

end Registry

end Deduction
