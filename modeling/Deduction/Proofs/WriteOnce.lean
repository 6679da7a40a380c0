import Deduction.Proofs.Registration

/-!
# Places are written once

The registry is changed by two kinds of calls: a rule is registered under a flag for a head, or the
flags of a rule are checked and what has the shape of a law is registered.  The second kind may
register several laws, or some and be refused for others.  Here such calls are made in any order and
number, beginning with an empty registry.

What every call does is put rules into places that are free (`Registry.slot?_put`).  So a place that
is taken keeps its rule for good (`Registry.Grows`), and a relation that is reflexive and transitive
stays so.

A congruence law belongs to the list of its function, but it makes sense only if its *relation* is
reflexive and transitive.  Registering it under its flag does not look at that; checking the flags of
a rule does.  The relation is a preorder at that time, and by what was said it is one ever after, so
nothing has to be checked again later (`Registry.CongruencesOfPreorders`).

* `RegistryCall`, `Registry.callAll`: calls and what they do to a registry.
* `Registry.grows_callAll`: places stay as they are.
* `Registry.register_cases`: what one registration can do.
* `Registry.places_written_once`: all of it, for every run.
-/

namespace Deduction

/-- A call that may change the registry. -/
inductive RegistryCall where
  /-- Registering a rule under a flag. -/
  | register (flag : Flag) (head : Head) (rule : RuleRef) (relation : Option Head)
  /-- Checking and registering a rule under those of the given flags that it carries. -/
  | verifyFlags (ref : RuleRef) (rule : Rule) (flags : List Flag)

/-- The place that a registration names.  A congruence has none unless the relation is given. -/
def Flag.slot? : Flag → Option Head → Option Slot
  | .reflexive, _ => some .reflexive
  | .symmetric, _ => some .symmetric
  | .transitive, _ => some .transitive
  | .function, relation => relation.map .congruence

namespace Registry

/-- What a call leaves behind. -/
def call (r : Registry) : RegistryCall → Registry
  | .register flag head rule relation => (r.register flag head rule relation).2
  | .verifyFlags ref rule flags => (r.verifyFlags ref rule flags).2

/-- What a list of calls leaves behind. -/
def callAll (r : Registry) (calls : List RegistryCall) : Registry := calls.foldl call r

/-! ## What a registration can do -/

/-- Every place of every head holds what it held before. -/
def SamePlaces (r r' : Registry) : Prop :=
  ∀ head slot, (r'.get head).slot? slot = (r.get head).slot? slot

/-- One place, which was free, holds a rule, and every other place what it held before. -/
def Fills (r : Registry) (head : Head) (slot : Slot) (rule : RuleRef) (r' : Registry) : Prop :=
  (r.get head).slot? slot = none ∧
    ∀ other place, (r'.get other).slot? place =
      if other = head ∧ place = slot then some rule else (r.get other).slot? place

variable {r r' : Registry}

/-- Putting a head on the list changes no place. -/
theorem samePlaces_set_get (r : Registry) (head : Head) :
    r.SamePlaces (r.set head (r.get head)) := by
  intro other slot
  by_cases h : other = head
  · rw [h, get_set_self]
  · rw [get_set_of_ne r h]

theorem put_of_free {slot : Slot} {head : Head} (h : (r.get head).slot? slot = none)
    (rule : RuleRef) : (r.put slot head rule).1 = .recorded ∧
      r.Fills head slot rule (r.put slot head rule).2 := by
  refine ⟨by rw [put, h], h, fun other place => ?_⟩
  rw [slot?_put]
  by_cases heq : other = head ∧ place = slot
  · rw [if_pos heq, if_pos heq, heq.1, heq.2, h, Option.none_or]
  · rw [if_neg heq, if_neg heq, Option.or_none]

theorem put_of_taken {slot : Slot} {head : Head} {taken : RuleRef}
    (h : (r.get head).slot? slot = some taken) (rule : RuleRef) :
    (r.put slot head rule).1 = .duplicate ∧ r.SamePlaces (r.put slot head rule).2 := by
  rw [put, h]
  exact ⟨rfl, r.samePlaces_set_get head⟩

theorem register_eq (r : Registry) (flag : Flag) (head : Head) (rule : RuleRef)
    (relation : Option Head) : r.register flag head rule relation =
      ((flag.slot? relation).map fun slot => r.put slot head rule).getD
        (.relationMissing, r.set head (r.get head)) := by
  cases flag <;> cases relation <;> rfl

/-- **What a registration can do.**  It fills the place it names, if that is free; otherwise it
leaves all places as they are. -/
theorem register_cases (r : Registry) (flag : Flag) (head : Head) (rule : RuleRef)
    (relation : Option Head) :
    (∃ slot, flag.slot? relation = some slot ∧
      (r.register flag head rule relation).1 = .recorded ∧
      r.Fills head slot rule (r.register flag head rule relation).2) ∨
    (r.register flag head rule relation).1 ≠ .recorded ∧
      (∀ slot, flag.slot? relation = some slot → (r.get head).slot? slot ≠ none) ∧
      r.SamePlaces (r.register flag head rule relation).2 := by
  rw [register_eq]
  cases hslot : flag.slot? relation with
  | none =>
    refine Or.inr ⟨?_, ?_, r.samePlaces_set_get head⟩
    · intro h
      cases h
    · intro slot h
      cases h
  | some slot =>
    rw [Option.map_some, Option.getD_some]
    cases hplace : (r.get head).slot? slot with
    | none => exact Or.inl ⟨slot, rfl, put_of_free hplace rule⟩
    | some taken =>
      obtain ⟨houtcome, hsame⟩ := put_of_taken hplace rule
      refine Or.inr ⟨?_, ?_, hsame⟩
      · rw [houtcome]
        intro h
        cases h
      · intro other hother
        cases hother
        rw [hplace]
        intro h
        cases h

/-! ## Places stay as they are -/

/-- Every place that is taken keeps its rule. -/
def Grows (r r' : Registry) : Prop :=
  ∀ head slot ref, (r.get head).slot? slot = some ref → (r'.get head).slot? slot = some ref

namespace Grows

theorem refl (r : Registry) : r.Grows r := fun _ _ _ h => h

theorem trans {r'' : Registry} (h : r.Grows r') (h' : r'.Grows r'') : r.Grows r'' :=
  fun head slot ref href => h' head slot ref (h head slot ref href)

theorem of_samePlaces (h : r.SamePlaces r') : r.Grows r' := by
  intro head slot ref href
  rw [h, href]

theorem of_fills {head : Head} {slot : Slot} {rule : RuleRef} (h : r.Fills head slot rule r') :
    r.Grows r' := by
  intro other place ref href
  have hne : ¬ (other = head ∧ place = slot) := by
    rintro ⟨rfl, rfl⟩
    rw [h.1] at href
    cases href
  rw [h.2, if_neg hne, href]

theorem put (h : r.Grows r') (slot : Slot) (head : Head) (rule : RuleRef) :
    r.Grows (r'.put slot head rule).2 := by
  intro other place ref href
  rw [slot?_put, h other place ref href, Option.some_or]

theorem isPreorder (h : r.Grows r') {relation : Head} (hr : r.isPreorder relation = true) :
    r'.isPreorder relation = true := by
  obtain ⟨⟨reflexivity, hreflexivity⟩, transitivity, htransitivity⟩ := exists_of_isPreorder hr
  have hreflexive := h relation .reflexive reflexivity hreflexivity
  have htransitive := h relation .transitive transitivity htransitivity
  rw [isPreorder_eq, hreflexive, htransitive]
  rfl

end Grows

theorem grows_register (r : Registry) (flag : Flag) (head : Head) (rule : RuleRef)
    (relation : Option Head) : r.Grows (r.register flag head rule relation).2 := by
  rcases r.register_cases flag head rule relation with ⟨slot, -, -, hfills⟩ | ⟨-, -, hsame⟩
  · exact .of_fills hfills
  · exact .of_samePlaces hsame

theorem grows_verifyFlags (r : Registry) (ref : RuleRef) (rule : Rule) (flags : List Flag) :
    r.Grows (r.verifyFlags ref rule flags).2 :=
  verifyEach_induct (motive := r.Grows) (fun h _ => h.put _ _ ref) (.refl r) _

/-- One call. -/
theorem grows_call (r : Registry) (call : RegistryCall) : r.Grows (r.call call) := by
  cases call with
  | register flag head rule relation => exact r.grows_register flag head rule relation
  | verifyFlags ref rule flags => exact r.grows_verifyFlags ref rule flags

/-- Any number of calls. -/
theorem grows_callAll (r : Registry) (calls : List RegistryCall) : r.Grows (r.callAll calls) := by
  induction calls generalizing r with
  | nil => exact .refl r
  | cons call calls ih => exact (r.grows_call call).trans (ih (r.call call))

/-! ## Congruences of preorders -/

/-- Every congruence law is one for a relation that is reflexive and transitive. -/
def CongruencesOfPreorders (r : Registry) : Prop :=
  ∀ function relation, (r.congruence? function relation).isSome → r.isPreorder relation = true

/-- A call that puts a congruence law in without a look at the relation. -/
def EntersCongruence (r : Registry) : RegistryCall → Prop
  | .register flag head rule relation =>
    flag = .function ∧ (r.register flag head rule relation).1 = .recorded
  | .verifyFlags _ _ _ => False

/-- In registries that have all the old laws, congruences that were there before are harmless. -/
theorem CongruencesOfPreorders.of_grows (h : r.CongruencesOfPreorders) (hgrows : r.Grows r')
    (hnew : ∀ function relation, (r'.congruence? function relation).isSome →
      r.congruence? function relation = none → r'.isPreorder relation = true) :
    r'.CongruencesOfPreorders := by
  intro function relation hlaw
  cases hold : r.congruence? function relation with
  | none => exact hnew function relation hlaw hold
  | some law => exact hgrows.isPreorder (h function relation (by rw [hold]; rfl))

theorem CongruencesOfPreorders.verifyFlags (h : r.CongruencesOfPreorders) (ref : RuleRef)
    (rule : Rule) (flags : List Flag) :
    (r.verifyFlags ref rule flags).2.CongruencesOfPreorders := by
  refine verifyEach_induct (fun {r flag head slot} h hlaw => ?_) h _
  have hgrows : r.Grows (r.put slot head ref).2 := (Grows.refl r).put slot head ref
  refine h.of_grows hgrows fun function relation hnew hold => hgrows.isPreorder ?_
  -- the only new law is the accepted one, and it was accepted for a preorder
  have hplace : function = head ∧ Slot.congruence relation = slot := by
    have hslot : ((r.get function).slot? (.congruence relation)).or
        (if function = head ∧ Slot.congruence relation = slot then some ref else none) =
          ((r.put slot head ref).2.get function).slot? (.congruence relation) :=
      (r.slot?_put slot head ref function (.congruence relation)).symm
    by_contra hne
    rw [if_neg hne, Option.or_none] at hslot
    have hsame : r.congruence? function relation =
      (r.put slot head ref).2.congruence? function relation := hslot
    rw [← hsame, hold] at hnew
    cases hnew
  obtain ⟨-, rfl⟩ := hplace
  exact (Rule.law_eq_ok_iff.mp hlaw).2.2

theorem CongruencesOfPreorders.register (h : r.CongruencesOfPreorders) {flag : Flag} {head : Head}
    {rule : RuleRef} {relation : Option Head}
    (hflag : ¬ (flag = .function ∧ (r.register flag head rule relation).1 = .recorded)) :
    (r.register flag head rule relation).2.CongruencesOfPreorders := by
  have hsame : ∀ function other, (r.register flag head rule relation).2.congruence? function other =
      r.congruence? function other := by
    intro function other
    rcases r.register_cases flag head rule relation with
      ⟨slot, hslot, hrecorded, hfills⟩ | ⟨-, -, hsame⟩
    · have hne : ¬ (function = head ∧ Slot.congruence other = slot) := by
        rintro ⟨-, rfl⟩
        have hfunction : flag = .function := by
          cases flag with
          | function => rfl
          | reflexive | symmetric | transitive => cases hslot
        exact hflag ⟨hfunction, hrecorded⟩
      exact (hfills.2 function (.congruence other)).trans (if_neg hne)
    · exact hsame function (.congruence other)
  refine h.of_grows (r.grows_register flag head rule relation) fun function other hnew hold => ?_
  rw [hsame, hold] at hnew
  cases hnew

/-- One call that is no registration of a congruence. -/
theorem CongruencesOfPreorders.call (h : r.CongruencesOfPreorders) {call : RegistryCall}
    (hcall : ¬ r.EntersCongruence call) : (r.call call).CongruencesOfPreorders := by
  cases call with
  | register flag head rule relation => exact h.register hcall
  | verifyFlags ref rule flags => exact h.verifyFlags ref rule flags

/-- Any number of such calls. -/
theorem CongruencesOfPreorders.callAll (h : r.CongruencesOfPreorders) {calls : List RegistryCall}
    (hcalls : ∀ (n : Nat) (call : RegistryCall), calls[n]? = some call →
      ¬ (r.callAll (calls.take n)).EntersCongruence call) :
    (r.callAll calls).CongruencesOfPreorders := by
  induction calls generalizing r with
  | nil => exact h
  | cons call calls ih =>
    have hfirst : ¬ r.EntersCongruence call := hcalls 0 call rfl
    exact ih (h.call hfirst) fun n next hnext => hcalls (n + 1) next hnext

/-! ## Every run -/

/-- **Places are written once, over every run.**  After any calls, whatever is called later: a place
that is taken keeps its rule, and a preorder stays one.  A registration is successful if it names a
place that is free.  If it is not, no place of any head changes, and if it is, exactly the place that
it names does.  If congruence laws were entered by checking flags only, they are all about
preorders. -/
theorem places_written_once (calls : List RegistryCall) :
    let r := callAll {} calls
    (∀ later, r.Grows (r.callAll later)) ∧
    (∀ later relation, r.isPreorder relation = true →
      (r.callAll later).isPreorder relation = true) ∧
    (∀ flag head rule relation,
      ((r.register flag head rule relation).1 = .recorded ↔
        ∃ slot, flag.slot? relation = some slot ∧ (r.get head).slot? slot = none) ∧
      ((r.register flag head rule relation).1 ≠ .recorded →
        r.SamePlaces (r.register flag head rule relation).2) ∧
      ((r.register flag head rule relation).1 = .recorded →
        ∃ slot, flag.slot? relation = some slot ∧
          r.Fills head slot rule (r.register flag head rule relation).2)) ∧
    ((∀ (n : Nat) (call : RegistryCall), calls[n]? = some call →
        ¬ (callAll {} (calls.take n)).EntersCongruence call) →
      r.CongruencesOfPreorders) := by
  intro r
  refine ⟨r.grows_callAll, fun later relation => (r.grows_callAll later).isPreorder, ?_,
    CongruencesOfPreorders.callAll fun function relation h => ?_⟩
  · intro flag head rule relation
    rcases r.register_cases flag head rule relation with
      ⟨slot, hslot, hrecorded, hfills⟩ | ⟨hrefused, htaken, hsame⟩
    · exact ⟨iff_of_true hrecorded ⟨slot, hslot, hfills.1⟩, fun h => absurd hrecorded h,
        fun _ => ⟨slot, hslot, hfills⟩⟩
    · refine ⟨iff_of_false hrefused ?_, fun _ => hsame, fun h => absurd h hrefused⟩
      rintro ⟨slot, hslot, hfree⟩
      exact htaken slot hslot hfree
  · cases h

/-- A run with calls that are refused: the first one for one of its two flags, the second one since it
names no relation.  The congruence law is entered by its flag, after the relation became a
preorder. -/
theorem places_written_once_refusals :
    let relation : Head := .symbol 0
    let calls : List RegistryCall := [
      .verifyFlags (.ofAxiom 0)
        ⟨.null, 0, [], [], relation.relates 0 0, [.reflexive, .function]⟩ [.reflexive, .function],
      .register .function (.symbol 1) (.ofAxiom 0) none,
      .register .transitive relation (.ofAxiom 1) none,
      .verifyFlags (.ofAxiom 2)
        ⟨.null, 0, [], [relation.relates 0 1],
          relation.apply [.app (.symbol 1) (.var 0), .app (.symbol 1) (.var 1)], [.function]⟩
        [.function]]
    (∀ (n : Nat) (call : RegistryCall), calls[n]? = some call →
        ¬ (callAll {} (calls.take n)).EntersCongruence call) ∧
      (callAll {} calls).congruence? (.symbol 1) relation = some (.ofAxiom 2) ∧
      (callAll {} calls).CongruencesOfPreorders := by
  intro relation calls
  have hcalls : ∀ (n : Nat) (call : RegistryCall), calls[n]? = some call →
      ¬ (callAll {} (calls.take n)).EntersCongruence call := by
    intro n call hcall
    match n with
    | 0 | 3 =>
      cases hcall
      exact id
    | 1 =>
      cases hcall
      rintro ⟨-, hrecorded⟩
      cases hrecorded
    | 2 =>
      cases hcall
      rintro ⟨hflag, -⟩
      cases hflag
    | n + 4 => cases hcall
  have hlaw : (callAll {} calls).congruence? (.symbol 1) relation = some (.ofAxiom 2) := by decide
  obtain ⟨-, -, -, hpreorders⟩ := places_written_once calls
  exact ⟨hcalls, hlaw, hpreorders hcalls⟩

end Registry

end Deduction
