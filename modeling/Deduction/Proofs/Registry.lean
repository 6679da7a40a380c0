import Deduction.Checker
import Mathlib.Logic.Basic

/-!
# What the registry holds

`Rule.IsLaw` says what shape a rule has in order to take a place of the registry, in terms of the
formulas themselves and not of the order in which they are looked at.  The checks of `Rule.law`
accept exactly these shapes.

Putting a rule into a place fills that place if it is free and changes nothing else.  So what holds
of every law that is put in holds of everything that the registry ends up with: every place that is
filled is filled by one of the rules, and that rule is a law of the right shape for it.

* `Rule.IsLaw`: the shapes.
* `Rule.reflexiveLaw_eq_ok_iff` and its three companions: the checks accept exactly these.
* `Rule.law_eq_ok_iff`: what a rule asks for by a flag.
* `Registry.slot?_put`: what one registration does to every place.
* `Registry.LawfulOver`, `Registry.lawfulOver_ofRules`: where the laws of the registry come from.
-/

namespace Deduction

/-! ## Heads and relations -/

/-- A head and its inputs can be told from the formula that they make. -/
theorem Head.apply_inj {head other : Head} {xs ys : List Formula} :
    head.apply xs = other.apply ys ↔ head = other ∧ xs = ys := by
  constructor
  · intro h
    have hspine := Formula.spine?_apply head xs
    rw [h, Formula.spine?_apply] at hspine
    cases hspine
    exact ⟨rfl, rfl⟩
  · rintro ⟨rfl, rfl⟩
    rfl

/-- A relation between two variables. -/
def Head.relates (relation : Head) (a b : Ref) : Formula := relation.apply [.var a, .var b]

namespace Formula

variable {f left right : Formula} {head : Head} {xs : List Formula} {a b : Ref}

theorem spine?_eq_some_iff : f.spine? = some (head, xs) ↔ f = head.apply xs := by
  constructor
  · intro h
    exact (apply_of_spine? h).symm
  · intro h
    rw [h, spine?_apply]

theorem binary?_eq_some_iff : f.binary? = some (head, left, right) ↔ f = head.apply [left, right] := by
  constructor
  · intro h
    exact (apply_of_binary? h).symm
  · intro h
    rw [h, binary?_apply]

theorem binaryVars?_eq_some_iff : f.binaryVars? = some (head, a, b) ↔ f = head.relates a b := by
  rw [binaryVars?, Head.relates]
  constructor
  · intro h
    split at h
    · next hb =>
      cases h
      exact binary?_eq_some_iff.mp hb
    · cases h
  · intro h
    rw [h, binary?_apply]

theorem application?_eq_some_iff :
    f.application? = some (head, xs) ↔ f = head.apply xs ∧ xs ≠ [] := by
  rw [application?, Option.filter_eq_some_iff, spine?_eq_some_iff]
  simp

end Formula

/-! ## The shapes of laws -/

/-- A check that passes leaves what comes after it. -/
theorem ite_error_eq_ok_iff {ε α : Type} {c : Prop} [Decidable c] {e : ε} {x : Except ε α} {a : α} :
    (if c then .error e else x) = .ok a ↔ ¬ c ∧ x = .ok a := by
  split
  · next h => simp [h]
  · next h => simp [h]

theorem map_eq_ok_iff {ε α β : Type} {g : α → β} {x : Except ε α} {b : β} :
    x.map g = .ok b ↔ ∃ a, x = .ok a ∧ g a = b := by
  cases x with
  | error e => simp [Except.map]
  | ok a => simp [Except.map]

/-- The flag that announces the laws for a place. -/
def Slot.flag : Slot → Flag
  | .reflexive => .reflexive
  | .symmetric => .symmetric
  | .transitive => .transitive
  | .congruence _ => .function

/-- A congruence law is accepted only for a relation that is reflexive and transitive. -/
def Slot.admitted (isPreorder : Head → Bool) : Slot → Bool
  | .congruence relation => isPreorder relation
  | .reflexive | .symmetric | .transitive => true

namespace Rule

open Formula

/-- The shape of a rule that takes a place for a head. -/
def IsLaw (rule : Rule) (head : Head) : Slot → Prop
  | .reflexive => rule.premises = [] ∧ ∃ x, rule.assertion = head.relates x x
  | .symmetric => ∃ a b, rule.premises = [head.relates a b] ∧ rule.assertion = head.relates b a
  | .transitive => ∃ a b c, rule.premises = [head.relates a b, head.relates b c] ∧
      rule.assertion = head.relates a c
  | .congruence relation => ∃ as bs : List Ref, as ≠ [] ∧ as.length = bs.length ∧
      rule.premises = List.zipWith relation.relates as bs ∧
      rule.assertion = relation.apply [head.apply (as.map .var), head.apply (bs.map .var)]

variable {rule : Rule} {head : Head}

theorem reflexiveLaw_eq_ok_iff : rule.reflexiveLaw = .ok head ↔ rule.IsLaw head .reflexive := by
  rw [reflexiveLaw, IsLaw]
  constructor
  · intro h
    obtain ⟨hpremises, h⟩ := ite_error_eq_ok_iff.mp h
    split at h
    · cases h
    · next relation left right hassertion =>
      simp only [ite_error_eq_ok_iff, not_ne_iff, Except.ok.injEq] at h
      obtain ⟨rfl, rfl⟩ := h
      exact ⟨by simpa using hpremises, left, binaryVars?_eq_some_iff.mp hassertion⟩
  · rintro ⟨hpremises, x, hassertion⟩
    rw [hpremises, binaryVars?_eq_some_iff.mpr hassertion]
    simp

theorem symmetricLaw_eq_ok_iff : rule.symmetricLaw = .ok head ↔ rule.IsLaw head .symmetric := by
  rw [symmetricLaw, IsLaw]
  constructor
  · intro h
    split at h
    · next premise hpremises =>
      split at h
      · cases h
      · next premiseRelation a b hpremise =>
        split at h
        · cases h
        · next relation left right hassertion =>
          simp only [ite_error_eq_ok_iff, not_or, not_ne_iff, Except.ok.injEq] at h
          obtain ⟨rfl, ⟨rfl, rfl⟩, rfl⟩ := h
          rw [hpremises, binaryVars?_eq_some_iff.mp hpremise]
          exact ⟨a, b, rfl, binaryVars?_eq_some_iff.mp hassertion⟩
    · cases h
  · rintro ⟨a, b, hpremises, hassertion⟩
    rw [hpremises]
    dsimp only
    rw [binaryVars?_eq_some_iff.mpr rfl, binaryVars?_eq_some_iff.mpr hassertion]
    simp

theorem transitiveLaw_eq_ok_iff : rule.transitiveLaw = .ok head ↔ rule.IsLaw head .transitive := by
  rw [transitiveLaw, IsLaw]
  constructor
  · intro h
    split at h
    · next first second hpremises =>
      split at h
      · cases h
      · next relation a b hfirst =>
        split at h
        · cases h
        · next secondRelation b' c hsecond =>
          simp only [ite_error_eq_ok_iff, not_ne_iff] at h
          obtain ⟨rfl, rfl, h⟩ := h
          split at h
          · cases h
          · next assertionRelation a' c' hassertion =>
            simp only [ite_error_eq_ok_iff, not_ne_iff, Except.ok.injEq] at h
            obtain ⟨rfl, rfl, rfl, rfl⟩ := h
            rw [hpremises, binaryVars?_eq_some_iff.mp hfirst, binaryVars?_eq_some_iff.mp hsecond]
            exact ⟨a', b, c', rfl, binaryVars?_eq_some_iff.mp hassertion⟩
    · cases h
  · rintro ⟨a, b, c, hpremises, hassertion⟩
    rw [hpremises]
    dsimp only
    rw [binaryVars?_eq_some_iff.mpr rfl, binaryVars?_eq_some_iff.mpr rfl,
      binaryVars?_eq_some_iff.mpr hassertion]
    simp

/-- The premises of a congruence law relate the inputs of the two sides one by one, and these are
all variables. -/
theorem functionPremises_eq_ok_iff {relation : Head} {index : Nat}
    {premises lefts rights : List Formula} (hlefts : premises.length = lefts.length)
    (hrights : lefts.length = rights.length) :
    functionPremises relation index premises lefts rights = .ok () ↔
      ∃ as bs : List Ref, lefts = as.map .var ∧ rights = bs.map .var ∧
        premises = List.zipWith relation.relates as bs := by
  induction premises generalizing index lefts rights with
  | nil =>
    obtain rfl := List.length_eq_zero_iff.mp hlefts.symm
    obtain rfl := List.length_eq_zero_iff.mp hrights.symm
    rw [functionPremises.eq_def]
    simp only [true_iff]
    exact ⟨[], [], rfl, rfl, rfl⟩
  | cons premise premises ih =>
    obtain ⟨left, lefts, rfl⟩ := List.exists_cons_of_length_eq_add_one hlefts.symm
    obtain ⟨right, rights, rfl⟩ := List.exists_cons_of_length_eq_add_one hrights.symm
    have hiff := @ih (index + 1) lefts rights (Nat.succ.inj hlefts) (Nat.succ.inj hrights)
    rw [functionPremises.eq_def]
    dsimp only
    constructor
    · intro h
      split at h
      · next a b =>
        split at h
        · cases h
        · next premiseRelation a' b' hpremise =>
          simp only [ite_error_eq_ok_iff, not_ne_iff] at h
          obtain ⟨rfl, rfl, rfl, h⟩ := h
          obtain ⟨as, bs, rfl, rfl, rfl⟩ := hiff.mp h
          rw [binaryVars?_eq_some_iff.mp hpremise]
          exact ⟨a' :: as, b' :: bs, rfl, rfl, rfl⟩
      · cases h
    · rintro ⟨as, bs, hl, hr, hp⟩
      obtain ⟨a, as, rfl⟩ : ∃ a as', as = a :: as' := by
        cases as with
        | nil => cases hl
        | cons a as => exact ⟨a, as, rfl⟩
      obtain ⟨b, bs, rfl⟩ : ∃ b bs', bs = b :: bs' := by
        cases bs with
        | nil => cases hr
        | cons b bs => exact ⟨b, bs, rfl⟩
      simp only [List.map_cons, List.cons.injEq] at hl hr
      rw [List.zipWith_cons_cons, List.cons.injEq] at hp
      rw [hl.1, hr.1, hp.1]
      dsimp only
      rw [binaryVars?_eq_some_iff.mpr rfl]
      simpa using hiff.mpr ⟨as, bs, hl.2, hr.2, hp.2⟩

theorem functionLaw_eq_ok_iff {isPreorder : Head → Bool} {function relation : Head} :
    rule.functionLaw isPreorder = .ok (function, relation) ↔
      rule.IsLaw function (.congruence relation) ∧ isPreorder relation = true := by
  rw [functionLaw, IsLaw]
  constructor
  · intro h
    obtain ⟨-, h⟩ := ite_error_eq_ok_iff.mp h
    split at h
    · cases h
    · next relation' left right hassertion =>
      obtain ⟨hpreorder, h⟩ := ite_error_eq_ok_iff.mp h
      split at h
      · cases h
      · next function' lefts hleft =>
        split at h
        · cases h
        · next rightFunction rights hright =>
          simp only [ite_error_eq_ok_iff, not_ne_iff] at h
          obtain ⟨rfl, hrights, hlefts, h⟩ := h
          split at h
          · cases h
          · next hpremises =>
            cases h
            obtain ⟨as, bs, rfl, rfl, hp⟩ :=
              (functionPremises_eq_ok_iff hlefts hrights).mp hpremises
            obtain ⟨rfl, hne⟩ := application?_eq_some_iff.mp hleft
            obtain ⟨rfl, -⟩ := application?_eq_some_iff.mp hright
            refine ⟨⟨as, bs, ?_, by simpa using hrights, hp, ?_⟩, by simpa using hpreorder⟩
            · rintro rfl
              exact hne rfl
            · exact binary?_eq_some_iff.mp hassertion
  · rintro ⟨⟨as, bs, hne, hlen, hpremises, hassertion⟩, hpreorder⟩
    have hnil : as.map Formula.var ≠ [] := by simpa using hne
    have hnil' : bs.map Formula.var ≠ [] := by
      rw [← List.length_pos_iff, List.length_map, ← hlen, List.length_pos_iff]
      exact hne
    have hlefts : rule.premises.length = (as.map Formula.var).length := by
      rw [hpremises, List.length_zipWith, List.length_map, hlen, Nat.min_self]
    have hrights : (as.map Formula.var).length = (bs.map Formula.var).length := by
      rw [List.length_map, List.length_map, hlen]
    have hok : functionPremises relation 0 rule.premises (as.map .var) (bs.map .var) = .ok () :=
      (functionPremises_eq_ok_iff hlefts hrights).mpr ⟨as, bs, rfl, rfl, hpremises⟩
    have hempty : rule.premises.isEmpty = false := by
      rw [List.isEmpty_eq_false_iff, ← List.length_pos_iff, hlefts, List.length_pos_iff]
      exact hnil
    rw [hempty, binary?_eq_some_iff.mpr hassertion]
    dsimp only
    rw [hpreorder, application?_eq_some_iff.mpr ⟨rfl, hnil⟩,
      application?_eq_some_iff.mpr ⟨rfl, hnil'⟩]
    dsimp only
    rw [if_neg (not_not_intro rfl), if_neg (not_not_intro hrights), if_neg (not_not_intro hlefts),
      hok]
    simp

/-- **What a rule asks for by a flag.**  It is a place that the flag announces and that the rule has
the shape for, and the relation of a congruence law has to be reflexive and transitive. -/
theorem law_eq_ok_iff {isPreorder : Head → Bool} {flag : Flag} {slot : Slot} :
    rule.law isPreorder flag = .ok (head, slot) ↔
      slot.flag = flag ∧ rule.IsLaw head slot ∧ slot.admitted isPreorder = true := by
  have hrelation : ∀ {law : Except Fault Head} {place : Slot},
      law.map (·, place) = .ok (head, slot) ↔ place = slot ∧ law = .ok head := by
    intro law place
    rw [map_eq_ok_iff]
    constructor
    · rintro ⟨relation, hlaw, heq⟩
      cases heq
      exact ⟨rfl, hlaw⟩
    · rintro ⟨rfl, hlaw⟩
      exact ⟨head, hlaw, rfl⟩
  cases flag with
  | reflexive =>
    rw [law, hrelation, reflexiveLaw_eq_ok_iff]
    cases slot <;> simp [Slot.flag, Slot.admitted]
  | symmetric =>
    rw [law, hrelation, symmetricLaw_eq_ok_iff]
    cases slot <;> simp [Slot.flag, Slot.admitted]
  | transitive =>
    rw [law, hrelation, transitiveLaw_eq_ok_iff]
    cases slot <;> simp [Slot.flag, Slot.admitted]
  | function =>
    rw [law, map_eq_ok_iff]
    constructor
    · rintro ⟨⟨function, relation⟩, hlaw, heq⟩
      cases heq
      exact ⟨rfl, functionLaw_eq_ok_iff.mp hlaw⟩
    · rintro ⟨hflag, hshape, hpreorder⟩
      cases slot with
      | reflexive | symmetric | transitive => cases hflag
      | congruence relation =>
        exact ⟨(head, relation), functionLaw_eq_ok_iff.mpr ⟨hshape, hpreorder⟩, rfl⟩

/-- A rule that passes the check for a flag has the shape of a law. -/
theorem isLaw_of_law {isPreorder : Head → Bool} {flag : Flag} {slot : Slot}
    (h : rule.law isPreorder flag = .ok (head, slot)) : rule.IsLaw head slot :=
  (law_eq_ok_iff.mp h).2.1

end Rule

/-! ## Places -/

theorem Properties.slot?_fill {p : Properties} {slot : Slot} (h : p.slot? slot = none)
    (rule : RuleRef) (other : Slot) :
    (p.fill rule slot).slot? other =
      (p.slot? other).or (if other = slot then some rule else none) := by
  by_cases ho : other = slot
  · subst ho
    rw [h, if_pos rfl, Option.none_or]
    cases other with
    | reflexive | symmetric | transitive => rfl
    | congruence relation =>
      have hnone : p.congruences.lookup relation = none := h
      show (p.congruences ++ [(relation, rule)]).lookup relation = some rule
      rw [List.lookup_append, hnone, Option.none_or, List.lookup_cons, beq_self_eq_true]
  · rw [if_neg ho, Option.or_none]
    cases slot with
    | reflexive => cases other <;> first | rfl | exact absurd rfl ho
    | symmetric => cases other <;> first | rfl | exact absurd rfl ho
    | transitive => cases other <;> first | rfl | exact absurd rfl ho
    | congruence relation =>
      cases other with
      | reflexive | symmetric | transitive => rfl
      | congruence relation' =>
        have hne : (relation' == relation) = false := by
          rw [beq_eq_false_iff_ne]
          rintro rfl
          exact ho rfl
        show (p.congruences ++ [(relation, rule)]).lookup relation' = p.congruences.lookup relation'
        rw [List.lookup_append, List.lookup_cons, hne, List.lookup_nil, Option.or_none]

namespace Registry

/-- **A registration fills its place if that is free, and changes no other.** -/
theorem slot?_put (r : Registry) (slot : Slot) (head : Head) (ref : RuleRef) (other : Head)
    (place : Slot) :
    ((r.put slot head ref).2.get other).slot? place =
      ((r.get other).slot? place).or (if other = head ∧ place = slot then some ref else none) := by
  rw [put]
  cases hs : (r.get head).slot? slot with
  | some taken =>
    by_cases ho : other = head
    · subst ho
      rw [get_set_self]
      by_cases hp : place = slot
      · rw [hp, hs, Option.some_or]
      · rw [if_neg fun h => hp h.2, Option.or_none]
    · rw [get_set_of_ne _ ho, if_neg fun h => ho h.1, Option.or_none]
  | none =>
    by_cases ho : other = head
    · subst ho
      rw [get_set_self, Properties.slot?_fill hs]
      simp only [true_and]
    · rw [get_set_of_ne _ ho, if_neg fun h => ho h.1, Option.or_none]

/-- What every accepted law preserves when it is put in is preserved by all flags of a rule. -/
theorem verifyEach_induct {motive : Registry → Prop} {ref : RuleRef} {rule : Rule}
    (hput : ∀ {r : Registry} {flag : Flag} {head : Head} {slot : Slot}, motive r →
      rule.law r.isPreorder flag = .ok (head, slot) → motive (r.put slot head ref).2)
    {r : Registry} (h : motive r) (flags : List Flag) : motive (r.verifyEach ref rule flags).2 := by
  induction flags generalizing r with
  | nil => exact h
  | cons flag flags ih =>
    refine ih ?_
    rw [verifyFlag]
    split
    · exact h
    · next head slot hlaw => exact hput h hlaw

theorem exists_of_isPreorder {r : Registry} {relation : Head} (h : r.isPreorder relation = true) :
    (∃ law, r.reflexivity? relation = some law) ∧ ∃ law, r.transitivity? relation = some law := by
  rw [isPreorder, Properties.isPreorder, Bool.and_eq_true] at h
  exact ⟨Option.isSome_iff_exists.mp h.1, Option.isSome_iff_exists.mp h.2⟩

/-! ## Where laws come from -/

/-- Every place that is filled holds one of the rules, and that rule is a law of the right shape. -/
def LawfulOver (rules : List (RuleRef × Rule)) (r : Registry) : Prop :=
  ∀ head slot ref, (r.get head).slot? slot = some ref →
    ∃ rule, (ref, rule) ∈ rules ∧ rule.IsLaw head slot

variable {rules : List (RuleRef × Rule)} {r : Registry}

theorem lawfulOver_empty (rules : List (RuleRef × Rule)) : LawfulOver rules {} := by
  intro head slot ref h
  cases slot <;> cases h

theorem LawfulOver.put (h : r.LawfulOver rules) {ref : RuleRef} {rule : Rule} {head : Head}
    {slot : Slot} (hmem : (ref, rule) ∈ rules) (hlaw : rule.IsLaw head slot) :
    (r.put slot head ref).2.LawfulOver rules := by
  intro other place ref' hplace
  rw [slot?_put, Option.or_eq_some_iff] at hplace
  rcases hplace with hplace | ⟨-, hplace⟩
  · exact h other place ref' hplace
  · split at hplace
    · next heq =>
      obtain ⟨rfl, rfl⟩ := heq
      cases hplace
      exact ⟨rule, hmem, hlaw⟩
    · cases hplace

theorem LawfulOver.verifyEach (h : r.LawfulOver rules) {ref : RuleRef} {rule : Rule}
    (hmem : (ref, rule) ∈ rules) (flags : List Flag) :
    (r.verifyEach ref rule flags).2.LawfulOver rules :=
  verifyEach_induct (fun h hlaw => h.put hmem (Rule.isLaw_of_law hlaw)) h flags

theorem LawfulOver.enterLaws (h : r.LawfulOver rules) (flags : List Flag)
    {entered : List (RuleRef × Rule)} (hsub : ∀ e ∈ entered, e ∈ rules) :
    (r.enterLaws flags entered).2.LawfulOver rules := by
  induction entered generalizing r with
  | nil => exact h
  | cons e entered ih =>
    obtain ⟨ref, rule⟩ := e
    refine ih (h.verifyEach (hsub _ List.mem_cons_self) _) fun e he => hsub e ?_
    exact List.mem_cons_of_mem _ he

/-- **Everything in the registry comes from a rule that has the shape of the law.** -/
theorem lawfulOver_ofRules (rules : List (RuleRef × Rule)) :
    (ofRules rules).2.LawfulOver rules :=
  ((lawfulOver_empty rules).enterLaws _ fun _ h => h).enterLaws _ fun _ h => h

end Registry

end Deduction
