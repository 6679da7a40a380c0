import Deduction.Proofs.Verification
import Deduction.Proofs.WriteOnce

/-!
# The registry is determined by the declarations

Laws are entered in two passes over the rules, and whether a rule gets the place that it asks for
depends on what was entered before.  In the end this comes to something that mentions no order of
events.  A place belongs to the first rule, axioms before theorems, that has no faults of its own,
carries the flag of the place and has the shape of the law; a congruence law counts only if its
relation ends up reflexive and transitive.  Every other announcement is answered with exactly one
error about the rule, and the registry at the end suffices to say which (`Registry.report`): if the
place that is asked for holds another rule, that one came first.

## Why the final registry can be used throughout

The report for an announcement is made when it is entered, and by then many places are still free.
But the place that it asks for is taken from then on, by this rule or by an earlier one, and a place
that is taken is never given away (`Registry.Grows`).  Nor does it matter that the congruence laws
are looked at before the end, since they make no relation reflexive or transitive.

* `firstLaw?`: the rule that a place belongs to.
* `Flag.shapeKinds`, `Rule.kind_mem_shapeKinds`: what is reported of a rule without the right shape.
* `Registry.slot?_ofRules`: the places of the registry.
* `Registry.ofRules_fst`: what is reported while it is built.
* `Directory.filter_errors`: what is reported of one rule.
* `Directory.registry_determined`: both together, for a whole directory.
-/

namespace Deduction

/-! ## Shapes -/

/-- Whether a rule has the shape of a law can be computed: it is what the check of its flag finds, if
all relations are taken for preorders. -/
instance Rule.decidableIsLaw (rule : Rule) (head : Head) (slot : Slot) :
    Decidable (rule.IsLaw head slot) :=
  decidable_of_iff ((rule.law (fun _ => true) slot.flag).toOption = some (head, slot)) (by
    have hadmitted : slot.admitted (fun _ => true) = true := by cases slot <;> rfl
    have hlaw : rule.law (fun _ => true) slot.flag = .ok (head, slot) ↔ rule.IsLaw head slot := by
      rw [law_eq_ok_iff, hadmitted]
      simp
    rw [← hlaw]
    cases rule.law (fun _ => true) slot.flag with
    | error fault => simp [Except.toOption]
    | ok place => simp [Except.toOption])

/-- What can be wrong with a rule that carries a flag, apart from the place being taken. -/
def Flag.shapeKinds : Flag → List ErrorKind
  | .reflexive =>
    [.reflexivityPremiseNotEmpty, .reflexivityAssertionNotBinary, .reflexivityArgumentMismatch]
  | .symmetric =>
    [.symmetryPremiseWrongLength, .symmetryPremiseNotBinary, .symmetryAssertionNotBinary,
     .symmetryRelationMismatch, .symmetryArgumentMismatch]
  | .transitive =>
    [.transitivityPremiseWrongLength, .transitivityFirstPremiseNotBinary,
     .transitivitySecondPremiseNotBinary, .transitivityPremiseRelationMismatch,
     .transitivityPremiseArgumentMismatch, .transitivityAssertionNotBinary,
     .transitivityAssertionRelationMismatch, .transitivityAssertionLeftMismatch,
     .transitivityAssertionRightMismatch]
  | .function =>
    [.functionPremiseEmpty, .functionAssertionNotBinary, .functionRelationNotPreorder,
     .functionAssertionLeftNotApplication, .functionAssertionRightNotApplication,
     .functionAssertionFunctionMismatch, .functionAssertionArityMismatch,
     .functionPremiseArityMismatch, .functionAssertionInputNotVariable, .functionPremiseNotBinary,
     .functionPremiseRelationMismatch, .functionPremiseLeftMismatch, .functionPremiseRightMismatch]

/-- If a check reports something, it is of one of these kinds. -/
def Blames {α : Type} (kinds : List ErrorKind) (x : Except Fault α) : Prop :=
  ∀ fault, x = .error fault → fault.kind ∈ kinds

namespace Blames

variable {α β : Type} {kinds : List ErrorKind} {x : Except Fault α} {kind : ErrorKind}
  {path : Option String}

theorem ok (a : α) : Blames kinds (.ok a : Except Fault α) := by
  intro fault h
  cases h

theorem error (h : kind ∈ kinds) : Blames kinds (.error ⟨kind, path⟩ : Except Fault α) := by
  intro fault hfault
  cases hfault
  exact h

/-- One condition after the other. -/
theorem guarded {c : Prop} [Decidable c] (h : kind ∈ kinds) (hx : Blames kinds x) :
    Blames kinds (if c then .error ⟨kind, path⟩ else x) := by
  split
  · exact error h
  · exact hx

theorem map {g : α → β} (hx : Blames kinds x) : Blames kinds (x.map g) := by
  cases x with
  | ok a => exact ok (g a)
  | error fault =>
    intro other hother
    cases hother
    exact hx fault rfl

end Blames

namespace Rule

theorem blames_reflexiveLaw (rule : Rule) :
    Blames Flag.reflexive.shapeKinds rule.reflexiveLaw := by
  rw [reflexiveLaw]
  refine .guarded (by decide) ?_
  split
  · exact .error (by decide)
  · exact .guarded (by decide) (.ok _)

theorem blames_symmetricLaw (rule : Rule) :
    Blames Flag.symmetric.shapeKinds rule.symmetricLaw := by
  rw [symmetricLaw]
  split
  · split
    · exact .error (by decide)
    · split
      · exact .error (by decide)
      · exact .guarded (by decide) (.guarded (by decide) (.ok _))
  · exact .error (by decide)

theorem blames_transitiveLaw (rule : Rule) :
    Blames Flag.transitive.shapeKinds rule.transitiveLaw := by
  rw [transitiveLaw]
  split
  · split
    · exact .error (by decide)
    · split
      · exact .error (by decide)
      · refine .guarded (by decide) (.guarded (by decide) ?_)
        split
        · exact .error (by decide)
        · exact .guarded (by decide) (.guarded (by decide) (.guarded (by decide) (.ok _)))
  · exact .error (by decide)

theorem blames_functionPremises (relation : Head) (index : Nat)
    (premises lefts rights : List Formula) :
    Blames Flag.function.shapeKinds (functionPremises relation index premises lefts rights) := by
  induction premises generalizing index lefts rights with
  | nil =>
    rw [functionPremises.eq_def]
    exact .ok ()
  | cons premise premises ih =>
    rw [functionPremises.eq_def]
    cases lefts with
    | nil => exact .ok ()
    | cons left lefts =>
      cases rights with
      | nil => exact .ok ()
      | cons right rights =>
        dsimp only
        split
        · split
          · exact .error (by decide)
          · refine .guarded (by decide) (.guarded (by decide) (.guarded (by decide) ?_))
            exact ih (index + 1) lefts rights
        · exact .error (by decide)

theorem blames_functionLaw (rule : Rule) (isPreorder : Head → Bool) :
    Blames Flag.function.shapeKinds (rule.functionLaw isPreorder) := by
  rw [functionLaw]
  refine .guarded (by decide) ?_
  split
  · exact .error (by decide)
  · refine .guarded (by decide) ?_
    split
    · exact .error (by decide)
    · split
      · exact .error (by decide)
      · refine .guarded (by decide) (.guarded (by decide) (.guarded (by decide) ?_))
        split
        · next fault hpremises =>
          intro other hother
          cases hother
          exact blames_functionPremises _ _ _ _ _ fault hpremises
        · exact .ok _

/-- What is reported of a rule without the shape that a flag announces. -/
theorem kind_mem_shapeKinds {rule : Rule} {isPreorder : Head → Bool} {flag : Flag} {fault : Fault}
    (h : rule.law isPreorder flag = .error fault) : fault.kind ∈ flag.shapeKinds := by
  cases flag with
  | reflexive => exact rule.blames_reflexiveLaw.map fault h
  | symmetric => exact rule.blames_symmetricLaw.map fault h
  | transitive => exact rule.blames_transitiveLaw.map fault h
  | function => exact (rule.blames_functionLaw isPreorder).map fault h

end Rule

/-! ## Who gets a place -/

/-- The first of some rules that carries the flag of a place and has the shape of its law. -/
def firstLaw? (rules : List (RuleRef × Rule)) (head : Head) (slot : Slot) : Option RuleRef :=
  (rules.find? fun e => slot.flag ∈ e.2.flags ∧ e.2.IsLaw head slot).map Prod.fst

theorem firstLaw?_cons (ref : RuleRef) (rule : Rule) (rules : List (RuleRef × Rule)) (head : Head)
    (slot : Slot) : firstLaw? ((ref, rule) :: rules) head slot =
      if slot.flag ∈ rule.flags ∧ rule.IsLaw head slot then some ref
      else firstLaw? rules head slot := by
  rw [firstLaw?, List.find?_cons]
  by_cases h : slot.flag ∈ rule.flags ∧ rule.IsLaw head slot
  · simp [h]
  · simp [h, firstLaw?]

theorem exists_of_firstLaw? {rules : List (RuleRef × Rule)} {head : Head} {slot : Slot}
    {ref : RuleRef} (h : firstLaw? rules head slot = some ref) :
    ∃ rule, (ref, rule) ∈ rules ∧ slot.flag ∈ rule.flags ∧ rule.IsLaw head slot := by
  obtain ⟨⟨ref', rule⟩, hfind, rfl⟩ := Option.map_eq_some_iff.mp h
  have hshape := List.find?_some hfind
  rw [decide_eq_true_eq] at hshape
  exact ⟨rule, List.mem_of_find?_eq_some hfind, hshape⟩

/-! ## Lists with owners -/

section

variable {α β κ : Type} [DecidableEq κ]

/-- Where every entry carries the key of the item that it comes from, the entries with a key are those
of the items with that key. -/
theorem filter_flatMap_of_key (owner : α → κ) (key : β → κ) {g : α → List β}
    (hg : ∀ a, ∀ b ∈ g a, key b = owner a) (k : κ) (items : List α) :
    (items.flatMap g).filter (key · = k) = (items.filter (owner · = k)).flatMap g := by
  induction items with
  | nil => rfl
  | cons a items ih =>
    rw [List.flatMap_cons, List.filter_append, ih]
    by_cases hk : owner a = k
    · have hall : (g a).filter (key · = k) = g a :=
        List.filter_eq_self.mpr fun b hb => decide_eq_true ((hg a b hb).trans hk)
      rw [List.filter_cons_of_pos (by simpa using hk), List.flatMap_cons, hall]
    · have hnone : (g a).filter (key · = k) = [] :=
        List.filter_eq_nil_iff.mpr fun b hb h => hk ((hg a b hb).symm.trans (of_decide_eq_true h))
      rw [List.filter_cons_of_neg (by simpa using hk), hnone, List.nil_append]

theorem filter_of_nodup_map (owner : α → κ) {items : List α} (hitems : (items.map owner).Nodup)
    {a : α} (ha : a ∈ items) : items.filter (owner · = owner a) = [a] := by
  induction items with
  | nil => cases ha
  | cons b items ih =>
    rw [List.map_cons, List.nodup_cons] at hitems
    rcases List.mem_cons.mp ha with rfl | hrest
    · rw [List.filter_cons_of_pos (by simp), List.filter_eq_nil_iff.mpr]
      intro b hb heq
      exact hitems.1 (List.mem_map.mpr ⟨b, hb, of_decide_eq_true heq⟩)
    · have hne : owner b ≠ owner a := fun heq => hitems.1 (heq ▸ List.mem_map_of_mem hrest)
      rw [List.filter_cons_of_neg (by simpa using hne), ih hitems.2 hrest]

end

namespace Registry

variable {P : Head → Bool} {head : Head} {slot : Slot} {rules : List (RuleRef × Rule)}

/-- The places that one rule asks for by some flags. -/
theorem lookup_places_map (ref : RuleRef) (rule : Rule) (flags : List Flag) :
    (places P (flags.map fun flag => ⟨ref, rule, flag⟩)).lookup (head, slot) =
      if slot.flag ∈ flags ∧ rule.IsLaw head slot ∧ slot.admitted P = true then some ref
      else none := by
  induction flags with
  | nil => simp [places]
  | cons flag flags ih =>
    rw [List.map_cons]
    have hlaw := @Rule.law_eq_ok_iff rule head P flag slot
    cases hplace : Announcement.place P ⟨ref, rule, flag⟩ with
    | error fault =>
      have hnot : ¬ (slot.flag = flag ∧ rule.IsLaw head slot ∧ slot.admitted P = true) := by
        rw [← hlaw]
        intro hok
        rw [Announcement.place, hok] at hplace
        cases hplace
      rw [places_cons_of_error hplace, ih]
      refine if_congr ?_ rfl rfl
      rw [List.mem_cons]
      tauto
    | ok place =>
      rw [places_cons_of_ok hplace, List.lookup_cons]
      rw [Announcement.place] at hplace
      by_cases heq : (head, slot) = place
      · rw [← heq, hlaw] at hplace
        have hmem : slot.flag ∈ flag :: flags := by
          rw [hplace.1]
          exact List.mem_cons_self
        rw [heq, beq_self_eq_true, if_pos ⟨hmem, hplace.2⟩]
      · have hnot : ¬ (slot.flag = flag ∧ rule.IsLaw head slot ∧ slot.admitted P = true) := by
          rw [← hlaw]
          intro hok
          rw [hplace] at hok
          exact heq (Except.ok.inj hok).symm
        rw [beq_eq_false_iff_ne.mpr heq, ih]
        refine if_congr ?_ rfl rfl
        rw [List.mem_cons]
        tauto

/-- Among the places that rules ask for, each is asked for first by the first law for it. -/
theorem lookup_places (P : Head → Bool) (flags : List Flag) (rules : List (RuleRef × Rule))
    (head : Head) (slot : Slot) :
    (places P (announcements flags rules)).lookup (head, slot) =
      if slot.flag ∈ flags ∧ slot.admitted P = true then firstLaw? rules head slot else none := by
  induction rules with
  | nil => simp [announcements, places, firstLaw?]
  | cons e rules ih =>
    obtain ⟨ref, rule⟩ := e
    rw [announcements, List.flatMap_cons, places, List.filterMap_append, List.lookup_append]
    have hfirst := @lookup_places_map P head slot ref rule (flags.eraseDups.filter (· ∈ rule.flags))
    rw [places] at hfirst
    rw [announcements, places] at ih
    rw [hfirst, ih, firstLaw?_cons]
    simp only [List.mem_filter, List.mem_eraseDups, decide_eq_true_eq]
    by_cases hflag : slot.flag ∈ flags ∧ slot.admitted P = true
    · by_cases hshape : slot.flag ∈ rule.flags ∧ rule.IsLaw head slot
      · simp [hflag, hshape]
      · simp [hflag, hshape]
    · have hnot : ¬ ((slot.flag ∈ flags ∧ slot.flag ∈ rule.flags) ∧ rule.IsLaw head slot ∧
          slot.admitted P = true) := by tauto
      simp [hflag, hnot]

/-! ## The places of the registry -/

theorem slot?_empty (head : Head) (slot : Slot) : (({} : Registry).get head).slot? slot = none := by
  cases slot <;> rfl

/-- What is left to be entered after the laws of relations asks for other places than they do. -/
theorem isPreorder_ofRules (rules : List (RuleRef × Rule)) : (ofRules rules).2.isPreorder =
    (enterEach {} (announcements [.reflexive, .symmetric, .transitive] rules)).2.isPreorder := by
  simp only [ofRules, enterLaws_eq_enterEach]
  funext relation
  have hstays : ∀ place : Slot, place.flag ≠ .function → ∀ r : Registry,
      ((r.enterEach (announcements [.function] rules)).2.get relation).slot? place =
        (r.get relation).slot? place := by
    intro place hplace r
    rw [slot?_enterEach (stable_functions r rules), lookup_places, if_neg, Option.or_none]
    rintro ⟨hmem, -⟩
    exact hplace (List.mem_singleton.mp hmem)
  rw [isPreorder_eq, isPreorder_eq, hstays .reflexive (by decide), hstays .transitive (by decide)]

/-- The second pass finds the preorders that there are in the end. -/
theorem stable_functions_ofRules (rules : List (RuleRef × Rule)) :
    Stable (ofRules rules).2.isPreorder (announcements [.function] rules)
      (enterEach {} (announcements [.reflexive, .symmetric, .transitive] rules)).2 := by
  rw [isPreorder_ofRules]
  exact stable_functions _ rules

/-- **Each place belongs to the first law for it**, and a congruence of a relation that is no preorder
to none. -/
theorem slot?_ofRules (rules : List (RuleRef × Rule)) (head : Head) (slot : Slot) :
    ((ofRules rules).2.get head).slot? slot =
      if slot.admitted (ofRules rules).2.isPreorder = true then firstLaw? rules head slot
      else none := by
  have hfirst := slot?_enterEach
    (stable_relations (ofRules rules).2.isPreorder {} rules) head slot
  have hsecond := slot?_enterEach (stable_functions_ofRules rules) head slot
  rw [lookup_places] at hfirst hsecond
  rw [slot?_empty, Option.none_or] at hfirst
  rw [hfirst] at hsecond
  have hpasses := congrArg Prod.snd (ofRules_eq_passes rules)
  rw [hpasses] at hsecond ⊢
  rw [hsecond]
  cases slot with
  | reflexive | symmetric | transitive => simp [Slot.flag, Slot.admitted]
  | congruence relation => simp [Slot.flag]

/-! ## What is reported -/

/-- What an announcement is answered with, as the registry in the end tells it: what is wrong with
the shape of the rule, or that the place belongs to another rule. -/
def report (r : Registry) (a : Announcement) : Option Fault :=
  match a.place r.isPreorder with
  | .error fault => some fault
  | .ok place =>
    if (r.get place.1).slot? place.2 = some a.ref then none
    else some ⟨.duplicateProperty, none⟩

theorem report_of_error {r : Registry} {a : Announcement} {fault : Fault}
    (h : a.place r.isPreorder = .error fault) : r.report a = some fault := by
  rw [report, h]

theorem report_of_ok {r : Registry} {a : Announcement} {place : Head × Slot}
    (h : a.place r.isPreorder = .ok place) :
    r.report a = if (r.get place.1).slot? place.2 = some a.ref then none
      else some ⟨.duplicateProperty, none⟩ := by
  rw [report, h]

theorem grows_verifyFlag (r : Registry) (ref : RuleRef) (rule : Rule) (flag : Flag) :
    r.Grows (r.verifyFlag ref rule flag).2 := by
  rw [verifyFlag]
  split
  · exact .refl r
  · exact (Grows.refl r).put _ _ ref

theorem grows_enterEach (r : Registry) (as : List Announcement) : r.Grows (r.enterEach as).2 := by
  induction as generalizing r with
  | nil => exact .refl r
  | cons a as ih => exact (r.grows_verifyFlag a.ref a.rule a.flag).trans (ih _)

variable {r final : Registry} {a : Announcement} {as : List Announcement}

/-- The report for one announcement is the one that is made when it is entered, in whatever state, if
the rule does not hold the place by then. -/
theorem Stable.verifyFlag_fst (h : Stable final.isPreorder (a :: as) r)
    (hnew : ∀ place, a.place final.isPreorder = .ok place →
      (r.get place.1).slot? place.2 ≠ some a.ref)
    (hgrows : (r.verifyFlag a.ref a.rule a.flag).2.Grows final) :
    (r.verifyFlag a.ref a.rule a.flag).1 = (final.report a).toList := by
  rcases h.verifyFlag_cases with ⟨fault, hplace, hstep⟩ | ⟨place, hplace, hstep⟩
  · rw [hstep, report_of_error hplace]
    rfl
  · rw [hstep] at hgrows ⊢
    rw [report_of_ok hplace]
    cases hslot : (r.get place.1).slot? place.2 with
    | none =>
      obtain ⟨hrecorded, hfills⟩ := put_of_free hslot a.ref
      have htaken := hfills.2 place.1 place.2
      rw [if_pos ⟨rfl, rfl⟩] at htaken
      rw [hrecorded, if_pos (hgrows _ _ _ htaken)]
      rfl
    | some other =>
      obtain ⟨hduplicate, hsame⟩ := put_of_taken hslot a.ref
      have htaken := (hsame place.1 place.2).trans hslot
      have hother : some other ≠ some a.ref := hslot ▸ hnew place hplace
      rw [hduplicate, hgrows _ _ _ htaken, if_neg hother]
      rfl

/-- **What is reported while announcements are entered**, none of which is made twice and none of
which was entered before. -/
theorem enterEach_fst (h : Stable final.isPreorder as r)
    (hnodup : (as.map fun a => (a.ref, a.flag)).Nodup)
    (hnew : ∀ a ∈ as, ∀ place, a.place final.isPreorder = .ok place →
      (r.get place.1).slot? place.2 ≠ some a.ref)
    (hgrows : (r.enterEach as).2.Grows final) :
    (r.enterEach as).1 = as.flatMap fun a =>
      (final.report a).toList.map (Fault.toError .verify a.ref.subject) := by
  induction as generalizing r with
  | nil => rfl
  | cons a as ih =>
    rw [List.map_cons, List.nodup_cons] at hnodup
    rw [List.forall_mem_cons] at hnew
    have hrest : (r.verifyFlag a.ref a.rule a.flag).2.Grows final :=
      (grows_enterEach _ as).trans hgrows
    rw [enterEach, List.flatMap_cons, h.verifyFlag_fst hnew.1 hrest]
    refine congrArg _ (ih h.verifyFlag hnodup.2 (fun b hb place hplace => ?_) hgrows)
    -- if the first announcement took the place, it was made by another rule or by another flag
    rcases h.verifyFlag_cases with ⟨fault, -, hstep⟩ | ⟨first, hfirst, hstep⟩
    · rw [hstep]
      exact hnew.2 b hb place hplace
    · rw [hstep]
      intro htaken
      rw [slot?_put, Option.or_eq_some_iff] at htaken
      rcases htaken with hold | ⟨-, hplaces⟩
      · exact hnew.2 b hb place hplace hold
      · split at hplaces
        · next heq =>
          have hflag : a.flag = b.flag := by
            rw [← (Rule.law_eq_ok_iff.mp hfirst).1, ← (Rule.law_eq_ok_iff.mp hplace).1, heq.2]
          refine hnodup.1 (List.mem_map.mpr ⟨b, hb, ?_⟩)
          rw [hflag, Option.some.inj hplaces]
        · cases hplaces

theorem nodup_announcements (flags : List Flag) (hflags : flags.eraseDups.Nodup)
    (hrules : (rules.map Prod.fst).Nodup) :
    ((announcements flags rules).map fun a => (a.ref, a.flag)).Nodup := by
  have hmap : (announcements flags rules).map (fun a => (a.ref, a.flag)) =
      rules.flatMap fun e => (flags.eraseDups.filter (· ∈ e.2.flags)).map (e.1, ·) := by
    rw [announcements, List.map_flatMap]
    simp only [List.map_map]
    rfl
  rw [hmap, List.nodup_flatMap]
  refine ⟨fun e _ => ?_, ?_⟩
  · exact (hflags.filter _).map fun _ _ heq => (Prod.mk.inj heq).2
  · refine (List.pairwise_map.mp hrules).imp fun {e e'} hne => ?_
    intro pair hpair hpair'
    obtain ⟨flag, -, rfl⟩ := List.mem_map.mp hpair
    obtain ⟨flag', -, heq⟩ := List.mem_map.mp hpair'
    exact hne (Prod.mk.inj heq).1.symm

/-- **What is reported while a registry is built**: for every announcement what the registry in the
end has to say about it. -/
theorem ofRules_fst (hrules : (rules.map Prod.fst).Nodup) :
    (ofRules rules).1 = (allAnnouncements rules).flatMap fun a =>
      ((ofRules rules).2.report a).toList.map (Fault.toError .verify a.ref.subject) := by
  have hfinal := (congrArg Prod.snd (ofRules_eq_passes rules)).symm
  have hrelations := enterEach_fst (stable_relations (ofRules rules).2.isPreorder {} rules)
    (nodup_announcements _ (by decide) hrules)
    (by
      intro a _ place _ htaken
      rw [slot?_empty] at htaken
      cases htaken)
    (hfinal ▸ grows_enterEach _ _)
  have hfunctions := enterEach_fst (stable_functions_ofRules rules)
    (nodup_announcements _ (by decide) hrules)
    (by
      -- only the laws of relations were entered before
      intro a ha place hplace htaken
      have hflag : place.2.flag = .function := by
        rw [(Rule.law_eq_ok_iff.mp hplace).1]
        exact List.mem_singleton.mp (flag_mem_announcements ha)
      rw [slot?_enterEach (stable_relations (ofRules rules).2.isPreorder {} rules), slot?_empty,
        Option.none_or, lookup_places, hflag, if_neg (by simp)] at htaken
      cases htaken)
    (hfinal ▸ Grows.refl _)
  have happend := congrArg Prod.fst (ofRules_eq_passes rules)
  rw [happend, hrelations, hfunctions, allAnnouncements, List.flatMap_append]

/-! ## What is reported of one rule -/

theorem filter_announcements (flags : List Flag) (ref : RuleRef) (rules : List (RuleRef × Rule)) :
    (announcements flags rules).filter (·.ref = ref) =
      announcements flags (rules.filter (·.1 = ref)) := by
  refine filter_flatMap_of_key Prod.fst Announcement.ref (fun e a ha => ?_) ref rules
  obtain ⟨flag, -, rfl⟩ := List.mem_map.mp ha
  rfl

/-- The announcements of one rule. -/
theorem allAnnouncements_singleton (ref : RuleRef) (rule : Rule) :
    allAnnouncements [(ref, rule)] =
      (Flag.all.filter (· ∈ rule.flags)).map fun flag => ⟨ref, rule, flag⟩ := by
  have hone : ∀ flags : List Flag, announcements flags [(ref, rule)] =
      (flags.eraseDups.filter (· ∈ rule.flags)).map fun flag => ⟨ref, rule, flag⟩ := by
    intro flags
    rw [announcements, List.flatMap_singleton]
  rw [allAnnouncements, hone, hone, ← List.map_append, ← List.filter_append]
  rfl

/-- What is reported of a rule is reported for its own announcements. -/
theorem filter_ofRules_fst (hrules : (rules.map Prod.fst).Nodup) (ref : RuleRef) :
    (ofRules rules).1.filter (·.subject = ref.subject) =
      (allAnnouncements (rules.filter (·.1 = ref))).flatMap fun a =>
        ((ofRules rules).2.report a).toList.map (Fault.toError .verify a.ref.subject) := by
  have howner : (allAnnouncements rules).filter (fun a => a.ref.subject = ref.subject) =
      allAnnouncements (rules.filter (·.1 = ref)) := by
    simp only [RuleRef.subject_injective.eq_iff]
    rw [allAnnouncements, List.filter_append, filter_announcements, filter_announcements,
      allAnnouncements]
  rw [ofRules_fst hrules, ← howner]
  refine filter_flatMap_of_key (fun a : Announcement => a.ref.subject) Error.subject (fun a e he => ?_) _ _
  obtain ⟨fault, -, rfl⟩ := List.mem_map.mp he
  rfl

/-- A rule holds a place of the kind that a flag announces. -/
def Holds (r : Registry) (ref : RuleRef) (flag : Flag) : Prop :=
  ∃ head slot, slot.flag = flag ∧ (r.get head).slot? slot = some ref

/-- A rule has the shape that a flag announces, and a congruence is one of a preorder. -/
def Qualifies (r : Registry) (rule : Rule) (flag : Flag) : Prop :=
  ∃ head slot, slot.flag = flag ∧ rule.IsLaw head slot ∧ slot.admitted r.isPreorder = true

/-- A rule that qualifies asks for a place, and otherwise its shape is reported. -/
theorem qualifies_iff {r : Registry} {rule : Rule} {flag : Flag} :
    r.Qualifies rule flag ↔ ∃ place, rule.law r.isPreorder flag = .ok place := by
  constructor
  · rintro ⟨head, slot, hlaw⟩
    exact ⟨(head, slot), Rule.law_eq_ok_iff.mpr hlaw⟩
  · rintro ⟨⟨head, slot⟩, hlaw⟩
    exact ⟨head, slot, Rule.law_eq_ok_iff.mp hlaw⟩

theorem kind_of_report {r : Registry} {ref : RuleRef} {rule : Rule} {flag : Flag} {fault : Fault}
    (h : r.report ⟨ref, rule, flag⟩ = some fault) :
    (r.Qualifies rule flag → fault.kind = .duplicateProperty) ∧
      (¬ r.Qualifies rule flag → fault.kind ∈ flag.shapeKinds) := by
  rw [qualifies_iff]
  cases hplace : rule.law r.isPreorder flag with
  | error shape =>
    rw [report_of_error (a := ⟨ref, rule, flag⟩) hplace] at h
    cases h
    refine ⟨?_, fun _ => Rule.kind_mem_shapeKinds hplace⟩
    rintro ⟨place, heq⟩
    cases heq
  | ok place =>
    rw [report_of_ok (a := ⟨ref, rule, flag⟩) hplace] at h
    split at h
    · cases h
    · cases h
      exact ⟨fun _ => rfl, fun hnot => absurd ⟨place, rfl⟩ hnot⟩

/-- Nothing is reported exactly if the rule got a place. -/
theorem report_eq_none_iff (hrules : (rules.map Prod.fst).Nodup) {ref : RuleRef} {rule : Rule}
    (hmem : (ref, rule) ∈ rules) (flag : Flag) :
    (ofRules rules).2.report ⟨ref, rule, flag⟩ = none ↔ (ofRules rules).2.Holds ref flag := by
  constructor
  · intro h
    cases hplace : rule.law (ofRules rules).2.isPreorder flag with
    | error fault =>
      rw [report_of_error (a := ⟨ref, rule, flag⟩) hplace] at h
      cases h
    | ok place =>
      rw [report_of_ok (a := ⟨ref, rule, flag⟩) hplace] at h
      refine ⟨place.1, place.2, (Rule.law_eq_ok_iff.mp hplace).1, ?_⟩
      by_contra hother
      rw [if_neg hother] at h
      cases h
  · rintro ⟨head, slot, hflag, htaken⟩
    have hslot := slot?_ofRules rules head slot
    rw [htaken] at hslot
    split at hslot
    · next hadmitted =>
      obtain ⟨other, hother, -, hlaw⟩ := exists_of_firstLaw? hslot.symm
      have heq : other = rule := by
        have hpair := List.inj_on_of_nodup_map hrules hother hmem rfl
        exact (Prod.mk.inj hpair).2
      rw [heq] at hlaw
      have hplace : Announcement.place (ofRules rules).2.isPreorder ⟨ref, rule, flag⟩ =
          .ok (head, slot) := Rule.law_eq_ok_iff.mpr ⟨hflag, hlaw, hadmitted⟩
      rw [report_of_ok hplace, if_pos htaken]
    · cases hslot

end Registry

namespace Directory

variable {D : Directory} {ref : RuleRef} {rule : Rule}

theorem nodup_soundRules (D : Directory) : (D.soundRules.map Prod.fst).Nodup :=
  D.nodup_refs.sublist (List.filter_sublist.map _)

/-- The laws of a rule are entered if nothing is wrong with the rule itself. -/
theorem filter_soundRules (h : D.rule? ref = some rule) :
    D.soundRules.filter (·.1 = ref) = if D.ruleFaults rule = [] then [(ref, rule)] else [] := by
  rw [soundRules, List.filter_comm,
    filter_of_nodup_map Prod.fst D.nodup_refs (mem_rules_iff.mpr h)]
  by_cases hfaults : D.ruleFaults rule = []
  · simp [hfaults]
  · simp [hfaults]

theorem filter_entityErrors {α : Type} {kind : SubjectKind} {faults : Nat → α → List Fault}
    {entities : List α} {subject : Subject} (hkind : kind ≠ subject.kind) :
    (entityErrors kind faults entities).filter (·.subject = subject) = [] := by
  rw [List.filter_eq_nil_iff]
  intro e he hsubject
  obtain ⟨n, a, -, fault, -, rfl⟩ := mem_entityErrors_iff.mp he
  rw [← of_decide_eq_true hsubject] at hkind
  exact hkind rfl

/-- What is reported of a rule as a declaration. -/
theorem filter_declarationErrors (h : D.rule? ref = some rule) :
    D.declarationErrors.filter (·.subject = ref.subject) =
      (D.ruleFaults rule).map (Fault.toError .verify ref.subject) := by
  have hkinds : ref.subject.kind = .ofAxiom ∨ ref.subject.kind = .ofTheorem := by
    cases ref
    · exact .inl rfl
    · exact .inr rfl
  have hother : ∀ kind : SubjectKind, kind ≠ .ofAxiom → kind ≠ .ofTheorem →
      kind ≠ ref.subject.kind := by
    intro kind haxiom htheorem heq
    rcases hkinds with hkind | hkind
    · exact haxiom (heq.trans hkind)
    · exact htheorem (heq.trans hkind)
  have hrules := filter_flatMap_of_key (fun r : RuleRef × Rule => r.1.subject) Error.subject
    (g := fun r => (D.ruleFaults r.2).map (Fault.toError .verify r.1.subject))
    (fun r e he => by
      obtain ⟨fault, -, rfl⟩ := List.mem_map.mp he
      rfl) ref.subject D.rules
  simp only [RuleRef.subject_injective.eq_iff] at hrules
  rw [declarationErrors, List.filter_append, List.filter_append, List.filter_append,
    filter_entityErrors (hother .type (by decide) (by decide)),
    filter_entityErrors (hother .symbol (by decide) (by decide)),
    filter_entityErrors (hother .definition (by decide) (by decide)), hrules,
    filter_of_nodup_map Prod.fst D.nodup_refs (mem_rules_iff.mpr h)]
  simp

theorem filter_allProofErrors (D : Directory) (ref : RuleRef) :
    D.allProofErrors.filter (·.subject = ref.subject) = [] := by
  rw [List.filter_eq_nil_iff]
  intro e he hsubject
  obtain ⟨p, -, hp⟩ := List.mem_flatMap.mp he
  have hkind := (subject_of_mem_proofErrors hp).1
  rw [of_decide_eq_true hsubject] at hkind
  cases ref <;> cases hkind

/-- **The errors about a rule**: its own faults or, if there are none, what is reported for its
flags. -/
theorem filter_errors (h : D.rule? ref = some rule) :
    D.verify.errors.filter (·.subject = ref.subject) =
      (D.ruleFaults rule ++ if D.ruleFaults rule = [] then
        (Flag.all.filter (· ∈ rule.flags)).filterMap fun flag =>
          D.verify.registry.report ⟨ref, rule, flag⟩
        else []).map (Fault.toError .verify ref.subject) := by
  rw [verify, List.filter_append, List.filter_append, filter_declarationErrors h,
    Registry.filter_ofRules_fst D.nodup_soundRules, filter_soundRules h, filter_allProofErrors,
    List.append_nil, List.map_append]
  refine congrArg _ ?_
  split
  · rw [Registry.allAnnouncements_singleton, List.flatMap_map, List.filterMap_eq_flatMap_toList,
      List.map_flatMap]
  · rfl

/-- **The registry is determined by the declarations.**  Each place belongs to the first rule without
faults that carries its flag and has the shape of its law; a congruence counts if its relation has
laws that make it reflexive and transitive.  Of a rule without faults nothing is reported except for
the flags by which it gets no place, once for each of them. -/
theorem registry_determined (D : Directory) :
    (∀ head slot, slot.flag ≠ .function →
      (D.verify.registry.get head).slot? slot = firstLaw? D.soundRules head slot) ∧
    (∀ function relation, D.verify.registry.congruence? function relation =
      if (D.verify.registry.reflexivity? relation).isSome ∧
          (D.verify.registry.transitivity? relation).isSome then
        firstLaw? D.soundRules function (.congruence relation)
      else none) ∧
    ∀ ref rule, D.rule? ref = some rule → ∃ report : Flag → Option Fault,
      D.verify.errors.filter (·.subject = ref.subject) =
        (D.ruleFaults rule ++ if D.ruleFaults rule = [] then
          (Flag.all.filter (· ∈ rule.flags)).filterMap report else []).map
            (Fault.toError .verify ref.subject) ∧
      (D.ruleFaults rule = [] → ∀ flag ∈ rule.flags,
        (report flag = none ↔ D.verify.registry.Holds ref flag) ∧
        ∀ fault, report flag = some fault →
          (D.verify.registry.Qualifies rule flag → fault.kind = .duplicateProperty) ∧
          (¬ D.verify.registry.Qualifies rule flag → fault.kind ∈ flag.shapeKinds)) := by
  have hslot := Registry.slot?_ofRules D.soundRules
  refine ⟨fun head slot hflag => ?_, fun function relation => ?_, fun ref rule hrule => ?_⟩
  · rw [verify, hslot head slot, if_pos]
    cases slot with
    | reflexive | symmetric | transitive => rfl
    | congruence relation => exact absurd rfl hflag
  · refine (hslot function (.congruence relation)).trans (if_congr ?_ rfl rfl)
    exact Bool.and_eq_true_iff
  · refine ⟨fun flag => D.verify.registry.report ⟨ref, rule, flag⟩, filter_errors hrule, ?_⟩
    intro hfaults flag _
    have hmem : (ref, rule) ∈ D.soundRules := by
      refine List.mem_filter.mpr ⟨mem_rules_iff.mpr hrule, ?_⟩
      rw [hfaults]
      rfl
    exact ⟨Registry.report_eq_none_iff D.nodup_soundRules hmem flag,
      fun fault hfault => Registry.kind_of_report hfault⟩

/-- A directory where a congruence law is declared before the laws that make its relation a preorder,
and where the last axiom is a second law of reflexivity. -/
def rivals : Directory where
  systems := [⟨.null⟩]
  types := [⟨.null, 0⟩, ⟨.null, 0⟩]
  symbols := [⟨.null, 0, .arrow (.ground 0) (.arrow (.ground 0) (.ground 1))⟩,
    ⟨.null, 0, .arrow (.ground 0) (.ground 0)⟩]
  definitions := []
  axioms := [
    ⟨.null, 0, [⟨.null, .ground 0⟩, ⟨.null, .ground 0⟩], [(Head.symbol 0).relates 0 1],
      (Head.symbol 0).apply [.app (.symbol 1) (.var 0), .app (.symbol 1) (.var 1)], [.function]⟩,
    ⟨.null, 0, [⟨.null, .ground 0⟩], [], (Head.symbol 0).relates 0 0, [.reflexive]⟩,
    ⟨.null, 0, [⟨.null, .ground 0⟩, ⟨.null, .ground 0⟩, ⟨.null, .ground 0⟩],
      [(Head.symbol 0).relates 0 1, (Head.symbol 0).relates 1 2], (Head.symbol 0).relates 0 2,
      [.transitive]⟩,
    ⟨.null, 0, [⟨.null, .ground 0⟩], [], (Head.symbol 0).relates 0 0, [.reflexive]⟩]
  theorems := []
  proofs := []

/-- The congruence law gets its place, and of the second law of reflexivity it is reported that the
place is taken. -/
theorem registry_determined_rivals :
    rivals.verify.registry.congruence? (.symbol 1) (.symbol 0) = some (.ofAxiom 0) ∧
    ∃ fault : Fault, rivals.verify.errors.filter (·.subject = (RuleRef.ofAxiom 3).subject) =
        [fault.toError .verify (RuleRef.ofAxiom 3).subject] ∧
      fault.kind = .duplicateProperty := by
  obtain ⟨-, hcongruence, hrules⟩ := registry_determined rivals
  obtain ⟨report, herrors, hreport⟩ := hrules (.ofAxiom 3) _ rfl
  have hlength : (rivals.verify.errors.filter
      (·.subject = (RuleRef.ofAxiom 3).subject)).length = 1 := by decide
  have hsound : rivals.ruleFaults
      ⟨.null, 0, [⟨.null, .ground 0⟩], [], (Head.symbol 0).relates 0 0, [.reflexive]⟩ = [] := by
    decide
  rw [hsound, if_pos rfl] at herrors
  refine ⟨(hcongruence _ _).trans (by decide), ?_⟩
  cases hfault : report .reflexive with
  | none =>
    have hnone : [Flag.reflexive].filterMap report = [] := by simp [hfault]
    have hflags : (Flag.all.filter (· ∈ [Flag.reflexive])).filterMap report = [] := hnone
    rw [herrors, hflags] at hlength
    cases hlength
  | some fault =>
    have hsome : [Flag.reflexive].filterMap report = [fault] := by simp [hfault]
    have hqualifies : rivals.verify.registry.Qualifies
        ⟨.null, 0, [⟨.null, .ground 0⟩], [], (Head.symbol 0).relates 0 0, [.reflexive]⟩
        .reflexive := ⟨.symbol 0, .reflexive, rfl, ⟨rfl, 0, rfl⟩, rfl⟩
    refine ⟨fault, herrors.trans ?_,
      ((hreport hsound .reflexive (by decide)).2 fault hfault).1 hqualifies⟩
    exact congrArg (List.map _) hsome

end Directory

end Deduction
