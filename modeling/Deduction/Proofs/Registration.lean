import Deduction.Proofs.Registry
import Mathlib.Data.List.Nodup
import Mathlib.Data.List.Perm.Basic

/-!
# The order in which laws are entered

Laws are entered rule by rule and flag by flag, and a place is given to the first law that asks for
it.  So the registry depends on the order of the rules, unless no two laws ask for the same place.
But if two do, the second one is reported.  Nothing is reported exactly if every announcement has
the shape of its law and no place is asked for twice, and neither of these has to do with the order.

What complicates this is that a congruence law is accepted only if its relation is reflexive and
transitive by then.  The laws of relations are all entered before, and congruence laws do not make
relations reflexive or transitive, so during each of the two passes the answer to that question does
not change (`Registry.Stable`).  Each pass can then be described by the list of the places that are
asked for (`Registry.places`).

* `Registry.enterEach`, `Registry.ofRules_eq_enterEach`: one announcement after the other.
* `Registry.slot?_enterEach`: a place that was free goes to the first law that asks for it.
* `Registry.enterEach_eq_nil_iff`: when nothing is reported.
* `Registry.RenamedTo`, `Registry.ofRules_perm`: rules in another order and under other references
  give the same registry, up to the references.
-/

namespace Deduction

/-- A rule that is to be entered under one of its flags. -/
structure Announcement where
  ref : RuleRef
  rule : Rule
  flag : Flag

/-- The place that an announcement asks for, given which relations are reflexive and transitive. -/
def Announcement.place (isPreorder : Head → Bool) (a : Announcement) : Except Fault (Head × Slot) :=
  a.rule.law isPreorder a.flag

namespace Registry

/-- The announcements of rules by the given flags, in the order in which they are entered. -/
def announcements (flags : List Flag) (rules : List (RuleRef × Rule)) : List Announcement :=
  rules.flatMap fun e => (flags.eraseDups.filter (· ∈ e.2.flags)).map fun flag => ⟨e.1, e.2, flag⟩

/-- Entering announcements one after the other. -/
def enterEach (r : Registry) : List Announcement → List Error × Registry
  | [] => ([], r)
  | a :: as =>
    let entered := r.verifyFlag a.ref a.rule a.flag
    let rest := enterEach entered.2 as
    (entered.1.map (Fault.toError .verify a.ref.subject) ++ rest.1, rest.2)

theorem enterEach_append (r : Registry) (as bs : List Announcement) :
    r.enterEach (as ++ bs) =
      ((r.enterEach as).1 ++ ((r.enterEach as).2.enterEach bs).1,
        ((r.enterEach as).2.enterEach bs).2) := by
  induction as generalizing r with
  | nil => rfl
  | cons a as ih =>
    rw [List.cons_append, enterEach, ih, enterEach]
    simp only [List.append_assoc]

/-- The flags of one rule. -/
theorem enterEach_map (r : Registry) (ref : RuleRef) (rule : Rule) (flags : List Flag) :
    r.enterEach (flags.map fun flag => ⟨ref, rule, flag⟩) =
      ((r.verifyEach ref rule flags).1.map (Fault.toError .verify ref.subject),
        (r.verifyEach ref rule flags).2) := by
  induction flags generalizing r with
  | nil => rfl
  | cons flag flags ih =>
    rw [List.map_cons, enterEach, ih, verifyEach]
    simp only [List.map_append]

/-- Entering the laws of rules is entering their announcements. -/
theorem enterLaws_eq_enterEach (flags : List Flag) (r : Registry) (rules : List (RuleRef × Rule)) :
    r.enterLaws flags rules = r.enterEach (announcements flags rules) := by
  induction rules generalizing r with
  | nil => rfl
  | cons e rules ih =>
    obtain ⟨ref, rule⟩ := e
    rw [announcements, List.flatMap_cons, enterEach_append, enterEach_map, enterLaws, ih]
    rfl

/-- The announcements of rules in the order in which they are entered: all laws of relations, then
those of functions. -/
def allAnnouncements (rules : List (RuleRef × Rule)) : List Announcement :=
  announcements [.reflexive, .symmetric, .transitive] rules ++ announcements [.function] rules

/-- The two passes over the rules. -/
theorem ofRules_eq_passes (rules : List (RuleRef × Rule)) :
    ofRules rules =
      ((enterEach {} (announcements [.reflexive, .symmetric, .transitive] rules)).1 ++
        ((enterEach {} (announcements [.reflexive, .symmetric, .transitive] rules)).2.enterEach
          (announcements [.function] rules)).1,
        ((enterEach {} (announcements [.reflexive, .symmetric, .transitive] rules)).2.enterEach
          (announcements [.function] rules)).2) := by
  simp only [ofRules, enterLaws_eq_enterEach]

theorem ofRules_eq_enterEach (rules : List (RuleRef × Rule)) :
    ofRules rules = enterEach {} (allAnnouncements rules) := by
  rw [allAnnouncements, enterEach_append, ofRules_eq_passes]

/-! ## Which relations are reflexive and transitive -/

variable {r : Registry} {P : Head → Bool} {a : Announcement} {as bs : List Announcement}

/-- A relation counts as reflexive and transitive if these two places are taken. -/
theorem isPreorder_eq (r : Registry) (relation : Head) : r.isPreorder relation =
    (((r.get relation).slot? .reflexive).isSome && ((r.get relation).slot? .transitive).isSome) :=
  rfl

theorem isPreorder_put_congruence (r : Registry) (relation head : Head) (ref : RuleRef) :
    (r.put (.congruence relation) head ref).2.isPreorder = r.isPreorder := by
  funext other
  have hslot : ∀ slot, slot ≠ .congruence relation →
      ((r.put (.congruence relation) head ref).2.get other).slot? slot =
        (r.get other).slot? slot := by
    intro slot hslot
    rw [slot?_put, if_neg (fun h => hslot h.2), Option.or_none]
  rw [isPreorder_eq, isPreorder_eq, hslot .reflexive (by simp), hslot .transitive (by simp)]

/-- While these announcements are entered, it does not change which relations count as reflexive and
transitive, as far as it matters. -/
def Stable (P : Head → Bool) (as : List Announcement) (r : Registry) : Prop :=
  (∀ a ∈ as, a.flag ≠ .function) ∨ (∀ a ∈ as, a.flag = .function) ∧ r.isPreorder = P

theorem Stable.place_eq (h : Stable P as r) (ha : a ∈ as) : a.place r.isPreorder = a.place P := by
  rcases h with h | ⟨-, rfl⟩
  · have hflag := h a ha
    rw [Announcement.place, Announcement.place]
    cases hf : a.flag with
    | function => exact absurd hf hflag
    | _ => rfl
  · rfl

/-- What entering the first announcement can do: nothing but a report, or asking for a place. -/
theorem Stable.verifyFlag_cases (h : Stable P (a :: as) r) :
    (∃ fault, a.place P = .error fault ∧ r.verifyFlag a.ref a.rule a.flag = ([fault], r)) ∨
    ∃ place, a.place P = .ok place ∧ r.verifyFlag a.ref a.rule a.flag =
      ((r.put place.2 place.1 a.ref).1.fault?.toList, (r.put place.2 place.1 a.ref).2) := by
  rw [← h.place_eq List.mem_cons_self]
  cases hplace : a.place r.isPreorder with
  | error fault =>
    rw [Announcement.place] at hplace
    refine Or.inl ⟨fault, rfl, ?_⟩
    rw [Registry.verifyFlag, hplace]
  | ok place =>
    rw [Announcement.place] at hplace
    refine Or.inr ⟨place, rfl, ?_⟩
    rw [Registry.verifyFlag, hplace]

theorem Stable.verifyFlag (h : Stable P (a :: as) r) :
    Stable P as (r.verifyFlag a.ref a.rule a.flag).2 := by
  rcases h with h | ⟨hflags, rfl⟩
  · exact Or.inl (List.forall_mem_cons.mp h).2
  · rw [List.forall_mem_cons] at hflags
    refine Or.inr ⟨hflags.2, ?_⟩
    rw [Registry.verifyFlag, hflags.1, Rule.law]
    cases a.rule.functionLaw r.isPreorder with
    | error fault => rfl
    | ok l => exact isPreorder_put_congruence r l.2 l.1 a.ref

/-! ## The places that are asked for -/

/-- The places that announcements ask for, each with the rule that asks. -/
def places (P : Head → Bool) (as : List Announcement) : List ((Head × Slot) × RuleRef) :=
  as.filterMap fun a => (a.place P).toOption.map (·, a.ref)

theorem places_cons_of_error {fault : Fault} (h : a.place P = .error fault) :
    places P (a :: as) = places P as := by
  rw [places, List.filterMap_cons, h]
  rfl

theorem places_cons_of_ok {place : Head × Slot} (h : a.place P = .ok place) :
    places P (a :: as) = (place, a.ref) :: places P as := by
  rw [places, List.filterMap_cons, h]
  rfl

/-- **A place that is free goes to the first law that asks for it**, and one that is taken stays as
it is. -/
theorem slot?_enterEach (h : Stable P as r) (head : Head) (slot : Slot) :
    ((r.enterEach as).2.get head).slot? slot =
      ((r.get head).slot? slot).or ((places P as).lookup (head, slot)) := by
  induction as generalizing r with
  | nil => exact (Option.or_none).symm
  | cons a as ih =>
    rw [enterEach, ih h.verifyFlag]
    rcases h.verifyFlag_cases with ⟨fault, hplace, hstep⟩ | ⟨place, hplace, hstep⟩
    · rw [hstep, places_cons_of_error hplace]
    · rw [hstep, places_cons_of_ok hplace, List.lookup_cons, slot?_put, Option.or_assoc]
      by_cases heq : (head, slot) = place
      · subst heq
        rw [if_pos ⟨rfl, rfl⟩, beq_self_eq_true, Option.some_or]
      · have hne : ¬ (head = place.1 ∧ slot = place.2) := fun h => heq (Prod.ext h.1 h.2)
        rw [if_neg hne, beq_eq_false_iff_ne.mpr heq, Option.none_or]

theorem fault?_put_eq_nil_iff (r : Registry) (slot : Slot) (head : Head) (ref : RuleRef) :
    (r.put slot head ref).1.fault?.toList = [] ↔ (r.get head).slot? slot = none := by
  rw [put]
  cases hs : (r.get head).slot? slot with
  | none => simp [Registration.fault?]
  | some taken => simp [Registration.fault?]

/-- **Nothing is reported exactly if every announcement has the shape of its law, and asks for a
place that is free and that no other asks for.** -/
theorem enterEach_eq_nil_iff (h : Stable P as r) :
    (r.enterEach as).1 = [] ↔ (∀ a ∈ as, ∃ place, a.place P = .ok place) ∧
      ((places P as).map Prod.fst).Nodup ∧
      ∀ place ∈ (places P as).map Prod.fst, (r.get place.1).slot? place.2 = none := by
  induction as generalizing r with
  | nil => simp [enterEach, places]
  | cons a as ih =>
    rw [enterEach, List.append_eq_nil_iff, List.map_eq_nil_iff, ih h.verifyFlag,
      List.forall_mem_cons]
    rcases h.verifyFlag_cases with ⟨fault, hplace, hstep⟩ | ⟨place, hplace, hstep⟩
    · simp [hstep, hplace]
    · rw [hstep, hplace, places_cons_of_ok hplace, List.map_cons, List.nodup_cons,
        List.forall_mem_cons, fault?_put_eq_nil_iff]
      have hfree : ∀ other : Head × Slot,
          ((r.put place.2 place.1 a.ref).2.get other.1).slot? other.2 = none ↔
            (r.get other.1).slot? other.2 = none ∧ other ≠ place := by
        intro other
        rw [slot?_put, Option.or_eq_none_iff, ite_eq_right_iff, Ne, Prod.ext_iff]
        simp
      simp only [hfree]
      constructor
      · rintro ⟨hplaceFree, hok, hnodup, hothers⟩
        exact ⟨⟨⟨place, rfl⟩, hok⟩, ⟨fun hmem => (hothers place hmem).2 rfl, hnodup⟩, hplaceFree,
          fun other hmem => (hothers other hmem).1⟩
      · rintro ⟨⟨-, hok⟩, ⟨hnew, hnodup⟩, hplaceFree, hothers⟩
        exact ⟨hplaceFree, hok, hnodup, fun other hmem =>
          ⟨hothers other hmem, fun heq => hnew (heq ▸ hmem)⟩⟩

/-! ## The heads that are listed -/

/-- A head that something was registered for. -/
def Lists (r : Registry) (head : Head) : Prop := (r.lists.lookup head).isSome

theorem lists_set_iff (r : Registry) (head : Head) (p : Properties) (other : Head) :
    (r.set head p).Lists other ↔ r.Lists other ∨ other = head := by
  rw [Lists, Lists, set]
  by_cases hhead : (r.lists.lookup head).isSome = true
  · rw [if_pos hhead, lookup_map_replace]
    by_cases heq : other = head
    · subst heq
      simp [hhead]
    · simp [heq]
  · rw [if_neg hhead, List.lookup_append, List.lookup_cons]
    by_cases heq : other = head
    · simp [heq]
    · simp [heq, beq_eq_false_iff_ne.mpr heq]

theorem lists_put_iff (r : Registry) (slot : Slot) (head : Head) (ref : RuleRef) (other : Head) :
    (r.put slot head ref).2.Lists other ↔ r.Lists other ∨ other = head := by
  rw [put]
  cases (r.get head).slot? slot with
  | none => exact lists_set_iff r head _ other
  | some taken => exact lists_set_iff r head _ other

/-- The heads that are listed are those of the places that were asked for. -/
theorem lists_enterEach_iff (h : Stable P as r) (head : Head) :
    (r.enterEach as).2.Lists head ↔
      r.Lists head ∨ ∃ place ∈ (places P as).map Prod.fst, place.1 = head := by
  induction as generalizing r with
  | nil => simp [enterEach, places]
  | cons a as ih =>
    rw [enterEach, ih h.verifyFlag]
    rcases h.verifyFlag_cases with ⟨fault, hplace, hstep⟩ | ⟨place, hplace, hstep⟩
    · rw [hstep, places_cons_of_error hplace]
    · rw [hstep, places_cons_of_ok hplace, List.map_cons, List.exists_mem_cons_iff, lists_put_iff,
        or_assoc, eq_comm]

end Registry

/-! ## Rules in another order -/

/-- Among entries with different keys, what is found for a key is what is listed for it. -/
theorem lookup_eq_some_iff_mem {α β : Type} [BEq α] [LawfulBEq α] {entries : List (α × β)}
    (h : (entries.map Prod.fst).Nodup) {key : α} {value : β} :
    entries.lookup key = some value ↔ (key, value) ∈ entries := by
  induction entries with
  | nil => simp
  | cons e entries ih =>
    obtain ⟨key', value'⟩ := e
    rw [List.map_cons, List.nodup_cons] at h
    rw [List.lookup_cons, List.mem_cons, Prod.mk.injEq]
    by_cases heq : key = key'
    · subst heq
      have hnot : (key, value) ∉ entries := fun hmem => h.1 (List.mem_map.mpr ⟨_, hmem, rfl⟩)
      simp [hnot, eq_comm]
    · simp [beq_eq_false_iff_ne.mpr heq, heq, ih h.2]

theorem lookup_of_perm {α β γ : Type} [BEq α] [LawfulBEq α] {f : β → γ} {entries : List (α × β)}
    {others : List (α × γ)} (h : (entries.map Prod.fst).Nodup)
    (hperm : (entries.map (Prod.map id f)).Perm others) (key : α) :
    others.lookup key = (entries.lookup key).map f := by
  have hothers : (others.map Prod.fst).Nodup := by
    rw [← (hperm.map Prod.fst).nodup_iff, List.map_map]
    exact h
  ext value
  rw [lookup_eq_some_iff_mem hothers, ← hperm.mem_iff, List.mem_map, Option.map_eq_some_iff]
  simp only [lookup_eq_some_iff_mem h]
  constructor
  · rintro ⟨⟨k, v⟩, hmem, heq⟩
    cases heq
    exact ⟨v, hmem, rfl⟩
  · rintro ⟨v, hmem, rfl⟩
    exact ⟨(key, v), hmem, rfl⟩

/-- The same announcement of a rule that has another reference. -/
def Announcement.rename (f : RuleRef → RuleRef) (a : Announcement) : Announcement :=
  { a with ref := f a.ref }

namespace Registry

variable {f : RuleRef → RuleRef} {r r' : Registry} {P : Head → Bool} {as bs : List Announcement}
  {rules rules' : List (RuleRef × Rule)}

/-- The same heads are listed in two registries, and the same places are taken by laws of which only
the references differ.  The order of the lists does not matter. -/
structure RenamedTo (f : RuleRef → RuleRef) (r r' : Registry) : Prop where
  lists : ∀ head, r'.Lists head ↔ r.Lists head
  slot : ∀ head slot, (r'.get head).slot? slot = ((r.get head).slot? slot).map f

theorem RenamedTo.isPreorder (h : r.RenamedTo f r') : r'.isPreorder = r.isPreorder := by
  funext head
  rw [isPreorder_eq, isPreorder_eq, h.slot, h.slot, Option.isSome_map, Option.isSome_map]

theorem perm_announcements (flags : List Flag) (h : (rules.map (Prod.map f id)).Perm rules') :
    ((announcements flags rules).map (Announcement.rename f)).Perm
      (announcements flags rules') := by
  rw [announcements, announcements, List.map_flatMap]
  refine List.Perm.trans (.of_eq ?_) (h.flatMap_right _)
  rw [List.flatMap_map]
  refine List.flatMap_congr fun e _ => ?_
  rw [List.map_map]
  rfl

theorem perm_places (h : (as.map (Announcement.rename f)).Perm bs) :
    ((places P as).map (Prod.map id f)).Perm (places P bs) := by
  refine List.Perm.trans (.of_eq ?_) (h.filterMap _)
  rw [places, List.filterMap_map, List.map_filterMap]
  congr 1
  funext a
  rw [Option.map_map]
  rfl

/-- **If announcements are entered without anything being reported, then so they are in any other
order, and the registries are the same up to the references.** -/
theorem enterEach_perm (h : Stable P as r) (h' : Stable P bs r') (hr : r.RenamedTo f r')
    (hperm : (as.map (Announcement.rename f)).Perm bs) (hnil : (r.enterEach as).1 = []) :
    (r'.enterEach bs).1 = [] ∧ (r.enterEach as).2.RenamedTo f (r'.enterEach bs).2 := by
  obtain ⟨hok, hnodup, hfree⟩ := (enterEach_eq_nil_iff h).mp hnil
  have hplaces : ((places P as).map (Prod.map id f)).Perm (places P bs) := perm_places hperm
  have hkeys : ((places P as).map Prod.fst).Perm ((places P bs).map Prod.fst) := by
    have hmap := hplaces.map Prod.fst
    rwa [List.map_map] at hmap
  refine ⟨(enterEach_eq_nil_iff h').mpr ⟨?_, hkeys.nodup_iff.mp hnodup, ?_⟩, ?_, ?_⟩
  · intro b hb
    obtain ⟨a, ha, rfl⟩ := List.mem_map.mp (hperm.mem_iff.mpr hb)
    exact hok a ha
  · intro place hplace
    rw [hr.slot, hfree place (hkeys.mem_iff.mpr hplace), Option.map_none]
  · intro head
    rw [lists_enterEach_iff h', lists_enterEach_iff h, hr.lists]
    simp only [hkeys.mem_iff]
  · intro head slot
    rw [slot?_enterEach h', slot?_enterEach h, hr.slot, lookup_of_perm hnodup hplaces,
      Option.map_or]

theorem flag_mem_announcements {flags : List Flag} {a : Announcement}
    (h : a ∈ announcements flags rules) : a.flag ∈ flags := by
  obtain ⟨e, -, he⟩ := List.mem_flatMap.mp h
  obtain ⟨flag, hflag, rfl⟩ := List.mem_map.mp he
  exact List.mem_eraseDups.mp (List.mem_filter.mp hflag).1

theorem stable_relations (P : Head → Bool) (r : Registry) (rules : List (RuleRef × Rule)) :
    Stable P (announcements [.reflexive, .symmetric, .transitive] rules) r := by
  refine Or.inl fun a ha heq => ?_
  have hflag := flag_mem_announcements ha
  rw [heq] at hflag
  exact absurd hflag (by decide)

theorem stable_functions (r : Registry) (rules : List (RuleRef × Rule)) :
    Stable r.isPreorder (announcements [.function] rules) r :=
  Or.inr ⟨fun _ ha => List.mem_singleton.mp (flag_mem_announcements ha), rfl⟩

/-- **If the laws of rules are entered without anything being reported, then so are those of the
same rules in another order and under other references**, and the registries differ only in the
references. -/
theorem ofRules_perm (hperm : (rules.map (Prod.map f id)).Perm rules')
    (hnil : (ofRules rules).1 = []) :
    (ofRules rules').1 = [] ∧ (ofRules rules).2.RenamedTo f (ofRules rules').2 := by
  simp only [ofRules, enterLaws_eq_enterEach, List.append_eq_nil_iff] at hnil ⊢
  have hempty : RenamedTo f {} {} := ⟨fun _ => Iff.rfl, fun _ slot => by cases slot <;> rfl⟩
  obtain ⟨hrelations, hrenamed⟩ := enterEach_perm (stable_relations (fun _ => false) {} rules)
    (stable_relations (fun _ => false) {} rules') hempty (perm_announcements _ hperm) hnil.1
  have hstable := stable_functions
    (enterEach {} (announcements [.reflexive, .symmetric, .transitive] rules')).2 rules'
  rw [hrenamed.isPreorder] at hstable
  obtain ⟨hfunctions, hresult⟩ := enterEach_perm (stable_functions _ rules) hstable hrenamed
    (perm_announcements _ hperm) hnil.2
  exact ⟨⟨hrelations, hfunctions⟩, hresult⟩

end Registry

end Deduction
