import Deduction.Proofs.Facing
import Mathlib.Algebra.BigOperators.Group.List.Basic
import Mathlib.Data.Multiset.Bind

/-!
# The order of joining bindings

When bindings are joined the left ones are kept, and alternatives are listed with the left side
varying slowest.  So the outcome depends on the order in which things are joined, but only in what
is invisible elsewhere: which of several compatible formulas is kept, and where an alternative
stands in the list.

Up to definitions, bindings are an assignment of normal forms to some variables.  Two assignments
that agree have one join, whichever comes first, and of three the pairs have to agree in any case.
Up to order, alternatives are a multiset of assignments, and joining two lists joins every
assignment of the one with every assignment of the other.  This multiplication is commutative and
associative, so a product of several lists depends neither on their order nor on the brackets.

* `Assignment`, `Assignment.joins`: normal forms of variables, and the join of two that agree.
* `Meaning`: alternatives up to definitions and order, a commutative monoid.
* `Bindings.yields_mergeAll_meaning`, `Bindings.Means.exists_perm_alike`: joining is multiplication,
  and alternatives that mean the same are alike.
* `MergePlan`: joining several lists, in any order and with any brackets.
* `Bindings.merges_alike`: the order does not matter.
-/

namespace Deduction

/-! ## Assignments -/

/-- Formulas that are assigned to some of the variables. -/
abbrev Assignment := Ref → Option Formula

namespace Assignment

variable {u v w : Assignment}

/-- Where both assign a formula, it is the same one. -/
def Agrees (u v : Assignment) : Prop := ∀ ref g h, u ref = some g → v ref = some h → g = h

/-- What either of two assignments assigns. -/
def join (u v : Assignment) : Assignment := fun ref => (u ref).or (v ref)

theorem agrees_comm : Agrees u v ↔ Agrees v u := by
  constructor <;> exact fun h ref g g' hg hg' => (h ref g' g hg' hg).symm

theorem join_comm (h : Agrees u v) : join u v = join v u := by
  funext ref
  rw [join, join]
  cases hu : u ref with
  | none => rw [Option.none_or, Option.or_none]
  | some g =>
    cases hv : v ref with
    | none => rfl
    | some g' => rw [h ref g g' hu hv]

theorem join_assoc (u v w : Assignment) : join (join u v) w = join u (join v w) :=
  funext fun _ => Option.or_assoc

theorem agrees_join_iff (h : Agrees u v) : Agrees (join u v) w ↔ Agrees u w ∧ Agrees v w := by
  constructor
  · intro hjoin
    refine ⟨fun ref g g' hg hg' => hjoin ref g g' ?_ hg', fun ref g g' hg hg' => ?_⟩
    · rw [join, hg, Option.some_or]
    · refine hjoin ref g g' ?_ hg'
      cases hu : u ref with
      | none => rw [join, hu, Option.none_or, hg]
      | some k => rw [join, hu, Option.some_or, h ref k g hu hg]
  · rintro ⟨hu, hv⟩ ref g g' hg hg'
    rw [join, Option.or_eq_some_iff] at hg
    rcases hg with hg | ⟨-, hg⟩
    · exact hu ref g g' hg hg'
    · exact hv ref g g' hg hg'

open Classical in
/-- The join of two assignments, if they agree. -/
noncomputable def joins (u v : Assignment) : Multiset Assignment :=
  if Agrees u v then {join u v} else 0

theorem joins_of_agrees (h : Agrees u v) : joins u v = {join u v} := if_pos h

theorem joins_of_not_agrees (h : ¬ Agrees u v) : joins u v = 0 := if_neg h

theorem joins_comm (u v : Assignment) : joins u v = joins v u := by
  by_cases h : Agrees u v
  · rw [joins_of_agrees h, joins_of_agrees (agrees_comm.mp h), join_comm h]
  · rw [joins_of_not_agrees h, joins_of_not_agrees (mt agrees_comm.mp h)]

/-- Three assignments that agree in pairs have one join. -/
theorem joins_bind_joins (u v w : Assignment) :
    ((joins u v).bind fun x => joins x w) = (joins v w).bind fun x => joins u x := by
  by_cases huv : Agrees u v <;> by_cases hvw : Agrees v w
  · rw [joins_of_agrees huv, joins_of_agrees hvw, Multiset.singleton_bind, Multiset.singleton_bind]
    have hleft : Agrees (join u v) w ↔ Agrees u w := by
      rw [agrees_join_iff huv, and_iff_left hvw]
    have hright : Agrees u (join v w) ↔ Agrees u w := by
      rw [agrees_comm, agrees_join_iff hvw, agrees_comm, and_iff_right huv, agrees_comm]
    by_cases huw : Agrees u w
    · rw [joins_of_agrees (hleft.mpr huw), joins_of_agrees (hright.mpr huw), join_assoc]
    · rw [joins_of_not_agrees (mt hleft.mp huw), joins_of_not_agrees (mt hright.mp huw)]
  · rw [joins_of_agrees huv, joins_of_not_agrees hvw, Multiset.singleton_bind, Multiset.zero_bind]
    exact joins_of_not_agrees fun h => hvw ((agrees_join_iff huv).mp h).2
  · rw [joins_of_not_agrees huv, joins_of_agrees hvw, Multiset.singleton_bind, Multiset.zero_bind]
    exact (joins_of_not_agrees fun h => huv
      (agrees_comm.mp ((agrees_join_iff hvw).mp (agrees_comm.mp h)).1)).symm
  · rw [joins_of_not_agrees huv, joins_of_not_agrees hvw, Multiset.zero_bind, Multiset.zero_bind]

theorem joins_none (u : Assignment) : joins (fun _ => none) u = {u} :=
  joins_of_agrees fun _ _ _ h => by cases h

end Assignment

/-! ## Alternatives up to definitions and order -/

/-- The assignments of alternatives, each as often as it occurs. -/
@[ext]
structure Meaning where
  assignments : Multiset Assignment

namespace Meaning

open Assignment

/-- Every assignment of the one side is joined with every one of the other side. -/
noncomputable instance : Mul Meaning where
  mul s t := ⟨s.assignments.bind fun u => t.assignments.bind fun v => joins u v⟩

/-- The one alternative that binds nothing. -/
instance : One Meaning where
  one := ⟨{fun _ => none}⟩

theorem assignments_mul (s t : Meaning) :
    (s * t).assignments = s.assignments.bind fun u => t.assignments.bind fun v => joins u v := rfl

theorem assignments_one : (1 : Meaning).assignments = {fun _ => none} := rfl

protected theorem mul_comm (s t : Meaning) : s * t = t * s := by
  ext1
  rw [assignments_mul, assignments_mul, Multiset.bind_bind]
  exact Multiset.bind_congr fun v _ => Multiset.bind_congr fun u _ => joins_comm u v

protected theorem mul_assoc (s t r : Meaning) : s * t * r = s * (t * r) := by
  ext1
  simp only [assignments_mul, Multiset.bind_assoc]
  refine Multiset.bind_congr fun u _ => Multiset.bind_congr fun v _ => ?_
  rw [Multiset.bind_bind]
  exact Multiset.bind_congr fun w _ => joins_bind_joins u v w

protected theorem one_mul (s : Meaning) : 1 * s = s := by
  ext1
  rw [assignments_mul, assignments_one, Multiset.singleton_bind]
  simp only [joins_none]
  exact (Multiset.bind_singleton s.assignments id).trans (Multiset.map_id _)

noncomputable instance : CommMonoid Meaning where
  mul_assoc := Meaning.mul_assoc
  one_mul := Meaning.one_mul
  mul_one s := by rw [Meaning.mul_comm, Meaning.one_mul]
  mul_comm := Meaning.mul_comm

end Meaning

/-! ## What bindings mean -/

namespace Bindings

open Assignment

variable {D : Directory} {a b c : Bindings} {bs cs : List Bindings}

/-- The normal forms of what is bound. -/
def view (D : Directory) (b : Bindings) : Assignment := (b.normal D).get?

theorem view_apply (D : Directory) (b : Bindings) (ref : Ref) :
    b.view D ref = (b.get? ref).map D.normal :=
  get?_normal D b ref

theorem view_union (D : Directory) (a b : Bindings) :
    (a.union b).view D = join (a.view D) (b.view D) := by
  funext ref
  rw [join, view_apply, view_apply, view_apply, get?_union, Option.map_or]

/-- The meaning of a list of alternatives. -/
def meaning (D : Directory) (bs : List Bindings) : Meaning := ⟨(bs.map (view D) : List Assignment)⟩

/-- Every variable is bound once, to a formula whose definitions resolve. -/
structure Proper (D : Directory) (b : Bindings) : Prop where
  distinct : b.Distinct
  resolved : b.Resolved D

theorem Proper.regular (hb : b.Proper D) :
    b.Regular (Formula.Resolved D) fun v => (b.get? v).isSome where
  entry := fun _ he => hb.distinct.get?_eq_some_iff.mpr he
  value := hb.resolved.get?
  binds := Iff.rfl

theorem Distinct.union (ha : a.Distinct) (hb : b.Distinct) : (a.union b).Distinct := by
  have hkeys : (a.union b).entries.map Prod.fst = b.entries.map Prod.fst ++
      (a.entries.filter fun e => (b.get? e.1).isNone).map Prod.fst := by
    rw [Bindings.union, List.map_append, List.map_map]
    rfl
  rw [Distinct, hkeys, List.nodup_append']
  refine ⟨hb, ha.sublist (List.filter_sublist.map _), ?_⟩
  -- of the left side only the variables are taken that the right side does not bind
  intro ref href hnew
  obtain ⟨e, he, rfl⟩ := List.mem_map.mp href
  obtain ⟨e', he', heq⟩ := List.mem_map.mp hnew
  have hnone := (List.mem_filter.mp he').2
  rw [heq, hb.get?_eq_some_iff.mpr he] at hnone
  cases hnone

theorem Proper.union (ha : a.Proper D) (hb : b.Proper D) : (a.union b).Proper D where
  distinct := ha.distinct.union hb.distinct
  resolved := by
    intro e he
    have hunion := ha.regular.union hb.regular
    exact hunion.value (hunion.entry e he)

/-- What agrees up to definitions is what the test for agreement finds. -/
theorem agrees_view_iff (hb : b.Distinct) :
    Agrees (a.view D) (b.view D) ↔
      ∀ e ∈ b.entries, ∀ g, a.get? e.1 = some g → D.normal g = D.normal e.2 := by
  constructor
  · intro h e he g hg
    refine h e.1 _ _ ?_ ?_
    · rw [view_apply, hg, Option.map_some]
    · rw [view_apply, hb.get?_eq_some_iff.mpr he, Option.map_some]
  · intro h ref g g' hg hg'
    rw [view_apply, Option.map_eq_some_iff] at hg hg'
    obtain ⟨f, hf, rfl⟩ := hg
    obtain ⟨f', hf', rfl⟩ := hg'
    exact h (ref, f') (hb.get?_eq_some_iff.mp hf') f hf

/-- **Bindings with one view are alike.** -/
theorem alike_of_view_eq (hD : D.Grounded) (hb : b.Proper D) (hc : c.Proper D)
    (h : b.view D = c.view D) : b.Alike D c where
  bound := by
    intro ref
    have href := congrArg Option.isSome (congrFun h ref)
    rwa [view_apply, view_apply, Option.isSome_map, Option.isSome_map] at href
  compatible := by
    intro ref g g' hg hg'
    have href := congrFun h ref
    rw [view_apply, view_apply, hg, hg', Option.map_some, Option.map_some,
      Option.some.injEq] at href
    exact (hD.compatible_iff (hb.resolved.get? hg) (hc.resolved.get? hg')).mpr href

/-! ## Joining is multiplication -/

/-- Proper alternatives with a meaning. -/
structure Means (D : Directory) (m : Meaning) (bs : List Bindings) : Prop where
  proper : ∀ b ∈ bs, b.Proper D
  meaning_eq : meaning D bs = m

section

variable (hD : D.Grounded)

include hD

/-- Joining two sets of bindings gives the join of their views, if these agree. -/
theorem yields_merge?_view (ha : a.Proper D) (hb : b.Proper D) :
    Yields (a.merge? D b) fun r => (∀ c ∈ r.toList, c.Proper D) ∧
      ((r.toList.map (view D) : List Assignment) : Multiset Assignment) =
        joins (a.view D) (b.view D) := by
  obtain ⟨agree, hagree, hiff⟩ := yields_agreesWith hD (fun h => h) ha.regular hb.resolved
  rw [← agrees_view_iff hb.distinct] at hiff
  rw [merge?, hagree]
  cases agree with
  | true =>
    refine .pure ⟨?_, ?_⟩
    · intro c hc
      rw [List.mem_singleton.mp hc]
      exact ha.union hb
    · rw [joins_of_agrees (hiff.mp rfl), ← view_union]
      rfl
  | false =>
    refine .pure ⟨List.forall_mem_nil _, ?_⟩
    rw [joins_of_not_agrees fun h => Bool.false_ne_true (hiff.mpr h)]
    rfl

theorem yields_mergeEach_view (ha : a.Proper D) (hbs : ∀ b ∈ bs, b.Proper D) :
    Yields (mergeEach D a bs) fun r => (∀ c ∈ r, c.Proper D) ∧
      ((r.map (view D) : List Assignment) : Multiset Assignment) =
        (meaning D bs).assignments.bind fun v => joins (a.view D) v := by
  induction bs with
  | nil => exact .pure ⟨List.forall_mem_nil _, rfl⟩
  | cons b bs ih =>
    rw [List.forall_mem_cons] at hbs
    refine (yields_merge?_view hD ha hbs.1).bind fun joined hjoined => ?_
    refine (ih hbs.2).bind fun more hmore => .pure ⟨?_, ?_⟩
    · exact List.forall_mem_append.mpr ⟨hjoined.1, hmore.1⟩
    · rw [List.map_append, ← Multiset.coe_add, hjoined.2, hmore.2]
      exact (Multiset.cons_bind ..).symm

/-- **Joining alternatives multiplies their meanings.** -/
theorem yields_mergeAll_meaning {m n : Meaning} (hbs : Means D m bs) (hcs : Means D n cs) :
    Yields (mergeAll D bs cs) (Means D (m * n)) := by
  obtain ⟨hproper, rfl⟩ := hbs
  induction bs with
  | nil => exact .pure ⟨List.forall_mem_nil _, rfl⟩
  | cons b bs ih =>
    rw [List.forall_mem_cons] at hproper
    refine (yields_mergeEach_view hD hproper.1 hcs.proper).bind fun joined hjoined => ?_
    refine (ih hproper.2).bind fun more hmore => .pure ⟨?_, ?_⟩
    · exact List.forall_mem_append.mpr ⟨hjoined.1, hmore.proper⟩
    · ext1
      have hmore := congrArg Meaning.assignments hmore.meaning_eq
      rw [Meaning.assignments_mul, ← hcs.meaning_eq] at hmore ⊢
      rw [meaning, List.map_append, ← Multiset.coe_add, hjoined.2]
      rw [show ((more.map (view D) : List Assignment) : Multiset Assignment) = _ from hmore]
      exact (Multiset.cons_bind ..).symm

/-- **Alternatives with one meaning are alike**, one by one and up to order. -/
theorem Means.exists_perm_alike {m : Meaning} (hbs : Means D m bs) (hcs : Means D m cs) :
    ∃ bs', bs'.Perm bs ∧ List.Forall₂ (Alike D) bs' cs := by
  have hperm : (cs.map (view D)).Perm (bs.map (view D)) :=
    Multiset.coe_eq_coe.mp (congrArg Meaning.assignments (hcs.meaning_eq.trans hbs.meaning_eq.symm))
  obtain ⟨bs', hviews, hbs'⟩ : Relation.Comp (· = List.map (view D) ·) (·.Perm ·)
      (cs.map (view D)) bs := by
    rw [List.eq_map_comp_perm]
    exact hperm
  refine ⟨bs', hbs', ?_⟩
  rw [← List.forall₂_eq_eq_eq, List.forall₂_map_left_iff, List.forall₂_map_right_iff] at hviews
  obtain ⟨hlen, hzip⟩ := List.forall₂_iff_zip.mp hviews
  refine List.forall₂_iff_zip.mpr ⟨hlen.symm, fun {b c} hmem => ?_⟩
  obtain ⟨hb, hc⟩ := List.of_mem_zip hmem
  exact alike_of_view_eq hD (hbs.proper b (hbs'.subset hb)) (hcs.proper c hc)
    (hzip (mem_zip_comm.mp hmem)).symm

end

/-! ## Bindings that may be missing -/

/-- Joining two sets of bindings, if both were found. -/
def mergeFound? (D : Directory) : Option Bindings → Option Bindings →
    Except ContractError (Option Bindings)
  | some left, some right => left.merge? D right
  | _, _ => .ok none

/-- A set of bindings that may be missing is a list of at most one alternative. -/
theorem map_toList_mergeFound? (D : Directory) (r s : Option Bindings) :
    (mergeFound? D r s).map Option.toList = mergeAll D r.toList s.toList := by
  cases r with
  | none => rfl
  | some a =>
    cases s with
    | none => rfl
    | some b =>
      rw [Option.toList_some, Option.toList_some, mergeAll, mergeEach, mergeFound?]
      cases a.merge? D b with
      | error e => rfl
      | ok joined => cases joined <;> rfl

theorem Proper.means (hb : b.Proper D) : Means D (meaning D [b]) (some b).toList :=
  ⟨List.forall_mem_singleton.mpr hb, rfl⟩

section

variable (hD : D.Grounded) {m n : Meaning} {r s : Option Bindings}

include hD

theorem yields_mergeFound? (hr : Means D m r.toList) (hs : Means D n s.toList) :
    Yields (mergeFound? D r s) fun t => Means D (m * n) t.toList := by
  obtain ⟨bs, hbs, hmeans⟩ := yields_mergeAll_meaning hD hr hs
  rw [← map_toList_mergeFound?] at hbs
  obtain ⟨t, ht, rfl⟩ := map_eq_ok.mp hbs
  exact ⟨t, ht, hmeans⟩

/-- What means the same is missing on both sides, or alike. -/
theorem Means.rel_alike (hr : Means D m r.toList) (hs : Means D m s.toList) :
    Option.Rel (Alike D) r s := by
  obtain ⟨bs, hperm, halike⟩ := hr.exists_perm_alike hD hs
  have hlen := hperm.length_eq.symm.trans halike.length_eq
  cases r with
  | none =>
    cases s with
    | none => exact .none
    | some c => cases hlen
  | some b =>
    cases s with
    | none => cases hlen
    | some c =>
      rw [Option.toList_some, List.perm_singleton] at hperm
      rw [hperm, Option.toList_some, List.forall₂_cons] at halike
      exact .some halike.1

end

end Bindings

/-! ## Plans -/

/-- Lists of alternatives that are joined two at a time. -/
inductive MergePlan where
  | list (alternatives : List Bindings)
  | join (left right : MergePlan)

namespace MergePlan

/-- The lists, from left to right. -/
def lists : MergePlan → List (List Bindings)
  | .list alternatives => [alternatives]
  | .join left right => left.lists ++ right.lists

/-- The alternatives that are left after joining. -/
def run (D : Directory) : MergePlan → Except ContractError (List Bindings)
  | .list alternatives => .ok alternatives
  | .join left right => do
    let lefts ← left.run D
    let rights ← right.run D
    Bindings.mergeAll D lefts rights

/-- Joining one list after the other to what was joined before. -/
def fold (plan : MergePlan) (others : List (List Bindings)) : MergePlan :=
  others.foldl (fun plan alternatives => .join plan (.list alternatives)) plan

theorem lists_fold (plan : MergePlan) (others : List (List Bindings)) :
    (plan.fold others).lists = plan.lists ++ others := by
  induction others generalizing plan with
  | nil => exact (List.append_nil _).symm
  | cons alternatives others ih =>
    rw [fold, List.foldl_cons]
    exact (ih _).trans (List.append_assoc ..)

theorem run_fold (D : Directory) (plan : MergePlan) (others : List (List Bindings)) :
    (plan.fold others).run D = plan.run D >>= others.foldlM (Bindings.mergeAll D) := by
  induction others generalizing plan with
  | nil => exact (bind_pure _).symm
  | cons alternatives others ih =>
    rw [fold, List.foldl_cons]
    refine (ih _).trans ?_
    rw [run, bind_assoc]
    rfl

open Bindings in
/-- **The meaning of a plan is the product of its lists.** -/
theorem yields_run {D : Directory} (hD : D.Grounded) (plan : MergePlan)
    (hproper : ∀ alternatives ∈ plan.lists, ∀ b ∈ alternatives, b.Proper D) :
    Yields (plan.run D) (Means D (plan.lists.map (meaning D)).prod) := by
  induction plan with
  | list alternatives =>
    rw [lists, List.map_singleton, List.prod_singleton]
    exact .pure ⟨hproper alternatives List.mem_cons_self, rfl⟩
  | join left right ihleft ihright =>
    rw [lists, List.forall_mem_append] at hproper
    rw [lists, List.map_append, List.prod_append]
    refine (ihleft hproper.1).bind fun lefts hlefts => ?_
    exact (ihright hproper.2).bind fun rights hrights => yields_mergeAll_meaning hD hlefts hrights

end MergePlan

namespace Bindings

variable {D : Directory}

/-- Plans for the same lists leave alternatives that are alike up to order. -/
theorem run_alike_of_perm (hD : D.Grounded) {p q : MergePlan}
    (hproper : ∀ alternatives ∈ p.lists, ∀ b ∈ alternatives, b.Proper D)
    (hperm : p.lists.Perm q.lists) :
    ∃ r s, p.run D = .ok r ∧ q.run D = .ok s ∧ r.length = s.length ∧ r.isEmpty = s.isEmpty ∧
      ∃ r', r'.Perm r ∧ List.Forall₂ (Alike D) r' s := by
  obtain ⟨r, hr, hmeans⟩ := p.yields_run hD hproper
  obtain ⟨s, hs, hmeans'⟩ := q.yields_run hD fun alternatives hmem =>
    hproper alternatives (hperm.mem_iff.mpr hmem)
  rw [← (hperm.map (meaning D)).prod_eq] at hmeans'
  obtain ⟨r', hr', halike⟩ := hmeans.exists_perm_alike hD hmeans'
  have hlen : r.length = s.length := hr'.length_eq.symm.trans halike.length_eq
  refine ⟨r, s, hr, hs, hlen, ?_, r', hr', halike⟩
  rw [Bool.eq_iff_iff, List.isEmpty_iff_length_eq_zero, List.isEmpty_iff_length_eq_zero, hlen]

/-- **The order of joining does not matter.**  If every expansion is accepted, and for bindings
whose definitions resolve: joining two sets of bindings succeeds from either side or from neither,
and so does joining three with either brackets, where nothing is joined with what was not found.
The results bind the same variables to compatible formulas.  Lists of alternatives may be joined in
any order and with any brackets, and in particular one after the other: as many alternatives are
left, and they can be put in an order in which they are alike one by one, so that none is left in
either case or in neither. -/
theorem merges_alike (hD : D.ExpansionsAccepted) :
    (∀ a b : Bindings, a.Proper D → b.Proper D →
      ∃ r s, a.merge? D b = .ok r ∧ b.merge? D a = .ok s ∧ Option.Rel (Alike D) r s) ∧
    (∀ a b c : Bindings, a.Proper D → b.Proper D → c.Proper D →
      ∃ r s, (a.merge? D b >>= fun ab => mergeFound? D ab (some c)) = .ok r ∧
        (b.merge? D c >>= fun bc => mergeFound? D (some a) bc) = .ok s ∧
        Option.Rel (Alike D) r s) ∧
    (∀ p q : MergePlan, (∀ alternatives ∈ p.lists, ∀ b ∈ alternatives, b.Proper D) →
      p.lists.Perm q.lists →
      ∃ r s, p.run D = .ok r ∧ q.run D = .ok s ∧ r.length = s.length ∧ r.isEmpty = s.isEmpty ∧
        ∃ r', r'.Perm r ∧ List.Forall₂ (Alike D) r' s) ∧
    ∀ (first first' : List Bindings) (others others' : List (List Bindings)),
      (∀ alternatives ∈ first :: others, ∀ b ∈ alternatives, b.Proper D) →
      (first :: others).Perm (first' :: others') →
      ∃ r s, others.foldlM (mergeAll D) first = .ok r ∧ others'.foldlM (mergeAll D) first' = .ok s ∧
        r.length = s.length ∧ r.isEmpty = s.isEmpty ∧
        ∃ r', r'.Perm r ∧ List.Forall₂ (Alike D) r' s := by
  have hgrounded := hD.grounded
  refine ⟨?_, ?_, ?_, ?_⟩
  · intro a b ha hb
    obtain ⟨r, hr, hmeans⟩ := yields_mergeFound? hgrounded ha.means hb.means
    obtain ⟨s, hs, hmeans'⟩ := yields_mergeFound? hgrounded hb.means ha.means
    rw [mul_comm] at hmeans'
    exact ⟨r, s, hr, hs, hmeans.rel_alike hgrounded hmeans'⟩
  · intro a b c ha hb hc
    obtain ⟨r, hr, hmeans⟩ := (yields_mergeFound? hgrounded ha.means hb.means).bind fun ab hab =>
      yields_mergeFound? hgrounded hab hc.means
    obtain ⟨s, hs, hmeans'⟩ := (yields_mergeFound? hgrounded hb.means hc.means).bind fun bc hbc =>
      yields_mergeFound? hgrounded ha.means hbc
    rw [← mul_assoc] at hmeans'
    exact ⟨r, s, hr, hs, hmeans.rel_alike hgrounded hmeans'⟩
  · intro p q hproper hperm
    exact run_alike_of_perm hgrounded hproper hperm
  · intro first first' others others' hproper hperm
    have h := run_alike_of_perm hgrounded (p := (MergePlan.list first).fold others)
      (q := (MergePlan.list first').fold others')
    rw [MergePlan.lists_fold, MergePlan.lists_fold, MergePlan.run_fold, MergePlan.run_fold] at h
    exact h hproper hperm

end Bindings

namespace Sample

/-- Three lists of alternatives for three variables.  Not all of them agree, and some of those that
do are folded up differently. -/
def alternatives : List (List Bindings) :=
  [[⟨[(0, twice (.var 0))]⟩, ⟨[(0, .var 3)]⟩],
    [⟨[(0, function (function (.var 0))), (1, .var 1)]⟩, ⟨[(1, .var 2)]⟩],
    [⟨[(2, .var 0)]⟩, ⟨[(1, .var 2), (0, .var 3)]⟩]]

theorem proper_of_mem_alternatives : ∀ bs ∈ alternatives, ∀ b ∈ bs, b.Proper layered := by
  have hcheck : ∀ bs ∈ alternatives, ∀ b ∈ bs, (b.entries.map Prod.fst).Nodup ∧
      ∀ e ∈ b.entries, (layered.unfold e.2).toBool = true := by decide
  intro bs hbs b hb
  obtain ⟨hdistinct, hunfold⟩ := hcheck bs hbs b hb
  refine ⟨hdistinct, fun e he => ?_⟩
  have hok := hunfold e he
  cases hg : layered.unfold e.2 with
  | error _ =>
    rw [hg] at hok
    cases hok
  | ok g => exact (Directory.unfolds_of_unfold hg).resolved

/-- Joined from the front and from the back, the lists leave four alternatives each.  The two
results are different, but alike up to order. -/
theorem merges_alike_alternatives :
    layered.ExpansionsAccepted ∧ (∀ bs ∈ alternatives, ∀ b ∈ bs, b.Proper layered) ∧
      ∃ r s, alternatives.tail.foldlM (Bindings.mergeAll layered) alternatives[0] = .ok r ∧
        alternatives.reverse.tail.foldlM (Bindings.mergeAll layered) alternatives[2] = .ok s ∧
        r.length = 4 ∧ s.length = 4 ∧ r ≠ s ∧
        ∃ r', r'.Perm r ∧ List.Forall₂ (Bindings.Alike layered) r' s := by
  obtain ⟨-, -, -, hfold⟩ := Bindings.merges_alike expansionsAccepted_layered
  obtain ⟨r, s, hr, hs, -, -, halike⟩ := hfold alternatives[0] alternatives[2] alternatives.tail
    alternatives.reverse.tail proper_of_mem_alternatives (List.reverse_perm alternatives).symm
  refine ⟨expansionsAccepted_layered, proper_of_mem_alternatives, r, s, hr, hs, ?_, ?_, ?_, halike⟩
  · cases hr
    rfl
  · cases hs
    rfl
  · cases hr
    cases hs
    decide

end Sample

end Deduction
