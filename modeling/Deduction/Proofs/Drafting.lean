import Deduction.Draft
import Mathlib.Data.List.Induction

/-!
# Drafts keep the history of every entry

A draft is written by many small calls, and those that are about one declaration may stand far
apart.  Calls can be refused, and closing the draft may fail halfway and be tried again later.
Nevertheless each entry has a history of its own: the call that added it and, of the calls after
that, those that pass its position.  What the entry has become can be told from these alone.

A draft has seven lists, and a call can do two things to such a list: change the entries that it is
about and add an entry at the end.  `DraftCall.run_eq` says so for all of them, and a `Kind` is a
list of which this is known.  Then the list after any number of calls is found from the entries that
were added, each with the calls after it (`Kind.entries_after`).

* `DraftCall`, `DraftCall.run`, `Draft.after`: calls and what they do.
* `Draft.told`: the draft that the histories of its entries tell.
* `Draft.build_after`: closing a draft after any calls.
-/

namespace Deduction

/-! ## Calls -/

/-- A call to a draft. -/
inductive DraftCall where
  | addSystem (entry : SystemDecl)
  | addType (entry : TypeDecl)
  | addSymbol (entry : SymbolDecl)
  | addDefinition (entry : DefinitionDraft)
  | addAxiom (entry : RuleDraft)
  | addTheorem (entry : RuleDraft)
  | addProof (entry : Proof)
  | setExpansion (ref : Ref) (expansion : Formula)
  | addPremise (rule : RuleRef) (premise : Formula)
  | setAssertion (rule : RuleRef) (assertion : Formula)
  | addStep (proof : Ref) (step : Step)
  | build
  deriving DecidableEq

namespace DraftCall

/-- How a call is answered. -/
inductive Answer where
  | position (ref : Ref)
  | done
  | refused (error : DraftError)
  | built (D : Directory)
  deriving DecidableEq

/-- The answer to an addition is the position of what was added. -/
def added (d : Draft) (add : StateM Draft Nat) : Answer × Draft :=
  (.position (add.run d).1, (add.run d).2)

/-- A change that is refused leaves the draft as it is. -/
def changed (d : Draft) : Except DraftError Draft → Answer × Draft
  | .ok d => (.done, d)
  | .error error => (.refused error, d)

/-- What a call does, and how it is answered. -/
def run (d : Draft) : DraftCall → Answer × Draft
  | .addSystem entry => added d (Draft.addSystem entry)
  | .addType entry => added d (Draft.addType entry)
  | .addSymbol entry => added d (Draft.addSymbol entry)
  | .addDefinition entry => added d (Draft.addDefinition entry)
  | .addAxiom entry => added d (Draft.addAxiom entry)
  | .addTheorem entry => added d (Draft.addTheorem entry)
  | .addProof entry => added d (Draft.addProof entry)
  | .setExpansion ref expansion => changed d (d.setExpansion ref expansion)
  | .addPremise (.ofAxiom ref) premise => changed d (d.addAxiomPremise ref premise)
  | .addPremise (.ofTheorem ref) premise => changed d (d.addTheoremPremise ref premise)
  | .setAssertion (.ofAxiom ref) assertion => changed d (d.setAxiomAssertion ref assertion)
  | .setAssertion (.ofTheorem ref) assertion => changed d (d.setTheoremAssertion ref assertion)
  | .addStep proof step => changed d (d.addStep proof step)
  | .build =>
    match d.build with
    | .ok D => (.built D, d)
    | .error error => (.refused error, d)

/-- The position that is passed. -/
def ref? : DraftCall → Option Ref
  | .setExpansion ref _ => some ref
  | .addPremise rule _ => some rule.index
  | .setAssertion rule _ => some rule.index
  | .addStep proof _ => some proof
  | _ => none

/-- Whether an entry is added. -/
def isAddition : DraftCall → Bool
  | .setExpansion .. | .addPremise .. | .setAssertion .. | .addStep .. | .build => false
  | _ => true

/-- No position is passed that is counted from the end. -/
def Forward (c : DraftCall) : Prop := ∀ ref ∈ c.ref?, 0 ≤ ref

/-- Every position that is passed was the answer to an earlier call. -/
def Returned (answers : List Answer) (d : Draft) : List DraftCall → Prop
  | [] => True
  | call :: later =>
    (∀ ref ∈ call.ref?, .position ref ∈ answers) ∧
      Returned (answers ++ [(call.run d).1]) (call.run d).2 later

instance decidableReturned (answers : List Answer) (d : Draft) :
    (calls : List DraftCall) → Decidable (Returned answers d calls)
  | [] => .isTrue trivial
  | call :: later =>
    have := decidableReturned (answers ++ [(call.run d).1]) (call.run d).2 later
    inferInstanceAs (Decidable (_ ∧ _))

/-! ## What a call adds -/

/-- The system that is added. -/
def system? : DraftCall → Option SystemDecl
  | .addSystem entry => some entry
  | _ => none

/-- The type that is added. -/
def type? : DraftCall → Option TypeDecl
  | .addType entry => some entry
  | _ => none

/-- The symbol that is added. -/
def symbol? : DraftCall → Option SymbolDecl
  | .addSymbol entry => some entry
  | _ => none

/-- The definition that is added. -/
def definition? : DraftCall → Option DefinitionDraft
  | .addDefinition entry => some entry
  | _ => none

/-- The axiom that is added. -/
def axiom? : DraftCall → Option RuleDraft
  | .addAxiom entry => some entry
  | _ => none

/-- The theorem that is added. -/
def theorem? : DraftCall → Option RuleDraft
  | .addTheorem entry => some entry
  | _ => none

/-- The proof that is added. -/
def proof? : DraftCall → Option Proof
  | .addProof entry => some entry
  | _ => none

/-! ## What a call gives to an entry -/

/-- The expansion that is given to a definition. -/
def expansionOf? (ref : Ref) : DraftCall → Option Formula
  | .setExpansion other expansion => if other = ref then some expansion else none
  | _ => none

/-- The premise that is added to a rule. -/
def premiseOf? (rule : RuleRef) : DraftCall → Option Formula
  | .addPremise other premise => if other = rule then some premise else none
  | _ => none

/-- The assertion that is given to a rule. -/
def assertionOf? (rule : RuleRef) : DraftCall → Option Formula
  | .setAssertion other assertion => if other = rule then some assertion else none
  | _ => none

/-- The step that is added to a proof. -/
def stepOf? (ref : Ref) : DraftCall → Option Step
  | .addStep other step => if other = ref then some step else none
  | _ => none

end DraftCall

open DraftCall
open Json (word)

/-- What becomes of a definition: the last expansion counts. -/
def DefinitionDraft.since (ref : Ref) (later : List DraftCall) (e : DefinitionDraft) :
    DefinitionDraft :=
  { e with expansion := (e.expansion.toList ++ later.filterMap (expansionOf? ref)).getLast? }

/-- What becomes of a rule: premises are added, and the last assertion counts. -/
def RuleDraft.since (rule : RuleRef) (later : List DraftCall) (e : RuleDraft) : RuleDraft :=
  { e with
    premises := e.premises ++ later.filterMap (premiseOf? rule)
    assertion := (e.assertion.toList ++ later.filterMap (assertionOf? rule)).getLast? }

/-- What becomes of a proof: steps are added. -/
def Proof.since (ref : Ref) (later : List DraftCall) (p : Proof) : Proof :=
  { p with steps := p.steps ++ later.filterMap (stepOf? ref) }

theorem getLast?_toList {α : Type} (o : Option α) : o.toList.getLast? = o := by
  cases o <;> rfl

namespace DefinitionDraft

theorem since_nil (ref : Ref) (e : DefinitionDraft) : e.since ref [] = e := by
  rw [since, List.filterMap_nil, List.append_nil, getLast?_toList]

theorem since_append (ref : Ref) (later rest : List DraftCall) (e : DefinitionDraft) :
    e.since ref (later ++ rest) = (e.since ref later).since ref rest := by
  simp only [since, List.filterMap_append, List.getLast?_append, getLast?_toList, Option.or_assoc]

theorem since_of_none {ref : Ref} {c : DraftCall} (h : expansionOf? ref c = none)
    (e : DefinitionDraft) : e.since ref [c] = e := by
  rw [since, List.filterMap_cons_none h]
  exact e.since_nil ref

theorem since_setExpansion (ref other : Ref) (expansion : Formula) (e : DefinitionDraft) :
    e.since ref [setExpansion other expansion] =
      if other = ref then { e with expansion := some expansion } else e := by
  by_cases h : other = ref
  · have hgiven : expansionOf? ref (setExpansion other expansion) = some expansion := if_pos h
    rw [if_pos h, since, List.filterMap_cons_some hgiven, List.filterMap_nil, List.getLast?_concat]
  · have hgiven : expansionOf? ref (setExpansion other expansion) = none := if_neg h
    rw [if_neg h, since_of_none hgiven]

end DefinitionDraft

namespace RuleDraft

theorem since_nil (rule : RuleRef) (e : RuleDraft) : e.since rule [] = e := by
  rw [since, List.filterMap_nil, List.filterMap_nil, List.append_nil, List.append_nil,
    getLast?_toList]

theorem since_append (rule : RuleRef) (later rest : List DraftCall) (e : RuleDraft) :
    e.since rule (later ++ rest) = (e.since rule later).since rule rest := by
  simp only [since, List.filterMap_append, List.getLast?_append, getLast?_toList, Option.or_assoc,
    List.append_assoc]

theorem since_of_none {rule : RuleRef} {c : DraftCall} (hpremise : premiseOf? rule c = none)
    (hassertion : assertionOf? rule c = none) (e : RuleDraft) : e.since rule [c] = e := by
  rw [since, List.filterMap_cons_none hpremise, List.filterMap_cons_none hassertion]
  exact e.since_nil rule

theorem since_addPremise (rule other : RuleRef) (premise : Formula) (e : RuleDraft) :
    e.since rule [addPremise other premise] =
      if other = rule then { e with premises := e.premises ++ [premise] } else e := by
  by_cases h : other = rule
  · have hgiven : premiseOf? rule (addPremise other premise) = some premise := if_pos h
    rw [if_pos h, since, List.filterMap_cons_some hgiven, List.filterMap_cons_none rfl,
      List.filterMap_nil, List.filterMap_nil, List.append_nil, getLast?_toList]
  · have hgiven : premiseOf? rule (addPremise other premise) = none := if_neg h
    rw [if_neg h, since_of_none hgiven rfl]

theorem since_setAssertion (rule other : RuleRef) (assertion : Formula) (e : RuleDraft) :
    e.since rule [setAssertion other assertion] =
      if other = rule then { e with assertion := some assertion } else e := by
  by_cases h : other = rule
  · have hgiven : assertionOf? rule (setAssertion other assertion) = some assertion := if_pos h
    rw [if_pos h, since, List.filterMap_cons_none rfl, List.filterMap_cons_some hgiven,
      List.filterMap_nil, List.filterMap_nil, List.append_nil, List.getLast?_concat]
  · have hgiven : assertionOf? rule (setAssertion other assertion) = none := if_neg h
    rw [if_neg h, since_of_none rfl hgiven]

end RuleDraft

namespace Proof

theorem since_nil (ref : Ref) (p : Proof) : p.since ref [] = p := by
  rw [since, List.filterMap_nil, List.append_nil]

theorem since_append (ref : Ref) (later rest : List DraftCall) (p : Proof) :
    p.since ref (later ++ rest) = (p.since ref later).since ref rest := by
  simp only [since, List.filterMap_append, List.append_assoc]

theorem since_of_none {ref : Ref} {c : DraftCall} (h : stepOf? ref c = none) (p : Proof) :
    p.since ref [c] = p := by
  rw [since, List.filterMap_cons_none h]
  exact p.since_nil ref

theorem since_addStep (ref other : Ref) (step : Step) (p : Proof) :
    p.since ref [addStep other step] =
      if other = ref then { p with steps := p.steps ++ [step] } else p := by
  by_cases h : other = ref
  · have hgiven : stepOf? ref (addStep other step) = some step := if_pos h
    rw [if_pos h, since, List.filterMap_cons_some hgiven, List.filterMap_nil]
  · have hgiven : stepOf? ref (addStep other step) = none := if_neg h
    rw [if_neg h, since_of_none hgiven]

end Proof

/-! ## One call -/

theorem mapIdx_eq_self {α : Type} {f : Nat → α → α} (h : ∀ n a, f n a = a) (as : List α) :
    as.mapIdx f = as := by
  refine List.ext_getElem? fun n => ?_
  rw [List.getElem?_mapIdx, funext (h n), Option.map_id']

/-- A change reaches the entry at its position, and no entry if there is none. -/
theorem snd_changed {α : Type} {d : Draft} {ref : Ref} (href : 0 ≤ ref) (change : α → α)
    (entries : List α) (put : List α → Draft) (hput : put entries = d) :
    (changed d (modifyAt change ref entries >>= fun entries => pure (put entries))).2 =
      put (entries.mapIdx fun n e => if ref = n then change e else e) := by
  obtain ⟨place, rfl⟩ := Int.eq_ofNat_of_zero_le href
  have hmodify : (entries.mapIdx fun n e => if (place : Int) = n then change e else e) =
      entries.modify place change := by
    refine List.ext_getElem? fun n => ?_
    rw [List.getElem?_mapIdx, List.getElem?_modify]
    simp only [Int.natCast_inj]
    rfl
  rw [hmodify, modifyAt]
  by_cases hplace : place < entries.length
  · rw [placeIn?_ofNat hplace]
    rfl
  · have hnone : placeIn? entries.length place = none := by
      have hfront : ¬ (place : Int) < 0 := by omega
      have hbeyond : ¬ (0 ≤ (place : Int) ∧ (place : Int) < entries.length) := by omega
      simp only [placeIn?, if_neg hfront, if_neg hbeyond]
    rw [hnone, List.modify_eq_self (Nat.le_of_not_lt hplace), hput]
    rfl

namespace DraftCall

/-- Closing leaves the draft as it is, whether it succeeds or fails. -/
theorem snd_run_build (d : Draft) : (build.run d).2 = d := by
  rw [run]
  split <;> rfl

/-- **What a call does to a draft**: each entry becomes what it is after this call, and what is
added comes last. -/
theorem run_eq (d : Draft) {c : DraftCall} (hc : c.Forward) :
    (c.run d).2 =
      { systems := d.systems ++ c.system?.toList
        types := d.types ++ c.type?.toList
        symbols := d.symbols ++ c.symbol?.toList
        definitions := (d.definitions.mapIdx fun n e => e.since n [c]) ++ c.definition?.toList
        axioms := (d.axioms.mapIdx fun n e => e.since (.ofAxiom n) [c]) ++ c.axiom?.toList
        theorems := (d.theorems.mapIdx fun n e => e.since (.ofTheorem n) [c]) ++ c.theorem?.toList
        proofs := (d.proofs.mapIdx fun n e => e.since n [c]) ++ c.proof?.toList } := by
  -- the entries of a list are left alone by every call that gives them nothing
  have hdefinitions (h : ∀ ref, expansionOf? ref c = none) :
      (d.definitions.mapIdx fun n e => e.since n [c]) = d.definitions :=
    mapIdx_eq_self (fun n => DefinitionDraft.since_of_none (h n)) _
  have hrules (rule : Ref → RuleRef) (hpremise : ∀ ref, premiseOf? (rule ref) c = none)
      (hassertion : ∀ ref, assertionOf? (rule ref) c = none) (es : List RuleDraft) :
      (es.mapIdx fun n e => e.since (rule n) [c]) = es :=
    mapIdx_eq_self (fun n => RuleDraft.since_of_none (hpremise n) (hassertion n)) _
  have hproofs (h : ∀ ref, stepOf? ref c = none) :
      (d.proofs.mapIdx fun n e => e.since n [c]) = d.proofs :=
    mapIdx_eq_self (fun n => Proof.since_of_none (h n)) _
  cases c <;>
    simp only [system?, type?, symbol?, definition?, axiom?, theorem?, proof?, Option.toList_none,
      List.append_nil]
  case addSystem | addType | addSymbol | addDefinition | addAxiom | addTheorem | addProof =>
    rw [hdefinitions fun _ => rfl, hrules .ofAxiom (fun _ => rfl) fun _ => rfl,
      hrules .ofTheorem (fun _ => rfl) fun _ => rfl, hproofs fun _ => rfl]
    rfl
  case setExpansion ref expansion =>
    rw [hrules .ofAxiom (fun _ => rfl) fun _ => rfl, hrules .ofTheorem (fun _ => rfl) fun _ => rfl,
      hproofs fun _ => rfl]
    simp only [DefinitionDraft.since_setExpansion]
    exact snd_changed (hc ref rfl) _ d.definitions (fun definitions => { d with definitions }) rfl
  case addPremise rule premise =>
    rw [hdefinitions fun _ => rfl, hproofs fun _ => rfl]
    cases rule with
    | ofAxiom ref =>
      rw [hrules .ofTheorem (fun _ => rfl) fun _ => rfl]
      simp only [RuleDraft.since_addPremise, RuleRef.ofAxiom.injEq]
      exact snd_changed (hc ref rfl) _ d.axioms (fun axioms => { d with axioms }) rfl
    | ofTheorem ref =>
      rw [hrules .ofAxiom (fun _ => rfl) fun _ => rfl]
      simp only [RuleDraft.since_addPremise, RuleRef.ofTheorem.injEq]
      exact snd_changed (hc ref rfl) _ d.theorems (fun theorems => { d with theorems }) rfl
  case setAssertion rule assertion =>
    rw [hdefinitions fun _ => rfl, hproofs fun _ => rfl]
    cases rule with
    | ofAxiom ref =>
      rw [hrules .ofTheorem (fun _ => rfl) fun _ => rfl]
      simp only [RuleDraft.since_setAssertion, RuleRef.ofAxiom.injEq]
      exact snd_changed (hc ref rfl) _ d.axioms (fun axioms => { d with axioms }) rfl
    | ofTheorem ref =>
      rw [hrules .ofAxiom (fun _ => rfl) fun _ => rfl]
      simp only [RuleDraft.since_setAssertion, RuleRef.ofTheorem.injEq]
      exact snd_changed (hc ref rfl) _ d.theorems (fun theorems => { d with theorems }) rfl
  case addStep ref step =>
    rw [hdefinitions fun _ => rfl, hrules .ofAxiom (fun _ => rfl) fun _ => rfl,
      hrules .ofTheorem (fun _ => rfl) fun _ => rfl]
    simp only [Proof.since_addStep]
    exact snd_changed (hc ref rfl) _ d.proofs (fun proofs => { d with proofs }) rfl
  case build =>
    rw [hdefinitions fun _ => rfl, hrules .ofAxiom (fun _ => rfl) fun _ => rfl,
      hrules .ofTheorem (fun _ => rfl) fun _ => rfl, hproofs fun _ => rfl, snd_run_build]

theorem fst_changed_ne (d : Draft) (result : Except DraftError Draft) (ref : Ref) :
    (changed d result).1 ≠ .position ref := by
  intro h
  cases result <;> cases h

theorem nonneg_of_position {d : Draft} {c : DraftCall} {ref : Ref}
    (h : (c.run d).1 = .position ref) : 0 ≤ ref := by
  cases c with
  | addSystem | addType | addSymbol | addDefinition | addAxiom | addTheorem | addProof =>
    cases h
    exact Int.natCast_nonneg _
  | setExpansion | addStep => exact absurd h (fst_changed_ne d _ ref)
  | addPremise rule | setAssertion rule =>
    cases rule <;> exact absurd h (fst_changed_ne d _ ref)
  | build =>
    rw [run] at h
    split at h <;> cases h

/-- If every position that is passed was answered then none is counted from the end. -/
theorem Returned.forward {answers : List Answer} {d : Draft} {calls : List DraftCall}
    (h : Returned answers d calls) (hanswers : ∀ ref, .position ref ∈ answers → 0 ≤ ref) :
    ∀ c ∈ calls, c.Forward := by
  induction calls generalizing answers d with
  | nil => exact List.forall_mem_nil _
  | cons c calls ih =>
    rw [List.forall_mem_cons]
    refine ⟨fun ref href => hanswers ref (h.1 ref href), ih h.2 fun ref href => ?_⟩
    rcases List.mem_append.mp href with href | href
    · exact hanswers ref href
    · exact nonneg_of_position (List.mem_singleton.mp href).symm

end DraftCall

/-! ## All calls -/

/-- The draft after some calls. -/
def Draft.after (calls : List DraftCall) : Draft := calls.foldl (fun d c => (c.run d).2) {}

/-- One of the lists of a draft: what is added to it, and what becomes of its entries. -/
structure Kind (α : Type) where
  entries : Draft → List α
  added? : DraftCall → Option α
  since : Nat → List DraftCall → α → α
  entries_empty : entries {} = []
  since_nil : ∀ n e, since n [] e = e
  since_append : ∀ n later rest e, since n (later ++ rest) e = since n rest (since n later e)
  /-- What a call does to the list. -/
  entries_run : ∀ d c, c.Forward →
    entries (c.run d).2 = (entries d).mapIdx (fun n e => since n [c] e) ++ (added? c).toList

namespace Kind

variable {α : Type} (K : Kind α)

/-- What is added, each with the calls after it. -/
def added : List DraftCall → List (α × List DraftCall)
  | [] => []
  | c :: later => (K.added? c).toList.map (·, later) ++ added later

/-- The list that the histories of its entries tell. -/
def told (calls : List DraftCall) : List α :=
  (K.added calls).mapIdx fun n history => K.since n history.2 history.1

theorem added_append (calls rest : List DraftCall) :
    K.added (calls ++ rest) =
      (K.added calls).map (fun history => (history.1, history.2 ++ rest)) ++ K.added rest := by
  induction calls with
  | nil => rfl
  | cons c calls ih =>
    rw [List.cons_append, added, ih, added, List.map_append, List.map_map, List.append_assoc]
    rfl

theorem told_concat (calls : List DraftCall) (c : DraftCall) :
    K.told (calls ++ [c]) =
      (K.told calls).mapIdx (fun n e => K.since n [c] e) ++ (K.added? c).toList := by
  rw [told, added_append, List.mapIdx_append]
  congr 1
  · refine List.ext_getElem? fun n => ?_
    simp only [told, List.getElem?_mapIdx, List.getElem?_map, Option.map_map, Function.comp_def,
      K.since_append]
  · rw [added, added, List.append_nil]
    cases K.added? c with
    | none => rfl
    | some e => exact congrArg (fun e => [e]) (K.since_nil _ e)

/-- **After any calls** a list has the entries that their histories tell. -/
theorem entries_after {calls : List DraftCall} (h : ∀ c ∈ calls, c.Forward) :
    K.entries (Draft.after calls) = K.told calls := by
  induction calls using List.reverseRecOn with
  | nil => exact K.entries_empty
  | append_singleton calls c ih =>
    rw [List.forall_mem_append, List.forall_mem_singleton] at h
    rw [Draft.after, List.foldl_append, List.foldl_cons, List.foldl_nil, told_concat, ← ih h.1]
    exact K.entries_run _ c h.2

/-- What was added stands in the place that was answered, and has become what its later calls made
of it. -/
theorem getElem?_after {before later : List DraftCall} {c : DraftCall} {e : α}
    (h : ∀ c' ∈ before ++ c :: later, c'.Forward) (he : K.added? c = some e) :
    (K.entries (Draft.after (before ++ c :: later)))[(K.entries (Draft.after before)).length]? =
      some (K.since (K.entries (Draft.after before)).length later e) := by
  have hlength : (K.entries (Draft.after before)).length = (K.added before).length := by
    rw [K.entries_after fun c' hc' => h c' (List.mem_append_left _ hc'), told, List.length_mapIdx]
  rw [K.entries_after h, told, List.getElem?_mapIdx, added_append, hlength,
    List.getElem?_append_right (Nat.le_of_eq (List.length_map _)), List.length_map, Nat.sub_self,
    added, he]
  rfl

/-- A list whose entries never change. -/
def fixed (entries : Draft → List α) (added? : DraftCall → Option α) (hempty : entries {} = [])
    (hrun : ∀ d c, c.Forward → entries (c.run d).2 = entries d ++ (added? c).toList) :
    Kind α where
  entries := entries
  added? := added?
  since _ _ e := e
  entries_empty := hempty
  since_nil _ _ := rfl
  since_append _ _ _ _ := rfl
  entries_run d c hc := by rw [hrun d c hc, mapIdx_eq_self fun _ _ => rfl]

/-- The systems of a draft. -/
def systems : Kind SystemDecl :=
  fixed Draft.systems system? rfl fun d _ hc => by rw [run_eq d hc]

/-- The types of a draft. -/
def types : Kind TypeDecl :=
  fixed Draft.types type? rfl fun d _ hc => by rw [run_eq d hc]

/-- The symbols of a draft. -/
def symbols : Kind SymbolDecl :=
  fixed Draft.symbols symbol? rfl fun d _ hc => by rw [run_eq d hc]

/-- The definitions of a draft. -/
def definitions : Kind DefinitionDraft where
  entries := Draft.definitions
  added? := definition?
  since n later e := e.since n later
  entries_empty := rfl
  since_nil n := DefinitionDraft.since_nil n
  since_append n := DefinitionDraft.since_append n
  entries_run d c hc := by rw [run_eq d hc]

/-- The axioms of a draft. -/
def axioms : Kind RuleDraft where
  entries := Draft.axioms
  added? := axiom?
  since n later e := e.since (.ofAxiom n) later
  entries_empty := rfl
  since_nil n := RuleDraft.since_nil (.ofAxiom n)
  since_append n := RuleDraft.since_append (.ofAxiom n)
  entries_run d c hc := by rw [run_eq d hc]

/-- The theorems of a draft. -/
def theorems : Kind RuleDraft where
  entries := Draft.theorems
  added? := theorem?
  since n later e := e.since (.ofTheorem n) later
  entries_empty := rfl
  since_nil n := RuleDraft.since_nil (.ofTheorem n)
  since_append n := RuleDraft.since_append (.ofTheorem n)
  entries_run d c hc := by rw [run_eq d hc]

/-- The proofs of a draft. -/
def proofs : Kind Proof where
  entries := Draft.proofs
  added? := proof?
  since n later e := e.since n later
  entries_empty := rfl
  since_nil n := Proof.since_nil n
  since_append n := Proof.since_append n
  entries_run d c hc := by rw [run_eq d hc]

end Kind

/-! ## Closing -/

namespace DefinitionDraft

/-- Why a definition cannot be closed. -/
def missing? (e : DefinitionDraft) : Option DraftError :=
  if e.expansion = none then some (.noExpansion e.id) else none

theorem close_eq_error_iff {e : DefinitionDraft} {error : DraftError} :
    e.close = .error error ↔ e.missing? = some error := by
  rw [close, missing?]
  cases e.expansion <;> simp

theorem exists_of_close {e : DefinitionDraft} {closed : Definition} (h : e.close = .ok closed) :
    ∃ expansion, e.expansion = some expansion ∧ closed = ⟨e.id, e.system, e.inputs, expansion⟩ := by
  rw [close] at h
  split at h
  · cases h
  · next expansion hexpansion =>
    cases h
    exact ⟨expansion, hexpansion, rfl⟩

end DefinitionDraft

namespace RuleDraft

/-- Why a rule cannot be closed. -/
def missing? (e : RuleDraft) : Option DraftError :=
  if e.assertion = none then some (.noAssertion e.id) else none

theorem close_eq_error_iff {e : RuleDraft} {error : DraftError} :
    e.close = .error error ↔ e.missing? = some error := by
  rw [close, missing?]
  cases e.assertion <;> simp

theorem exists_of_close {e : RuleDraft} {closed : Rule} (h : e.close = .ok closed) :
    ∃ assertion, e.assertion = some assertion ∧
      closed = ⟨e.id, e.system, e.scope, e.premises, assertion, e.flags⟩ := by
  rw [close] at h
  split at h
  · cases h
  · next assertion hassertion =>
    cases h
    exact ⟨assertion, hassertion, rfl⟩

end RuleDraft

/-- A list is closed entry by entry, and the first entry that cannot be closed is the cause why the
list cannot. -/
theorem closeAll_cases {α β : Type} {close : α → Except DraftError β}
    {missing? : α → Option DraftError}
    (hclose : ∀ {e error}, close e = .error error ↔ missing? e = some error) (es : List α) :
    (∃ closed, closeAll close es = .ok closed ∧ es.filterMap missing? = [] ∧
        ∀ (n : Nat) e, es[n]? = some e → ∃ c, closed[n]? = some c ∧ close e = .ok c) ∨
      ∃ error rest, closeAll close es = .error error ∧ es.filterMap missing? = error :: rest := by
  induction es with
  | nil =>
    refine Or.inl ⟨[], rfl, rfl, fun n e he => ?_⟩
    cases he
  | cons e es ih =>
    cases hclosed : close e with
    | error error =>
      refine Or.inr ⟨error, es.filterMap missing?, ?_, List.filterMap_cons_some (hclose.mp hclosed)⟩
      rw [closeAll, hclosed]
      rfl
    | ok c =>
      have hnone : missing? e = none := by
        by_contra hsome
        obtain ⟨error, herror⟩ := Option.ne_none_iff_exists'.mp hsome
        rw [hclose.mpr herror] at hclosed
        cases hclosed
      rw [closeAll, hclosed, List.filterMap_cons_none hnone]
      rcases ih with ⟨closed, hall, hmissing, hentries⟩ | ⟨error, rest, hall, hmissing⟩
      · refine Or.inl ⟨c :: closed, by rw [hall]; rfl, hmissing, fun n e' he' => ?_⟩
        cases n with
        | zero =>
          cases he'
          exact ⟨c, rfl, hclosed⟩
        | succ n => exact hentries n e' he'
      · exact Or.inr ⟨error, rest, by rw [hall]; rfl, hmissing⟩

namespace Draft

/-- The draft that the histories of its entries tell. -/
def told (calls : List DraftCall) : Draft where
  systems := Kind.systems.told calls
  types := Kind.types.told calls
  symbols := Kind.symbols.told calls
  definitions := Kind.definitions.told calls
  axioms := Kind.axioms.told calls
  theorems := Kind.theorems.told calls
  proofs := Kind.proofs.told calls

theorem after_eq_told {calls : List DraftCall} (h : ∀ c ∈ calls, c.Forward) :
    after calls = told calls := by
  rw [told, ← Kind.systems.entries_after h, ← Kind.types.entries_after h,
    ← Kind.symbols.entries_after h, ← Kind.definitions.entries_after h,
    ← Kind.axioms.entries_after h, ← Kind.theorems.entries_after h, ← Kind.proofs.entries_after h]
  rfl

/-- All that is missing, in the order in which a draft is closed. -/
def missing (d : Draft) : List DraftError :=
  d.definitions.filterMap DefinitionDraft.missing? ++
    (d.axioms.filterMap RuleDraft.missing? ++ d.theorems.filterMap RuleDraft.missing?)

/-- The directory has each entry of the draft, closed. -/
structure ClosedAs (d : Draft) (D : Directory) : Prop where
  systems : D.systems = d.systems
  types : D.types = d.types
  symbols : D.symbols = d.symbols
  definitions : ∀ (n : Nat) e, d.definitions[n]? = some e →
    ∃ c, D.definitions[n]? = some c ∧ e.close = .ok c
  axioms : ∀ (n : Nat) e, d.axioms[n]? = some e → ∃ c, D.axioms[n]? = some c ∧ e.close = .ok c
  theorems : ∀ (n : Nat) e, d.theorems[n]? = some e →
    ∃ c, D.theorems[n]? = some c ∧ e.close = .ok c
  proofs : D.proofs = d.proofs

theorem build_cases (d : Draft) :
    (∃ D, d.build = .ok D ∧ d.missing = [] ∧ d.ClosedAs D) ∨
      ∃ error rest, d.build = .error error ∧ d.missing = error :: rest := by
  rw [build, missing]
  rcases closeAll_cases DefinitionDraft.close_eq_error_iff d.definitions with
    ⟨definitions, hclosed, hmissing, hdefinitions⟩ | ⟨error, rest, hclosed, hmissing⟩ <;>
    rw [hclosed, hmissing]
  · rcases closeAll_cases RuleDraft.close_eq_error_iff d.axioms with
      ⟨axioms, hclosed, hmissing, haxioms⟩ | ⟨error, rest, hclosed, hmissing⟩ <;>
      rw [hclosed, hmissing]
    · rcases closeAll_cases RuleDraft.close_eq_error_iff d.theorems with
        ⟨theorems, hclosed, hmissing, htheorems⟩ | ⟨error, rest, hclosed, hmissing⟩ <;>
        rw [hclosed, hmissing]
      · exact Or.inl ⟨_, rfl, rfl, rfl, rfl, rfl, hdefinitions, haxioms, htheorems, rfl⟩
      · exact Or.inr ⟨error, _, rfl, rfl⟩
    · exact Or.inr ⟨error, _, rfl, rfl⟩
  · exact Or.inr ⟨error, _, rfl, rfl⟩

theorem build_eq_error_iff {d : Draft} {error : DraftError} :
    d.build = .error error ↔ d.missing.head? = some error := by
  rcases d.build_cases with ⟨D, hbuild, hmissing, -⟩ | ⟨cause, rest, hbuild, hmissing⟩
  · rw [hbuild, hmissing]
    simp
  · rw [hbuild, hmissing, List.head?_cons, Except.error.injEq, Option.some.injEq]

theorem closedAs_of_build {d : Draft} {D : Directory} (h : d.build = .ok D) : d.ClosedAs D := by
  rcases d.build_cases with ⟨D', hbuild, -, hclosed⟩ | ⟨cause, rest, hbuild, -⟩ <;>
    rw [hbuild] at h <;> cases h
  exact hclosed

end Draft

/-! ## Records -/

/-- The directory has the rule as it was added, with all premises that were added since and with the
last assertion. -/
def RuleDraft.RecordedIn (D : Directory) (rule : RuleRef) (later : List DraftCall)
    (e : RuleDraft) : Prop :=
  ∃ assertion,
    (e.assertion.toList ++ later.filterMap (assertionOf? rule)).getLast? = some assertion ∧
      D.rule? rule = some
        { id := e.id, system := e.system, scope := e.scope,
          premises := e.premises ++ later.filterMap (premiseOf? rule), assertion, flags := e.flags }

/-- What a call added is found in the directory, with what was given to it since. -/
def DraftCall.RecordedIn (D : Directory) (ref : Ref) (later : List DraftCall) : DraftCall → Prop
  | .addSystem e => D.system? ref = some e
  | .addType e => D.type? ref = some e
  | .addSymbol e => D.symbol? ref = some e
  | .addDefinition e => ∃ expansion,
      (e.expansion.toList ++ later.filterMap (expansionOf? ref)).getLast? = some expansion ∧
        D.definition? ref = some ⟨e.id, e.system, e.inputs, expansion⟩
  | .addAxiom e => e.RecordedIn D (.ofAxiom ref) later
  | .addTheorem e => e.RecordedIn D (.ofTheorem ref) later
  | .addProof e => D.proof? ref = some ⟨e.theoremRef, e.steps ++ later.filterMap (stepOf? ref)⟩
  | _ => False

theorem DraftCall.exists_recordedIn {D : Directory} {before later : List DraftCall} {c : DraftCall}
    (h : ∀ c' ∈ before ++ c :: later, c'.Forward)
    (hD : (Draft.after (before ++ c :: later)).ClosedAs D) (hc : c.isAddition) :
    ∃ ref, (c.run (Draft.after before)).1 = .position ref ∧ c.RecordedIn D ref later := by
  cases c with
  | addSystem e =>
    refine ⟨_, rfl, ?_⟩
    rw [RecordedIn, Directory.system?, itemAt?_ofNat, hD.systems]
    exact Kind.systems.getElem?_after h rfl
  | addType e =>
    refine ⟨_, rfl, ?_⟩
    rw [RecordedIn, Directory.type?, itemAt?_ofNat, hD.types]
    exact Kind.types.getElem?_after h rfl
  | addSymbol e =>
    refine ⟨_, rfl, ?_⟩
    rw [RecordedIn, Directory.symbol?, itemAt?_ofNat, hD.symbols]
    exact Kind.symbols.getElem?_after h rfl
  | addDefinition e =>
    obtain ⟨closed, hclosed, hclose⟩ := hD.definitions _ _ (Kind.definitions.getElem?_after h rfl)
    obtain ⟨expansion, hexpansion, rfl⟩ := DefinitionDraft.exists_of_close hclose
    exact ⟨_, rfl, expansion, hexpansion, hclosed⟩
  | addAxiom e =>
    obtain ⟨closed, hclosed, hclose⟩ := hD.axioms _ _ (Kind.axioms.getElem?_after h rfl)
    obtain ⟨assertion, hassertion, rfl⟩ := RuleDraft.exists_of_close hclose
    exact ⟨_, rfl, assertion, hassertion, hclosed⟩
  | addTheorem e =>
    obtain ⟨closed, hclosed, hclose⟩ := hD.theorems _ _ (Kind.theorems.getElem?_after h rfl)
    obtain ⟨assertion, hassertion, rfl⟩ := RuleDraft.exists_of_close hclose
    exact ⟨_, rfl, assertion, hassertion, hclosed⟩
  | addProof e =>
    refine ⟨_, rfl, ?_⟩
    rw [RecordedIn, Directory.proof?, itemAt?_ofNat, hD.proofs]
    exact Kind.proofs.getElem?_after h rfl
  | setExpansion | addPremise | setAssertion | addStep | build => cases hc

theorem Draft.after_filter_ne_build (calls : List DraftCall) :
    after (calls.filter (· ≠ .build)) = after calls := by
  have hstep (d : Draft) (c : DraftCall) :
      (if decide (c ≠ .build) = true then (c.run d).2 else d) = (c.run d).2 := by
    by_cases hc : c = .build
    · subst hc
      rw [if_neg (by decide), snd_run_build]
    · rw [if_pos (decide_eq_true hc)]
  rw [after, List.foldl_filter, after]
  simp only [hstep]

/-- **Closing a draft after any calls**, if every position that they pass was the answer to an
earlier one.  It fails exactly if something is missing in the entries that their histories tell, and
names the first such entry.  Otherwise each entry is found under the position that was answered when
it was added, as it was added and with what was given to that position since.  Having closed the
draft before, or having failed to, makes no difference. -/
theorem Draft.build_after {calls : List DraftCall} (hcalls : Returned [] {} calls) :
    (∀ error, (after calls).build = .error error ↔ (told calls).missing.head? = some error) ∧
      (∀ D, (after calls).build = .ok D → ∀ before c later, calls = before ++ c :: later →
        c.isAddition → ∃ ref, (c.run (after before)).1 = .position ref ∧
          c.RecordedIn D ref later) ∧
      after (calls.filter (· ≠ .build)) = after calls := by
  have hforward := hcalls.forward fun ref href => absurd href List.not_mem_nil
  refine ⟨fun error => ?_, fun D hD before c later hsplit hc => ?_, after_filter_ne_build calls⟩
  · rw [← after_eq_told hforward]
    exact build_eq_error_iff
  · subst hsplit
    exact exists_recordedIn hforward (closedAs_of_build hD) hc

namespace Sample

/-- The draft is closed too early.  Then the calls for two definitions and for an axiom are mixed
with each other and with another attempt. -/
def interleaved : List DraftCall :=
  [.addSystem ⟨word "system"⟩, .addDefinition ⟨word "first", 0, [], none⟩, .build,
    .addAxiom ⟨word "rule", 0, [], [.var 0], none, [.symmetric]⟩,
    .addDefinition ⟨word "second", 0, [], some (.var 1)⟩, .setExpansion 1 (.var 2),
    .setExpansion 0 (.var 3), .addPremise (.ofAxiom 0) (.var 4),
    .setAssertion (.ofAxiom 0) (.var 5), .build, .addPremise (.ofAxiom 0) (.var 6),
    .setExpansion 0 (.var 7), .addProof ⟨0, []⟩, .addStep 0 ⟨.definition, .var 8⟩]

/-- Closing fails after two calls, because of the first definition, and in the end succeeds. -/
theorem build_after_interleaved :
    Returned [] {} (interleaved.take 2) ∧
      (Draft.after (interleaved.take 2)).build = .error (.noExpansion (word "first")) ∧
      Returned [] {} interleaved ∧
      ∃ D, (Draft.after interleaved).build = .ok D ∧
        D.definition? 0 = some ⟨word "first", 0, [], .var 7⟩ ∧
        D.rule? (.ofAxiom 0) =
          some ⟨word "rule", 0, [], [.var 0, .var 4, .var 6], .var 5, [.symmetric]⟩ := by
  have hearly : Returned [] {} (interleaved.take 2) := by decide
  have hall : Returned [] {} interleaved := by decide
  obtain ⟨D, hD⟩ : ∃ D, (Draft.after interleaved).build = .ok D := ⟨_, rfl⟩
  have hrecorded := (Draft.build_after hall).2.1 D hD
  obtain ⟨_, hfirst, expansion, hexpansion, hdefinition⟩ :=
    hrecorded (interleaved.take 1) (.addDefinition _) (interleaved.drop 2) rfl rfl
  obtain ⟨_, hposition, assertion, hassertion, hrule⟩ :=
    hrecorded (interleaved.take 3) (.addAxiom _) (interleaved.drop 4) rfl rfl
  cases hfirst
  cases hexpansion
  cases hposition
  cases hassertion
  exact ⟨hearly, ((Draft.build_after hearly).1 _).mpr rfl, hall, D, hD, hdefinition, hrule⟩

end Sample

end Deduction
