import Deduction.Proofs.Checking
import Deduction.Proofs.Registration
import Mathlib.Logic.Equiv.Defs

/-!
# Rules under other references

Rules are known to proofs, to the registry and to synthesized steps by their references only.  If
axioms and theorems are given other references, and every citation of them is changed accordingly,
then everything is found where it was found before, and the second phase does the same work: it
reports the same errors, and it synthesizes the same chains, up to the references in them.

A `Renaming` is a permutation of the references to axioms and one of those to theorems.  What two
directories have to do with each other when one is the other with its rules renamed is said by
`Directory.RenamedTo`, without saying where the rules stand.  This is all that is used here.

Formulas have no references to rules in them, so matching is not affected at all.  The parts of the
checker that can stop on broken contracts are compared only where they do not stop (`Simulates`),
which is always the case in a verified directory.

* `Renaming`, `Directory.RenamedTo`, `Laws.RenamedTo`: what is renamed.
* `Laws.Alike.prove`, `Laws.Alike.synthesizeSubstitution`: synthesis.
* `Laws.RenamedTo.checkProofs`: the second phase.
-/

namespace Deduction

/-! ## Renaming -/

/-- Another reference for every axiom and for every theorem. -/
structure Renaming where
  axioms : Equiv.Perm Ref
  theorems : Equiv.Perm Ref

namespace Renaming

/-- Everything stays what it is. -/
def refl : Renaming := ⟨Equiv.refl Ref, Equiv.refl Ref⟩

variable (ρ : Renaming)

/-- The way back. -/
def symm : Renaming := ⟨ρ.axioms.symm, ρ.theorems.symm⟩

/-- The reference of a rule. -/
def rule : RuleRef → RuleRef
  | .ofAxiom ref => .ofAxiom (ρ.axioms ref)
  | .ofTheorem ref => .ofTheorem (ρ.theorems ref)

/-- A justification, which may cite a rule. -/
def justification : Justification → Justification
  | .rule ref => .rule (ρ.rule ref)
  | .hypothesis index => .hypothesis index
  | .definition => .definition
  | .functionApplication => .functionApplication
  | .substitution => .substitution

/-- A step. -/
def step (s : Step) : Step := { s with justification := ρ.justification s.justification }

/-- A proof: the theorem it proves and the rules it cites. -/
def proof (p : Proof) : Proof := ⟨ρ.theorems p.theoremRef, p.steps.map ρ.step⟩

/-- The synthesized steps of a proof. -/
def chains (cs : Chains) : Chains := cs.map (Prod.map id (List.map ρ.step))

/-- The synthesized steps of all proofs. -/
def allChains (table : List (Ref × Chains)) : List (Ref × Chains) :=
  table.map (Prod.map id ρ.chains)

@[simp] theorem symm_rule_rule (ref : RuleRef) : ρ.symm.rule (ρ.rule ref) = ref := by
  cases ref with
  | ofAxiom ref => exact congrArg RuleRef.ofAxiom (ρ.axioms.symm_apply_apply ref)
  | ofTheorem ref => exact congrArg RuleRef.ofTheorem (ρ.theorems.symm_apply_apply ref)

@[simp] theorem rule_symm_rule (ref : RuleRef) : ρ.rule (ρ.symm.rule ref) = ref :=
  ρ.symm.symm_rule_rule ref

theorem rule_injective : Function.Injective ρ.rule :=
  Function.LeftInverse.injective ρ.symm_rule_rule

@[simp] theorem symm_step_step (s : Step) : ρ.symm.step (ρ.step s) = s := by
  obtain ⟨justification, f⟩ := s
  cases justification with
  | rule ref => simp [step, Renaming.justification]
  | hypothesis | definition | functionApplication | substitution => rfl

@[simp] theorem symm_proof_proof (p : Proof) : ρ.symm.proof (ρ.proof p) = p := by
  obtain ⟨ref, steps⟩ := p
  have hsteps : (steps.map ρ.step).map ρ.symm.step = steps := by
    rw [List.map_map]
    exact List.map_id'' ρ.symm_step_step steps
  simp only [proof, hsteps]
  exact congrArg (Proof.mk · steps) (ρ.theorems.symm_apply_apply ref)

theorem refl_rule : refl.rule = id := by
  funext ref
  cases ref <;> rfl

theorem refl_step : refl.step = id := by
  funext s
  obtain ⟨justification, f⟩ := s
  cases justification with
  | rule ref => exact congrArg (fun ref => Step.mk (.rule ref) f) (congrFun refl_rule ref)
  | hypothesis | definition | functionApplication | substitution => rfl

@[simp] theorem formula_step (s : Step) : (ρ.step s).formula = s.formula := rfl

@[simp] theorem map_formula_step (steps : List Step) :
    (steps.map ρ.step).map Step.formula = steps.map Step.formula := by
  rw [List.map_map]
  rfl

end Renaming

/-- A directory with its rules under other references: everything else is the same, each rule is
found under its new reference, and the proofs cite it by that. -/
structure Directory.RenamedTo (ρ : Renaming) (D D' : Directory) : Prop where
  systems : D'.systems = D.systems
  types : D'.types = D.types
  symbols : D'.symbols = D.symbols
  definitions : D'.definitions = D.definitions
  rule? : ∀ ref, D'.rule? (ρ.rule ref) = D.rule? ref
  proofs : D'.proofs = D.proofs.map ρ.proof

theorem Directory.RenamedTo.symm {ρ : Renaming} {D D' : Directory} (h : D.RenamedTo ρ D') :
    D'.RenamedTo ρ.symm D where
  systems := h.systems.symm
  types := h.types.symm
  symbols := h.symbols.symm
  definitions := h.definitions.symm
  rule? := by
    intro ref
    rw [← h.rule?, ρ.rule_symm_rule]
  proofs := by
    rw [h.proofs, List.map_map]
    exact (List.map_id'' ρ.symm_proof_proof D.proofs).symm

/-- The same of a directory with its registry. -/
structure Laws.RenamedTo (ρ : Renaming) (laws laws' : Laws) : Prop where
  directory : laws.directory.RenamedTo ρ laws'.directory
  registry : laws.registry.RenamedTo ρ.rule laws'.registry

/-! ## Matching -/

namespace Bindings

variable {D D' : Directory} (h : D'.definitions = D.definitions)

include h

theorem bind?_congr : bind? D' = bind? D := by
  funext b ref f
  simp only [bind?, Directory.compatible_congr h]

omit h in
theorem extendAll?_congr {xs : List Formula}
    (hxs : ∀ x ∈ xs, ∀ target b, extend? D' x target b = extend? D x target b)
    (ys : List Formula) (b : Bindings) : extendAll? D' xs ys b = extendAll? D xs ys b := by
  induction xs generalizing ys with
  | nil => cases ys <;> rfl
  | cons x xs ih =>
    rw [List.forall_mem_cons] at hxs
    cases ys with
    | nil => rfl
    | cons y ys => simp only [extendAll?, ih hxs.2, hxs.1]

theorem extend?_congr (template target : Formula) (b : Bindings) :
    extend? D' template target b = extend? D template target b := by
  induction template using Formula.inductionOn generalizing target b with
  | symbol ref => rw [extend?, extend?]
  | var ref => rw [extend?, extend?, bind?_congr h]
  | app f x ihf ihx =>
    cases target with
    | app g y => simp only [extend?, ihf, ihx]
    | symbol | var | definition => rfl
  | definition ref xs ih =>
    cases target with
    | definition other ys => rw [extend?, extend?, extendAll?_congr ih]
    | symbol | var | app => rfl

theorem ofMatch?_congr : ofMatch? D' = ofMatch? D :=
  funext fun template => funext fun target => extend?_congr h template target {}

theorem agreesWith_congr (b : Bindings) (entries : List (Ref × Formula)) :
    b.agreesWith D' entries = b.agreesWith D entries := by
  induction entries with
  | nil => rfl
  | cons e entries ih => simp only [agreesWith, Directory.compatible_congr h, ih]

theorem findAll_congr (template : Formula) (candidates : List Formula) :
    findAll D' template candidates = findAll D template candidates := by
  induction candidates with
  | nil => rfl
  | cons candidate candidates ih => simp only [findAll, ofMatch?_congr h, ih]

theorem mergeEach_congr (left : Bindings) (rights : List Bindings) :
    mergeEach D' left rights = mergeEach D left rights := by
  induction rights with
  | nil => rfl
  | cons right rights ih => simp only [mergeEach, merge?, agreesWith_congr h, ih]

theorem mergeAll_congr (lefts rights : List Bindings) :
    mergeAll D' lefts rights = mergeAll D lefts rights := by
  induction lefts with
  | nil => rfl
  | cons left lefts ih => simp only [mergeAll, mergeEach_congr h, ih]

end Bindings

namespace Directory

variable {D D' : Directory} (h : D'.definitions = D.definitions)

include h

theorem matchPremises_congr (facts premises : List Formula) (candidates : List Bindings) :
    D'.matchPremises facts premises candidates = D.matchPremises facts premises candidates := by
  induction premises generalizing candidates with
  | nil => rfl
  | cons premise premises ih =>
    simp only [matchPremises, Bindings.findAll_congr h, Bindings.mergeAll_congr h, ih]

theorem anyCompatible_congr (f : Formula) (facts : List Formula) :
    D'.anyCompatible f facts = D.anyCompatible f facts := by
  induction facts with
  | nil => rfl
  | cons fact facts ih => simp only [anyCompatible, compatible_congr h, ih]

end Directory

/-! ## Synthesis -/

/-- The steps of a chain. -/
def Renaming.chain (ρ : Renaming) (c : Chain) : Chain := { c with steps := c.steps.map ρ.step }

theorem Renaming.emit_chain (ρ : Renaming) (c : Chain) (ref : RuleRef) (f : Formula) :
    (ρ.chain c).emit (ρ.rule ref) f = ρ.chain (c.emit ref f) := by
  simp only [Chain.emit, apply_ite ρ.chain]
  simp only [chain, List.map_append, List.map_cons, List.map_nil]
  rfl

/-- The same laws up to the references, and congruence laws that resolve to the same rules.  This is
all that synthesis looks at. -/
structure Laws.Alike (ρ : Renaming) (laws laws' : Laws) : Prop where
  registry : laws.registry.RenamedTo ρ.rule laws'.registry
  rule? : ∀ {function relation : Head} {law : RuleRef},
    laws.registry.congruence? function relation = some law →
      laws'.directory.rule? (ρ.rule law) = laws.directory.rule? law

theorem Laws.RenamedTo.alike {ρ : Renaming} {laws laws' : Laws} (h : laws.RenamedTo ρ laws') :
    laws.Alike ρ laws' :=
  ⟨h.registry, fun _ => h.directory.rule? _⟩

namespace Laws.Alike

variable {ρ : Renaming} {laws laws' : Laws} (h : laws.Alike ρ laws')

include h

theorem reflexivity? (relation : Head) : laws'.registry.reflexivity? relation =
    (laws.registry.reflexivity? relation).map ρ.rule :=
  h.registry.slot relation .reflexive

theorem symmetry? (relation : Head) : laws'.registry.symmetry? relation =
    (laws.registry.symmetry? relation).map ρ.rule :=
  h.registry.slot relation .symmetric

theorem transitivity? (relation : Head) : laws'.registry.transitivity? relation =
    (laws.registry.transitivity? relation).map ρ.rule :=
  h.registry.slot relation .transitive

theorem congruence? (function relation : Head) : laws'.registry.congruence? function relation =
    (laws.registry.congruence? function relation).map ρ.rule :=
  h.registry.slot function (.congruence relation)

theorem congruenceFor (relation : Head) (left right : Formula) :
    laws'.congruenceFor relation left right =
      ρ.rule <$> laws.congruenceFor relation left right := by
  rw [Laws.congruenceFor, Laws.congruenceFor]
  cases left.spine? with
  | none => rfl
  | some l =>
    cases right.spine? with
    | none => rfl
    | some r =>
      dsimp only
      simp only [h.congruence?]
      split
      · rfl
      · split
        · rfl
        · cases hlaw : laws.registry.congruence? l.1 relation with
          | none => rfl
          | some law =>
            simp only [Option.map_some, h.rule? hlaw]
            cases laws.directory.rule? law with
            | none => rfl
            | some rule =>
              dsimp only
              split <;> rfl

theorem direct? (relation : Head) (left right : Formula) (c : Chain) :
    laws'.direct? relation left right (ρ.chain c) =
      (laws.direct? relation left right c).map ρ.chain := by
  have hknown : (ρ.chain c).known = c.known := rfl
  simp only [Laws.direct?, hknown]
  by_cases hgoal : relation.apply [left, right] ∈ c.known
  · rw [if_pos hgoal, if_pos hgoal]
    rfl
  · rw [if_neg hgoal, if_neg hgoal, h.reflexivity?, h.symmetry?]
    cases decide (left = right) <;> cases laws.registry.reflexivity? relation
    case true.some law => exact congrArg some (ρ.emit_chain c law _)
    -- without reflexivity there is only symmetry left
    all_goals
      cases laws.registry.symmetry? relation with
      | none => rfl
      | some law => simp [Renaming.emit_chain, apply_ite (Option.map ρ.chain)]

/-- What is common to all shapes of the two sides: `related` is what is done about their inputs. -/
theorem relate (relation : Head) (left right : Formula) (c : Chain)
    (related : Except ErrorKind Chain) {related' : Except ErrorKind Chain}
    (hrelated : related' = ρ.chain <$> related) :
    (match laws'.direct? relation left right (ρ.chain c) with
      | some chain => Except.ok chain
      | none => do
        let law ← laws'.congruenceFor relation left right
        let chain ← related'
        return chain.emit law (relation.apply [left, right])) =
    ρ.chain <$> (match laws.direct? relation left right c with
      | some chain => Except.ok chain
      | none => do
        let law ← laws.congruenceFor relation left right
        let chain ← related
        return chain.emit law (relation.apply [left, right])) := by
  rw [h.direct?]
  cases laws.direct? relation left right c with
  | some chain => rfl
  | none =>
    simp only [Option.map_none, h.congruenceFor, hrelated, map_bind, bind_map_left, map_pure,
      Renaming.emit_chain]

omit h in
theorem proveAll {relation : Head} {xs : List Formula}
    (hxs : ∀ x ∈ xs, ∀ y c,
      Chain.prove laws' relation x y (ρ.chain c) = ρ.chain <$> Chain.prove laws relation x y c)
    (ys : List Formula) (c : Chain) :
    Chain.proveAll laws' relation xs ys (ρ.chain c) =
      ρ.chain <$> Chain.proveAll laws relation xs ys c := by
  induction xs generalizing ys c with
  | nil => rfl
  | cons x xs ih =>
    rw [List.forall_mem_cons] at hxs
    cases ys with
    | nil => rfl
    | cons y ys => simp only [Chain.proveAll, hxs.1, ih hxs.2, map_bind, bind_map_left]

theorem prove_and_proveArguments (relation : Head) (left : Formula) :
    (∀ right c, Chain.prove laws' relation left right (ρ.chain c) =
      ρ.chain <$> Chain.prove laws relation left right c) ∧
    ∀ right c, Chain.proveArguments laws' relation left right (ρ.chain c) =
      ρ.chain <$> Chain.proveArguments laws relation left right c := by
  induction left using Formula.inductionOn with
  | symbol ref =>
    refine ⟨fun right c => ?_, fun right c => rfl⟩
    rw [Chain.prove.eq_def, Chain.prove.eq_def]
    exact h.relate relation (.symbol ref) right c (.ok c) rfl
  | var ref =>
    refine ⟨fun right c => ?_, fun right c => rfl⟩
    rw [Chain.prove.eq_def, Chain.prove.eq_def]
    exact h.relate relation (.var ref) right c (.ok c) rfl
  | app f x ihf ihx =>
    have harguments : ∀ right c, Chain.proveArguments laws' relation (.app f x) right (ρ.chain c) =
        ρ.chain <$> Chain.proveArguments laws relation (.app f x) right c := by
      intro right c
      cases right with
      | app g y =>
        simp only [Chain.proveArguments, ihf.2, ihx.1, map_bind, bind_map_left]
      | symbol | var | definition => rfl
    refine ⟨fun right c => ?_, harguments⟩
    cases right with
    | app g y =>
      rw [Chain.prove_app, Chain.prove_app]
      exact h.relate relation (.app f x) (.app g y) c _ (harguments (.app g y) c)
    | symbol | var | definition =>
      rw [Chain.prove.eq_def, Chain.prove.eq_def]
      exact h.relate relation (.app f x) _ c (.ok c) rfl
  | definition ref xs ih =>
    refine ⟨fun right c => ?_, fun right c => rfl⟩
    rw [Chain.prove.eq_def, Chain.prove.eq_def]
    cases right with
    | definition other ys =>
      exact h.relate relation (.definition ref xs) (.definition other ys) c _
        (proveAll (fun x hx => (ih x hx).1) ys c)
    | symbol | var | app => exact h.relate relation (.definition ref xs) _ c (.ok c) rfl

/-- **The same two formulas are related by the same steps**, up to the references in them. -/
theorem prove (relation : Head) (left right : Formula) (c : Chain) :
    Chain.prove laws' relation left right (ρ.chain c) =
      ρ.chain <$> Chain.prove laws relation left right c :=
  (h.prove_and_proveArguments relation left).1 right c

theorem macroGoal (goal : Formula) :
    Deduction.macroGoal laws' goal = Deduction.macroGoal laws goal := by
  simp only [Deduction.macroGoal, h.registry.isPreorder]

theorem synthesizeFunctionApplication (facts : List Formula) (goal : Formula) :
    Deduction.synthesizeFunctionApplication laws' facts goal =
      List.map ρ.step <$> Deduction.synthesizeFunctionApplication laws facts goal := by
  have hprove : ∀ asked : MacroGoal,
      Chain.prove laws' asked.relation asked.left asked.right ⟨facts, []⟩ =
        ρ.chain <$> Chain.prove laws asked.relation asked.left asked.right ⟨facts, []⟩ :=
    fun asked => h.prove asked.relation asked.left asked.right ⟨facts, []⟩
  simp only [Deduction.synthesizeFunctionApplication, h.macroGoal, hprove, map_bind, bind_map_left,
    map_pure]
  rfl

theorem throughMiddle (facts : List Formula) (goal : Formula) (asked : MacroGoal)
    (transitivity : RuleRef) (ml mr : Formula) :
    Deduction.throughMiddle laws' facts goal asked (ρ.rule transitivity) ml mr =
      List.map ρ.step <$> Deduction.throughMiddle laws facts goal asked transitivity ml mr := by
  have hstart : Chain.prove laws' asked.relation asked.left ml ⟨facts, []⟩ =
      ρ.chain <$> Chain.prove laws asked.relation asked.left ml ⟨facts, []⟩ :=
    h.prove asked.relation asked.left ml ⟨facts, []⟩
  simp only [Deduction.throughMiddle, hstart, h.prove, Renaming.emit_chain, map_bind, bind_map_left,
    map_pure]
  rfl

/-- A middle term works for the one exactly if it works for the other. -/
theorem firstMiddle (facts : List Formula) (goal : Formula) (asked : MacroGoal)
    (transitivity : RuleRef) (candidates : List Formula) :
    Deduction.firstMiddle laws' facts goal asked (ρ.rule transitivity) candidates =
      List.map ρ.step <$>
        Deduction.firstMiddle laws facts goal asked transitivity candidates := by
  induction candidates with
  | nil => rfl
  | cons candidate candidates ih =>
    rw [Deduction.firstMiddle, Deduction.firstMiddle]
    cases candidate.binary? with
    | none => exact ih
    | some middle =>
      dsimp only
      split
      · exact ih
      · rw [h.throughMiddle]
        cases Deduction.throughMiddle laws facts goal asked transitivity middle.2.1 middle.2.2 with
        | ok steps => rfl
        | error kind => exact ih

theorem synthesizeSubstitution (facts : List Formula) (goal : Formula) :
    Deduction.synthesizeSubstitution laws' facts goal =
      (List.map ρ.step <$> ·) <$> Deduction.synthesizeSubstitution laws facts goal := by
  rw [Deduction.synthesizeSubstitution, Deduction.synthesizeSubstitution, h.macroGoal]
  cases Deduction.macroGoal laws goal with
  | error kind => rfl
  | ok asked =>
    dsimp only
    rw [h.transitivity?]
    cases laws.registry.transitivity? asked.relation with
    | none => rfl
    | some transitivity =>
      dsimp only [Option.map_some]
      rw [h.firstMiddle]
      rfl

end Laws.Alike

/-! ## The second phase -/

/-- Wherever the first of two computations gives a result, the second one gives the result that
corresponds to it. -/
def Simulates {ε α β : Type} (φ : α → β) (x : Except ε α) (x' : Except ε β) : Prop :=
  ∀ a, x = .ok a → x' = .ok (φ a)

namespace Simulates

variable {ε α β γ δ : Type} {φ : α → β} {ψ : γ → δ}

theorem pure {a : α} {b : β} (h : b = φ a) : Simulates φ (.ok a : Except ε α) (.ok b) := by
  intro c hc
  cases hc
  rw [h]

theorem bind {x : Except ε α} {x' : Except ε β} {f : α → Except ε γ} {f' : β → Except ε δ}
    (hx : Simulates φ x x') (hf : ∀ a, Simulates ψ (f a) (f' (φ a))) :
    Simulates ψ (x >>= f) (x' >>= f') := by
  intro c hc
  obtain ⟨a, ha, hfa⟩ := bind_eq_ok.mp hc
  rw [hx a ha]
  exact hf a c hfa

theorem of_eq {x x' : Except ε α} (h : x' = x) : Simulates id x x' := by
  intro a ha
  rw [h, ha]
  rfl

theorem of_error {error : ε} {x' : Except ε β} : Simulates φ (.error error) x' := by
  intro a ha
  cases ha

end Simulates

namespace Directory.RenamedTo

variable {ρ : Renaming} {D D' : Directory} (h : D.RenamedTo ρ D')

include h

theorem citationFault? (ref citing : Ref) :
    D'.citationFault? (ρ.theorems ref) citing = D.citationFault? ref citing := by
  have hfirst : D'.firstProof? (ρ.theorems ref) = D.firstProof? ref := by
    rw [firstProof?, firstProof?, h.proofs, List.findIdx?_map]
    congr 1
    funext p
    exact decide_eq_decide.mpr ρ.theorems.injective.eq_iff
  rw [Directory.citationFault?, Directory.citationFault?, hfirst]

theorem ruleFault? (ref : RuleRef) (f : Formula) (facts : List Formula) :
    Simulates id (D.ruleFault? ref f facts) (D'.ruleFault? (ρ.rule ref) f facts) := by
  have hkinds : (ρ.rule ref).assertionKind = ref.assertionKind ∧
      (ρ.rule ref).premisesKind = ref.premisesKind := by
    cases ref <;> exact ⟨rfl, rfl⟩
  rw [Directory.ruleFault?, Directory.ruleFault?, h.rule?]
  cases D.rule? ref with
  | none => exact .of_error
  | some rule =>
    refine .of_eq ?_
    simp only [Bindings.ofMatch?_congr h.definitions, matchPremises_congr h.definitions, hkinds]

theorem elementaryFault? (premises facts : List Formula) (step : Step) :
    Simulates id (D.elementaryFault? premises facts step)
      (D'.elementaryFault? premises facts (ρ.step step)) := by
  obtain ⟨justification, f⟩ := step
  rw [Directory.elementaryFault?, Directory.elementaryFault?]
  cases justification with
  | rule ref => exact h.ruleFault? ref f facts
  | hypothesis index => exact .of_eq rfl
  | definition =>
    refine .of_eq ?_
    dsimp only [Renaming.step, Renaming.justification]
    rw [anyCompatible_congr h.definitions]
  | functionApplication => exact .of_error
  | substitution => exact .of_error

end Directory.RenamedTo

namespace Renaming

variable (ρ : Renaming)

/-- What came of a step. -/
def outcome (o : StepOutcome) : StepOutcome := { o with chain := o.chain.map (List.map ρ.step) }

/-- What came of a proof. -/
def derivation (d : Derivation) : Derivation := { d with chains := ρ.chains d.chains }

@[simp] theorem facts_outcome (o : StepOutcome) : (ρ.outcome o).facts = o.facts := by
  obtain ⟨faults, chain⟩ := o
  cases chain with
  | none => rfl
  | some chain => exact ρ.map_formula_step chain

end Renaming

namespace Laws.RenamedTo

variable {ρ : Renaming} {laws laws' : Laws} (h : laws.RenamedTo ρ laws')

include h

theorem chainFaults (citing : Ref) (premises : List Formula) (index : Nat) (facts : List Formula)
    (steps : List Step) :
    Simulates id (laws.chainFaults citing premises index facts steps)
      (laws'.chainFaults citing premises index facts (steps.map ρ.step)) := by
  induction steps generalizing index facts with
  | nil => exact .of_eq rfl
  | cons step steps ih =>
    rw [List.map_cons, Laws.chainFaults, Laws.chainFaults]
    refine (h.directory.elementaryFault? premises facts step).bind fun fault => ?_
    refine (ih (index + 1) (facts ++ [step.formula])).bind fun rest => .pure ?_
    obtain ⟨justification, f⟩ := step
    cases justification with
    | rule ref =>
      cases ref with
      | ofAxiom ref => rfl
      | ofTheorem ref =>
        dsimp only [Renaming.step, Renaming.justification, Renaming.rule]
        rw [h.directory.citationFault?]
        rfl
    | hypothesis | definition | functionApplication | substitution => rfl

theorem checkMacro (citing : Ref) (premises facts : List Formula) (goal : Formula)
    (synthesized : Except ErrorKind (List Step)) :
    Simulates ρ.outcome (laws.checkMacro citing premises facts goal synthesized)
      (laws'.checkMacro citing premises facts goal (List.map ρ.step <$> synthesized)) := by
  cases synthesized with
  | error kind => exact .pure rfl
  | ok chain =>
    refine (h.chainFaults citing premises 0 facts chain).bind fun faults => .pure ?_
    simp only [ρ.map_formula_step]
    rfl

/-- One step of a proof. -/
theorem checkStep (citing : Ref) (premises facts : List Formula) (step : Step) :
    Simulates ρ.outcome (laws.checkStep citing premises facts step)
      (laws'.checkStep citing premises facts (ρ.step step)) := by
  have helementary : Simulates ρ.outcome
      (do return .ofFault? (← laws.directory.elementaryFault? premises facts step))
      (do return .ofFault? (← laws'.directory.elementaryFault? premises facts (ρ.step step))) :=
    (h.directory.elementaryFault? premises facts step).bind fun fault => .pure rfl
  obtain ⟨justification, f⟩ := step
  rw [Laws.checkStep, Laws.checkStep]
  cases justification with
  | functionApplication =>
    dsimp only [Renaming.step, Renaming.justification]
    rw [h.alike.synthesizeFunctionApplication]
    exact h.checkMacro citing premises facts f _
  | substitution =>
    dsimp only [Renaming.step, Renaming.justification]
    rw [h.alike.synthesizeSubstitution, bind_map_left]
    exact Simulates.bind (.of_eq rfl) fun synthesized =>
      h.checkMacro citing premises facts f synthesized
  | rule | hypothesis | definition => exact helementary

/-- **The steps of a proof.** -/
theorem checkSteps (citing : Ref) (premises : List Formula) (index : Nat) (facts : List Formula)
    (steps : List Step) :
    Simulates ρ.derivation (laws.checkSteps citing premises index facts steps)
      (laws'.checkSteps citing premises index facts (steps.map ρ.step)) := by
  induction steps generalizing index facts with
  | nil => exact .pure rfl
  | cons step steps ih =>
    rw [List.map_cons, Laws.checkSteps, Laws.checkSteps]
    refine (h.checkStep citing premises facts step).bind fun outcome => ?_
    rw [ρ.facts_outcome]
    refine (ih (index + 1) _).bind fun rest => .pure ?_
    obtain ⟨faults, chain⟩ := outcome
    cases chain <;> rfl

theorem conclusionErrors (citing : Ref) (assertion : Formula) (steps : List Step) :
    laws'.conclusionErrors citing assertion (steps.map ρ.step) =
      laws.conclusionErrors citing assertion steps := by
  rw [Laws.conclusionErrors, Laws.conclusionErrors, List.getLast?_map, List.length_map]
  cases steps.getLast? with
  | none => rfl
  | some last =>
    dsimp only [Option.map_some, Renaming.formula_step]
    rw [Directory.compatible_congr h.directory.definitions]

theorem checkProofAt (ref : Ref) :
    Simulates ρ.derivation (laws.checkProofAt ref) (laws'.checkProofAt ref) := by
  have hproof : laws'.directory.proof? ref = (laws.directory.proof? ref).map ρ.proof := by
    rw [Directory.proof?, Directory.proof?, h.directory.proofs]
    cases ref with
    | ofNat n => exact List.getElem?_map
    | negSucc n => rfl
  rw [Laws.checkProofAt, Laws.checkProofAt, hproof]
  cases laws.directory.proof? ref with
  | none => exact .of_error
  | some proof =>
    have hgoal : laws'.directory.rule? (.ofTheorem (ρ.proof proof).theoremRef) =
        laws.directory.rule? (.ofTheorem proof.theoremRef) :=
      h.directory.rule? (.ofTheorem proof.theoremRef)
    dsimp only [Option.map_some]
    rw [hgoal]
    cases laws.directory.rule? (.ofTheorem proof.theoremRef) with
    | none => exact .of_error
    | some goal =>
      refine (h.checkSteps ref goal.premises 0 [] proof.steps).bind fun derivation => ?_
      refine Simulates.bind (.of_eq ?_) fun conclusion => .pure rfl
      exact h.conclusionErrors ref goal.assertion proof.steps

/-- **The second phase finds the same errors and the same chains**, up to the references in the
chains. -/
theorem checkProofs (index : Nat) (proofs : List Proof) :
    Simulates (Prod.map id ρ.allChains) (laws.checkProofs index proofs)
      (laws'.checkProofs index (proofs.map ρ.proof)) := by
  induction proofs generalizing index with
  | nil => exact .pure rfl
  | cons proof proofs ih =>
    rw [List.map_cons, Laws.checkProofs, Laws.checkProofs]
    refine (h.checkProofAt index).bind fun derivation => ?_
    refine (ih (index + 1)).bind fun rest => .pure ?_
    obtain ⟨errors, chains⟩ := derivation
    cases chains <;> rfl

end Laws.RenamedTo

end Deduction
