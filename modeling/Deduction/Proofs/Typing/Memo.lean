import Deduction.Typing

/-!
# The pass over a formula without its memo

The pass that gives formulas their signatures carries a memo along, and what it answers must not
depend on what the memo happens to hold.  Here the pass is written once more as a plain function,
`Formula.analysis`, that is given the signatures of expansions, and `Directory.expansionSignature` is
the function it is given.  A memo is *faithful* if it holds nothing but values of that function.
From a faithful memo the pass with a memo computes what the plain one says, and it leaves a faithful
memo behind.

Both passes go through expansions inside expansions and count how deep they are.  The limit set for
a body lets through only earlier definitions, so as many levels as there are definitions always
suffice and the count has no influence (`Directory.expansionSignatureWithin_eq`,
`Directory.bodySignatureWithin_of_length_le`).

* `Formula.analysis`, `Directory.expansionSignature`: the plain pass.
* `SignatureMemo.Faithful`, `Computes`: faithful memos and what is computed from them.
* `Directory.computes_analyse`: the pass with a memo computes the plain one.
-/

namespace Deduction

/-! ## The plain pass -/

namespace Formula

mutual

/-- The pass over a formula, where `body` gives the signatures of expansions. -/
def analysis (D : Directory) (scope : List Variable) (limit : Option Ref)
    (body : Ref → Option Signature) : Formula → Analysis
  | .symbol ref =>
    match D.symbol? ref with
    | none => .blame .invalidSymbolRef
    | some s => ⟨some s.signature, []⟩
  | .var ref =>
    match itemAt? scope ref with
    | none => .blame .invalidVariableRef
    | some v => ⟨some v.signature, []⟩
  | .app f x => .ofParts (analysis D scope limit body f) (analysis D scope limit body x)
  | .definition ref inputs =>
    let parts := analysisAll D scope limit body inputs
    let below := Analysis.inputFaults 0 parts
    match D.usable limit ref inputs.length with
    | .error kind => ⟨none, ([], kind) :: below⟩
    | .ok d =>
      if Analysis.inputsFit d.inputs parts then ⟨body ref, below⟩
      else ⟨none, below ++ Analysis.inputMismatches 0 d.inputs parts⟩

/-- The pass over a list of formulas. -/
def analysisAll (D : Directory) (scope : List Variable) (limit : Option Ref)
    (body : Ref → Option Signature) : List Formula → List Analysis
  | [] => []
  | x :: xs => analysis D scope limit body x :: analysisAll D scope limit body xs

end

@[simp] theorem analysisAll_eq_map (D : Directory) (scope : List Variable) (limit : Option Ref)
    (body : Ref → Option Signature) (xs : List Formula) :
    analysisAll D scope limit body xs = xs.map (analysis D scope limit body) := by
  induction xs with
  | nil => rfl
  | cons x xs ih => rw [analysisAll, ih, List.map_cons]

/-- Only the expansions of definitions that may be used matter. -/
theorem analysis_congr {D : Directory} {scope : List Variable} {limit : Option Ref}
    {body body' : Ref → Option Signature}
    (h : ∀ ref count d, D.usable limit ref count = .ok d → body ref = body' ref) (f : Formula) :
    f.analysis D scope limit body = f.analysis D scope limit body' := by
  induction f using inductionOn with
  | symbol | var => rfl
  | app f x hf hx => rw [analysis, analysis, hf, hx]
  | definition ref inputs ih =>
    have hparts : inputs.map (analysis D scope limit body) =
        inputs.map (analysis D scope limit body') := List.map_congr_left ih
    simp only [analysis, analysisAll_eq_map]
    rw [hparts]
    cases hu : D.usable limit ref inputs.length with
    | error kind => rfl
    | ok d =>
      dsimp only
      rw [h ref _ d hu]

end Formula

namespace Directory

theorem usable_eq_ok_iff {D : Directory} {limit : Option Ref} {ref : Ref} {count : Nat}
    {d : Definition} :
    D.usable limit ref count = .ok d ↔
      D.definition? ref = some d ∧ (∀ l ∈ limit, ref < l) ∧ count = d.inputs.length := by
  rw [usable]
  cases hd : D.definition? ref with
  | none => simp
  | some d' =>
    have hlimit : (limit.any (· ≤ ref)) = true ↔ ¬∀ l ∈ limit, ref < l := by
      cases limit <;> simp
    dsimp only
    split
    · next h =>
      constructor
      · intro h'
        cases h'
      · rintro ⟨-, hl, -⟩
        exact absurd hl (hlimit.mp h)
    · next h =>
      have hl : ∀ l ∈ limit, ref < l := Classical.not_not.mp fun hn => h (hlimit.mpr hn)
      split
      · next hc =>
        constructor
        · intro h'
          cases h'
        · rintro ⟨h', -, rfl⟩
          cases h'
          exact absurd rfl hc
      · next hc =>
        rw [Classical.not_not] at hc
        constructor
        · intro h'
          cases h'
          exact ⟨rfl, hl, hc.symm⟩
        · rintro ⟨h', -, -⟩
          cases h'
          rfl

variable (D : Directory)

/-- The signature of an expansion, through at most so many expansions inside each other. -/
def expansionSignatureWithin : Nat → Ref → Option Signature
  | 0, _ => none
  | bound + 1, ref =>
    match D.definition? ref with
    | none => none
    | some d => (d.expansion.analysis D d.inputs (some ref) (expansionSignatureWithin bound)).signature

/-- The signature of a definition applied to all of its inputs. -/
def expansionSignature (ref : Ref) : Option Signature :=
  D.expansionSignatureWithin D.definitions.length ref

theorem definition?_eq_none_of_neg {D : Directory} {ref : Ref} (h : ref < (0 : Int)) :
    D.definition? ref = none := by
  cases ref with
  | ofNat n => exact absurd h (by simp)
  | negSucc n => rfl

theorem lt_length_of_definition? {D : Directory} {ref : Ref} {d : Definition}
    (h : D.definition? ref = some d) : ref < (D.definitions.length : Int) := by
  obtain ⟨n, rfl, hn⟩ := itemAt?_eq_some_iff.mp h
  exact Int.ofNat_lt.mpr (List.getElem?_eq_some_iff.mp hn).1

/-- Bounds above a definition all give its expansion the same signature. -/
theorem expansionSignatureWithin_eq {D : Directory} {n m : Nat} {ref : Ref} (hn : ref < (n : Int))
    (hm : ref < (m : Int)) :
    D.expansionSignatureWithin n ref = D.expansionSignatureWithin m ref := by
  induction n generalizing m ref with
  | zero =>
    cases m with
    | zero => rfl
    | succ m => rw [expansionSignatureWithin, expansionSignatureWithin, definition?_eq_none_of_neg hn]
  | succ n ih =>
    cases m with
    | zero => rw [expansionSignatureWithin, expansionSignatureWithin, definition?_eq_none_of_neg hm]
    | succ m =>
      rw [expansionSignatureWithin, expansionSignatureWithin]
      cases D.definition? ref with
      | none => rfl
      | some d =>
        dsimp only
        -- the limit of a body lets through earlier definitions only
        rw [Formula.analysis_congr fun r count d' hu => ?_]
        have hr : r < ref := (usable_eq_ok_iff.mp hu).2.1 ref rfl
        exact ih (Int.lt_of_lt_of_le hr (Int.lt_add_one_iff.mp hn))
          (Int.lt_of_lt_of_le hr (Int.lt_add_one_iff.mp hm))

/-- The signature of an expansion is that of the pass over it. -/
theorem expansionSignature_eq {D : Directory} {ref : Ref} {d : Definition}
    (h : D.definition? ref = some d) :
    D.expansionSignature ref =
      (d.expansion.analysis D d.inputs (some ref) D.expansionSignature).signature := by
  have hlt := lt_length_of_definition? h
  have hmore : ref < ((D.definitions.length + 1 : Nat) : Int) :=
    Int.lt_trans hlt (Int.lt_add_one_of_le (Int.le_refl _))
  rw [expansionSignature, expansionSignatureWithin_eq hlt hmore, expansionSignatureWithin, h]
  rfl

theorem expansionSignature_eq_none {D : Directory} {ref : Ref} (h : D.definition? ref = none) :
    D.expansionSignature ref = none := by
  rw [expansionSignature]
  cases D.definitions.length with
  | zero => rfl
  | succ n => rw [expansionSignatureWithin, h]

end Directory

/-! ## Faithful memos -/

/-- Every entry of the memo is what a function says. -/
def SignatureMemo.Faithful (memo : SignatureMemo) (body : Ref → Option Signature) : Prop :=
  ∀ ref known, memo.find? ref = some known → known = body ref

theorem SignatureMemo.faithful_empty (body : Ref → Option Signature) :
    ({} : SignatureMemo).Faithful body := by
  intro ref known h
  cases h

/-- From every faithful memo the computation gives the value and leaves a faithful memo. -/
def Computes {α : Type} (body : Ref → Option Signature) (x : StateM SignatureMemo α) (a : α) :
    Prop :=
  ∀ memo : SignatureMemo, memo.Faithful body →
    (x.run memo).1 = a ∧ (x.run memo).2.Faithful body

section

variable {α β : Type} {body : Ref → Option Signature}

theorem Computes.pure (a : α) : Computes body (Pure.pure a) a :=
  fun _ hm => ⟨rfl, hm⟩

theorem Computes.bind {x : StateM SignatureMemo α} {f : α → StateM SignatureMemo β} {a : α} {b : β}
    (hx : Computes body x a) (hf : Computes body (f a) b) : Computes body (x >>= f) b := by
  intro memo hm
  obtain ⟨h₁, h₂⟩ := hx memo hm
  have hrun : (x >>= f).run memo = (f (x.run memo).1).run (x.run memo).2 := rfl
  rw [hrun, h₁]
  exact hf _ h₂

/-- Looking up an expansion gives its signature if computing it does. -/
theorem Computes.lookUp {ref : Ref} {x : StateM SignatureMemo (Option Signature)}
    (hx : Computes body x (body ref)) : Computes body (SignatureMemo.lookUp ref x) (body ref) := by
  intro memo hm
  cases hf : memo.find? ref with
  | some known =>
    have hrun : (SignatureMemo.lookUp ref x).run memo = (known, memo) := by
      simp only [SignatureMemo.lookUp, StateT.run_bind, StateT.run_get, pure_bind, hf]
      rfl
    rw [hrun]
    exact ⟨hm ref known hf, hm⟩
  | none =>
    obtain ⟨h₁, h₂⟩ := hx memo hm
    have hrun : (SignatureMemo.lookUp ref x).run memo =
        ((x.run memo).1, (x.run memo).2.insert ref (x.run memo).1) := by
      simp only [SignatureMemo.lookUp, StateT.run_bind, StateT.run_get, pure_bind, hf]
      rfl
    rw [hrun, h₁]
    refine ⟨rfl, fun r known hr => ?_⟩
    by_cases h : r = ref
    · subst h
      rw [SignatureMemo.find?_insert_self] at hr
      exact (Option.some.inj hr).symm
    · rw [SignatureMemo.find?_insert_of_ne _ h] at hr
      exact h₂ r known hr

end

/-! ## The pass with a memo computes the plain one -/

namespace Formula

/-- The passes agree if looking up an expansion that may be used does. -/
theorem computes_analyse {D : Directory} {scope : List Variable} {limit : Option Ref}
    {body : Ref → Option Signature} {lookUp : Ref → StateM SignatureMemo (Option Signature)}
    (h : ∀ ref count d, D.usable limit ref count = .ok d → Computes body (lookUp ref) (body ref))
    (f : Formula) :
    Computes body (f.analyse D scope limit lookUp) (f.analysis D scope limit body) := by
  induction f using inductionOn with
  | symbol ref =>
    rw [analyse, analysis]
    cases D.symbol? ref with
    | none => exact .pure _
    | some s => exact .pure _
  | var ref =>
    rw [analyse, analysis]
    cases itemAt? scope ref with
    | none => exact .pure _
    | some v => exact .pure _
  | app f x hf hx =>
    rw [analyse, analysis]
    exact hf.bind (hx.bind (.pure _))
  | definition ref inputs ih =>
    have hinputs : Computes body (analyseAll D scope limit lookUp inputs)
        (inputs.map (analysis D scope limit body)) := by
      clear h
      induction inputs with
      | nil => exact .pure _
      | cons x xs ihxs =>
        rw [analyseAll, List.map_cons]
        refine (ih x List.mem_cons_self).bind (Computes.bind (ihxs fun y hy => ?_) (.pure _))
        exact ih y (List.mem_cons_of_mem _ hy)
    rw [analyse]
    refine hinputs.bind ?_
    simp only [analysis, analysisAll_eq_map]
    cases hu : D.usable limit ref inputs.length with
    | error kind => exact .pure _
    | ok d =>
      dsimp only
      split
      · exact (h ref _ d hu).bind (.pure _)
      · exact .pure _

/-- Only the expansions of definitions that may be used are looked up. -/
theorem analyse_congr {D : Directory} {scope : List Variable} {limit : Option Ref}
    {body body' : Ref → StateM SignatureMemo (Option Signature)}
    (h : ∀ ref count d, D.usable limit ref count = .ok d → body ref = body' ref) (f : Formula) :
    f.analyse D scope limit body = f.analyse D scope limit body' := by
  induction f using inductionOn with
  | symbol | var => rfl
  | app f x hf hx => rw [analyse, analyse, hf, hx]
  | definition ref inputs ih =>
    have hinputs : analyseAll D scope limit body inputs = analyseAll D scope limit body' inputs := by
      clear h
      induction inputs with
      | nil => rfl
      | cons x xs ihxs =>
        rw [analyseAll, analyseAll, ih x List.mem_cons_self,
          ihxs fun y hy => ih y (List.mem_cons_of_mem _ hy)]
    rw [analyse, analyse, hinputs]
    cases hu : D.usable limit ref inputs.length with
    | error kind => rfl
    | ok d =>
      dsimp only
      rw [h ref _ d hu]

end Formula

namespace Directory

variable {D : Directory}

/-- Within a bound above a definition, looking up its expansion gives its signature. -/
theorem computes_bodySignatureWithin {n : Nat} {ref : Ref} (hn : ref < (n : Int)) :
    Computes D.expansionSignature (D.bodySignatureWithin n ref) (D.expansionSignature ref) := by
  induction n generalizing ref with
  | zero =>
    refine .lookUp ?_
    rw [expansionSignature_eq_none (definition?_eq_none_of_neg hn)]
    exact .pure none
  | succ n ih =>
    refine .lookUp ?_
    cases hd : D.definition? ref with
    | none =>
      rw [expansionSignature_eq_none hd]
      exact .pure none
    | some d =>
      rw [expansionSignature_eq hd]
      refine Computes.bind (Formula.computes_analyse (fun r count d' hu => ih ?_) _) (.pure _)
      have hr : r < ref := (usable_eq_ok_iff.mp hu).2.1 ref rfl
      exact Int.lt_of_lt_of_le hr (Int.lt_add_one_iff.mp hn)

/-- **The pass with a memo computes the plain one.** -/
theorem computes_analyse (scope : List Variable) (limit : Option Ref) (f : Formula) :
    Computes D.expansionSignature (D.analyse scope limit f)
      (f.analysis D scope limit D.expansionSignature) := by
  refine Formula.computes_analyse (fun ref count d hu => computes_bodySignatureWithin ?_) f
  exact lt_length_of_definition? (usable_eq_ok_iff.mp hu).1

/-- Bounds above a definition all look up its expansion in the same way. -/
theorem bodySignatureWithin_eq {n m : Nat} {ref : Ref} (hn : ref < (n : Int))
    (hm : ref < (m : Int)) : D.bodySignatureWithin n ref = D.bodySignatureWithin m ref := by
  induction n generalizing m ref with
  | zero =>
    cases m with
    | zero => rfl
    | succ m => rw [bodySignatureWithin, bodySignatureWithin, definition?_eq_none_of_neg hn]
  | succ n ih =>
    cases m with
    | zero => rw [bodySignatureWithin, bodySignatureWithin, definition?_eq_none_of_neg hm]
    | succ m =>
      rw [bodySignatureWithin, bodySignatureWithin]
      cases D.definition? ref with
      | none => rfl
      | some d =>
        dsimp only
        rw [Formula.analyse_congr fun r count d' hu => ?_]
        have hr : r < ref := (usable_eq_ok_iff.mp hu).2.1 ref rfl
        exact ih (Int.lt_of_lt_of_le hr (Int.lt_add_one_iff.mp hn))
          (Int.lt_of_lt_of_le hr (Int.lt_add_one_iff.mp hm))

/-- **As many levels as there are definitions suffice.**  More of them change nothing, for no
reference and from no memo. -/
theorem bodySignatureWithin_of_length_le {n : Nat} (h : D.definitions.length ≤ n) :
    D.bodySignatureWithin n = D.bodySignature := by
  funext ref
  cases hd : D.definition? ref with
  | some d =>
    have hlt := lt_length_of_definition? hd
    exact bodySignatureWithin_eq (Int.lt_of_lt_of_le hlt (Int.ofNat_le.mpr h)) hlt
  | none =>
    have hnone : ∀ m, D.bodySignatureWithin m ref = SignatureMemo.lookUp ref (pure none) := by
      intro m
      cases m with
      | zero => rfl
      | succ m => rw [bodySignatureWithin, hd]
    rw [bodySignature, hnone, hnone]

end Directory

end Deduction
