import Deduction.Proofs.Typing.Memo
import Deduction.Proofs.Unfolding

/-!
# The typing rules

`Formula.HasSignature` states when a formula has a signature, one rule for each kind of node.  The
pass over a formula infers exactly these signatures (`Directory.inferred_eq_some_iff`).  A formula
with a signature has no faults, and in a directory whose definitions all have one the converse
holds too (`Directory.Typed.formulaFaults_eq_nil_iff`).

A definition has the signature of its expansion, so the rule for it has a derivation for the
expansion among its premises.  An induction over derivations therefore goes through bodies as well
as through formulas, which is how facts about unfolding are proved.

* `Formula.HasSignature`: the rules.
* `Directory.inferred`: the signature that the pass infers.
* `Directory.Typed`: every definition has a signature; such a directory is grounded.
-/

namespace Deduction

/-! ## The rules -/

/-- A formula has a signature in a scope, using only definitions declared before a limit. -/
inductive Formula.HasSignature (D : Directory) :
    List Variable → Option Ref → Formula → Signature → Prop
  | symbol {scope : List Variable} {limit : Option Ref} {ref : Ref} {c : SymbolDecl} :
      D.symbol? ref = some c → HasSignature D scope limit (.symbol ref) c.signature
  | var {scope : List Variable} {limit : Option Ref} {ref : Ref} {v : Variable} :
      itemAt? scope ref = some v → HasSignature D scope limit (.var ref) v.signature
  | app {scope : List Variable} {limit : Option Ref} {f x : Formula} {input output : Signature} :
      HasSignature D scope limit f (.arrow input output) → HasSignature D scope limit x input →
      HasSignature D scope limit (.app f x) output
  | definition {scope : List Variable} {limit : Option Ref} {ref : Ref} {inputs : List Formula}
      {d : Definition} {s : Signature} :
      D.definition? ref = some d → (∀ l ∈ limit, ref < l) → inputs.length = d.inputs.length →
      (∀ p ∈ d.inputs.zip inputs, HasSignature D scope limit p.2 p.1.signature) →
      HasSignature D d.inputs (some ref) d.expansion s →
      HasSignature D scope limit (.definition ref inputs) s

/-! ## The parts of the pass -/

namespace Analysis

theorem signature_ofParts_eq_some_iff {function argument : Analysis} {s : Signature} :
    (ofParts function argument).signature = some s ↔
      ∃ input, function.signature = some (.arrow input s) ∧ argument.signature = some input := by
  rw [ofParts]
  cases function.signature with
  | none => simp
  | some t =>
    cases argument.signature with
    | none => cases t <;> simp
    | some actual =>
      cases t with
      | ground type => simp
      | arrow i o =>
        dsimp only
        split
        · next h => simp [h]
        · next h => simp +contextual [h]

/-- Without faults in the parts, a fault of an application is a missing signature. -/
theorem ofParts_of_isSome {function argument : Analysis} (hf : function.signature.isSome)
    (hx : argument.signature.isSome) (h : (ofParts function argument).faults = []) :
    (ofParts function argument).signature.isSome := by
  obtain ⟨t, ht⟩ := Option.isSome_iff_exists.mp hf
  obtain ⟨actual, ha⟩ := Option.isSome_iff_exists.mp hx
  rw [ofParts, ht, ha] at h ⊢
  cases t with
  | ground type => simp at h
  | arrow i o =>
    dsimp only at h ⊢
    split
    · rfl
    · next hne =>
      rw [if_neg hne] at h
      simp at h

theorem faults_ofParts_eq_nil {function argument : Analysis}
    (h : (ofParts function argument).faults = []) :
    function.faults = [] ∧ argument.faults = [] := by
  have hbelow : function.faultsUnder .function ++ argument.faultsUnder .argument = [] := by
    rw [ofParts] at h
    split at h
    · split at h
      · exact h
      · exact (List.append_eq_nil_iff.mp h).1
    · exact (List.append_eq_nil_iff.mp h).1
    · exact h
  simpa [faultsUnder] using hbelow

theorem inputFaults_eq_nil_iff {index : Nat} {parts : List Analysis} :
    inputFaults index parts = [] ↔ ∀ part ∈ parts, part.faults = [] := by
  induction parts generalizing index with
  | nil => simp [inputFaults]
  | cons part parts ih =>
    rw [inputFaults, List.append_eq_nil_iff, ih, List.forall_mem_cons]
    simp [faultsUnder]

theorem inputsFit_iff {formals : List Variable} {parts : List Analysis} :
    inputsFit formals parts = true ↔
      ∀ p ∈ formals.zip parts, p.2.signature = some p.1.signature := by
  simp [inputsFit]

/-- If every input has a signature, an input that does not fit is a mismatch. -/
theorem inputsFit_of_inputMismatches {index : Nat} {formals : List Variable}
    {parts : List Analysis} (hparts : ∀ part ∈ parts, part.signature.isSome)
    (h : inputMismatches index formals parts = []) : inputsFit formals parts = true := by
  induction formals generalizing index parts with
  | nil => rfl
  | cons formal formals ih =>
    cases parts with
    | nil => rfl
    | cons part parts =>
      obtain ⟨actual, ha⟩ := Option.isSome_iff_exists.mp (hparts part List.mem_cons_self)
      rw [inputMismatches, ha] at h
      dsimp only at h
      split at h
      · next heq =>
        have hrest := ih (fun p hp => hparts p (List.mem_cons_of_mem _ hp)) h
        rw [inputsFit_iff] at hrest ⊢
        rw [List.zip_cons_cons, List.forall_mem_cons]
        exact ⟨by rw [ha, heq], hrest⟩
      · cases h

end Analysis

namespace Formula

variable {D : Directory} {scope : List Variable} {limit : Option Ref}
  {body : Ref → Option Signature}

theorem signature_analysis_definition {ref : Ref} {inputs : List Formula} {s : Signature} :
    ((Formula.definition ref inputs).analysis D scope limit body).signature = some s ↔
      ∃ d, D.usable limit ref inputs.length = .ok d ∧
        (∀ p ∈ d.inputs.zip inputs,
          (p.2.analysis D scope limit body).signature = some p.1.signature) ∧
        body ref = some s := by
  simp only [analysis, analysisAll_eq_map]
  cases hu : D.usable limit ref inputs.length with
  | error kind => simp
  | ok d =>
    have hfit : Analysis.inputsFit d.inputs (inputs.map (analysis D scope limit body)) = true ↔
        ∀ p ∈ d.inputs.zip inputs,
          (p.2.analysis D scope limit body).signature = some p.1.signature := by
      rw [Analysis.inputsFit_iff, List.zip_map_right, List.forall_mem_map]
      rfl
    simp only [Except.ok.injEq, exists_eq_left', ← hfit]
    split <;> simp_all

/-- The pass infers exactly the signatures of the rules, if it is given those of expansions. -/
theorem signature_analysis_eq_some_iff
    (hbody : ∀ ref count d, D.usable limit ref count = .ok d → ∀ s,
      body ref = some s ↔ HasSignature D d.inputs (some ref) d.expansion s)
    {f : Formula} {s : Signature} :
    (f.analysis D scope limit body).signature = some s ↔ HasSignature D scope limit f s := by
  induction f using inductionOn generalizing s with
  | symbol ref =>
    rw [analysis]
    constructor
    · intro h
      cases hc : D.symbol? ref with
      | none =>
        rw [hc] at h
        cases h
      | some c =>
        rw [hc] at h
        cases h
        exact .symbol hc
    · rintro (hc : HasSignature D scope limit (.symbol ref) s)
      cases hc with
      | symbol hc => rw [hc]
  | var ref =>
    rw [analysis]
    constructor
    · intro h
      cases hv : itemAt? scope ref with
      | none =>
        rw [hv] at h
        cases h
      | some v =>
        rw [hv] at h
        cases h
        exact .var hv
    · intro hv
      cases hv with
      | var hv => rw [hv]
  | app f x hf hx =>
    rw [analysis, Analysis.signature_ofParts_eq_some_iff]
    constructor
    · rintro ⟨input, h₁, h₂⟩
      exact .app (hf.mp h₁) (hx.mp h₂)
    · intro h
      cases h with
      | app h₁ h₂ => exact ⟨_, hf.mpr h₁, hx.mpr h₂⟩
  | definition ref inputs ih =>
    rw [signature_analysis_definition]
    constructor
    · rintro ⟨d, hu, hp, hs⟩
      obtain ⟨hd, hl, hlen⟩ := Directory.usable_eq_ok_iff.mp hu
      refine .definition hd hl hlen (fun p hmem => ?_) ((hbody _ _ _ hu s).mp hs)
      exact (ih p.2 (List.of_mem_zip hmem).2).mp (hp p hmem)
    · intro h
      cases h with
      | @definition _ _ _ _ d _ hd hl hlen hp hs =>
        have hu := Directory.usable_eq_ok_iff.mpr ⟨hd, hl, hlen⟩
        refine ⟨d, hu, fun p hmem => ?_, (hbody _ _ _ hu s).mpr hs⟩
        exact (ih p.2 (List.of_mem_zip hmem).2).mpr (hp p hmem)

/-- A formula with a signature has no faults. -/
theorem faults_analysis_of_isSome {f : Formula}
    (h : (f.analysis D scope limit body).signature.isSome) :
    (f.analysis D scope limit body).faults = [] := by
  induction f using inductionOn with
  | symbol ref =>
    rw [analysis] at h ⊢
    cases hc : D.symbol? ref with
    | none => simp [hc, Analysis.blame] at h
    | some c => rfl
  | var ref =>
    rw [analysis] at h ⊢
    cases hv : itemAt? scope ref with
    | none => simp [hv, Analysis.blame] at h
    | some v => rfl
  | app f x hf hx =>
    obtain ⟨s, hs⟩ := Option.isSome_iff_exists.mp h
    rw [analysis] at hs ⊢
    obtain ⟨input, h₁, h₂⟩ := Analysis.signature_ofParts_eq_some_iff.mp hs
    rw [Analysis.ofParts, h₁, h₂]
    simp [Analysis.faultsUnder, hf (by rw [h₁]; rfl), hx (by rw [h₂]; rfl)]
  | definition ref inputs ih =>
    obtain ⟨s, hs⟩ := Option.isSome_iff_exists.mp h
    obtain ⟨d, hu, hp, -⟩ := signature_analysis_definition.mp hs
    have hlen := (Directory.usable_eq_ok_iff.mp hu).2.2
    have hfit : Analysis.inputsFit d.inputs (inputs.map (analysis D scope limit body)) = true := by
      rw [Analysis.inputsFit_iff, List.zip_map_right, List.forall_mem_map]
      exact hp
    have hbelow : Analysis.inputFaults 0 (inputs.map (analysis D scope limit body)) = [] := by
      rw [Analysis.inputFaults_eq_nil_iff, List.forall_mem_map]
      intro x hx
      obtain ⟨formal, hformal⟩ := exists_mem_zip_of_length hlen hx
      exact ih x hx (by rw [hp _ hformal]; rfl)
    simp only [analysis, analysisAll_eq_map, hu, hfit, if_true, hbelow]

/-- A formula without faults and without signature uses a definition whose expansion has none. -/
theorem exists_definition_of_faults_eq_nil {f : Formula}
    (h : (f.analysis D scope limit body).faults = [])
    (hnone : (f.analysis D scope limit body).signature = none) :
    ∃ ref ∈ f.definitionRefs, ∃ count d, D.usable limit ref count = .ok d ∧ body ref = none := by
  induction f using inductionOn with
  | symbol ref =>
    rw [analysis] at h hnone
    cases hc : D.symbol? ref with
    | none => simp [hc, Analysis.blame] at h
    | some c => simp [hc] at hnone
  | var ref =>
    rw [analysis] at h hnone
    cases hv : itemAt? scope ref with
    | none => simp [hv, Analysis.blame] at h
    | some v => simp [hv] at hnone
  | app f x hf hx =>
    rw [analysis] at h hnone
    obtain ⟨h₁, h₂⟩ := Analysis.faults_ofParts_eq_nil h
    by_cases hfunction : (f.analysis D scope limit body).signature = none
    · obtain ⟨ref, hmem, hbody⟩ := hf h₁ hfunction
      exact ⟨ref, List.mem_append_left _ hmem, hbody⟩
    · by_cases hargument : (x.analysis D scope limit body).signature = none
      · obtain ⟨ref, hmem, hbody⟩ := hx h₂ hargument
        exact ⟨ref, List.mem_append_right _ hmem, hbody⟩
      · have hsome := Analysis.ofParts_of_isSome (Option.isSome_iff_ne_none.mpr hfunction)
          (Option.isSome_iff_ne_none.mpr hargument) h
        rw [hnone] at hsome
        cases hsome
  | definition ref inputs ih =>
    simp only [analysis, analysisAll_eq_map] at h hnone
    cases hu : D.usable limit ref inputs.length with
    | error kind => simp [hu] at h
    | ok d =>
      simp only [hu] at h hnone
      split at hnone
      · exact ⟨ref, mem_definitionRefs_definition.mpr (Or.inl rfl), _, d, hu, hnone⟩
      · next hfit =>
        rw [if_neg hfit] at h
        obtain ⟨hbelow, hmismatch⟩ := List.append_eq_nil_iff.mp h
        rw [Analysis.inputFaults_eq_nil_iff, List.forall_mem_map] at hbelow
        -- an input has no signature, since otherwise one of them would not fit
        obtain ⟨x, hx, hinput⟩ : ∃ x ∈ inputs, (x.analysis D scope limit body).signature = none := by
          by_contra hall
          refine hfit (Analysis.inputsFit_of_inputMismatches ?_ hmismatch)
          rw [List.forall_mem_map]
          exact fun x hx => Option.isSome_iff_ne_none.mpr fun hinput => hall ⟨x, hx, hinput⟩
        obtain ⟨r, hmem, hbody⟩ := ih x hx (hbelow x hx) hinput
        exact ⟨r, mem_definitionRefs_definition.mpr (Or.inr ⟨x, hx, hmem⟩), hbody⟩

/-- Where expansions have signatures, a formula without faults has one too. -/
theorem isSome_signature_analysis
    (hbody : ∀ ref count d, D.usable limit ref count = .ok d → (body ref).isSome) {f : Formula}
    (h : (f.analysis D scope limit body).faults = []) :
    (f.analysis D scope limit body).signature.isSome := by
  rw [Option.isSome_iff_ne_none]
  intro hnone
  obtain ⟨ref, -, count, d, hu, hexpansion⟩ := exists_definition_of_faults_eq_nil h hnone
  have hsome := hbody ref count d hu
  rw [hexpansion] at hsome
  cases hsome

end Formula

/-! ## Inferred signatures -/

namespace Directory

open Formula

variable {D : Directory} {scope : List Variable} {limit : Option Ref} {f : Formula} {s : Signature}

/-- The signature that the pass infers for a formula in a scope. -/
def inferred (D : Directory) (scope : List Variable) (f : Formula) : Option Signature :=
  ((D.analyse scope none f).run {}).1.signature

theorem run_analyse (D : Directory) (scope : List Variable) (limit : Option Ref) (f : Formula) :
    ((D.analyse scope limit f).run {}).1 = f.analysis D scope limit D.expansionSignature :=
  (computes_analyse scope limit f {} (SignatureMemo.faithful_empty _)).1

/-- The signature of an expansion is the one that the rules give it. -/
theorem expansionSignature_eq_some_iff {ref : Ref} {d : Definition}
    (h : D.definition? ref = some d) :
    D.expansionSignature ref = some s ↔ HasSignature D d.inputs (some ref) d.expansion s := by
  obtain ⟨n, rfl, -⟩ := itemAt?_eq_some_iff.mp h
  induction n using Nat.strongRecOn generalizing d s with
  | ind n ih =>
    rw [expansionSignature_eq h]
    refine signature_analysis_eq_some_iff fun ref count d' hu t => ?_
    obtain ⟨hd', hl, -⟩ := usable_eq_ok_iff.mp hu
    obtain ⟨k, rfl, -⟩ := itemAt?_eq_some_iff.mp hd'
    exact ih k (Int.ofNat_lt.mp (hl n rfl)) hd'

/-- The pass infers exactly the signatures that the rules give. -/
theorem signature_eq_some_iff :
    (f.analysis D scope limit D.expansionSignature).signature = some s ↔
      HasSignature D scope limit f s :=
  signature_analysis_eq_some_iff fun _ _ _ hu _ =>
    expansionSignature_eq_some_iff (usable_eq_ok_iff.mp hu).1

/-- **Inference follows the rules.** -/
theorem inferred_eq_some_iff : D.inferred scope f = some s ↔ HasSignature D scope none f s := by
  rw [inferred, run_analyse, signature_eq_some_iff]

/-- A formula has at most one signature. -/
theorem signature_unique {t : Signature} (h : HasSignature D scope limit f s)
    (h' : HasSignature D scope limit f t) : s = t := by
  have hs := signature_eq_some_iff.mpr h
  rw [signature_eq_some_iff.mpr h'] at hs
  exact (Option.some.inj hs).symm

theorem formulaFaults_eq_nil_iff {base : String} :
    D.formulaFaults scope base limit f = [] ↔
      (f.analysis D scope limit D.expansionSignature).faults = [] := by
  rw [formulaFaults, run_analyse, List.map_eq_nil_iff]

/-- A formula that has a signature is accepted. -/
theorem formulaFaults_eq_nil_of_hasSignature (h : HasSignature D scope limit f s) (base : String) :
    D.formulaFaults scope base limit f = [] := by
  rw [formulaFaults_eq_nil_iff]
  exact faults_analysis_of_isSome (by rw [signature_eq_some_iff.mpr h]; rfl)

/-- Every definition has a signature. -/
def Typed (D : Directory) : Prop :=
  ∀ (n : Nat) (d : Definition), D.definitions[n]? = some d →
    ∃ s, HasSignature D d.inputs (some (n : Int)) d.expansion s

/-- An accepted formula has a signature if the definitions it may use have one. -/
theorem exists_hasSignature {base : String}
    (hD : ∀ (n : Nat) (d : Definition), D.definitions[n]? = some d →
      (∀ l ∈ limit, (n : Int) < l) → ∃ s, HasSignature D d.inputs (some (n : Int)) d.expansion s)
    (h : D.formulaFaults scope base limit f = []) : ∃ s, HasSignature D scope limit f s := by
  rw [formulaFaults_eq_nil_iff] at h
  have hbody : ∀ ref count d, D.usable limit ref count = .ok d →
      (D.expansionSignature ref).isSome := by
    intro ref count d hu
    obtain ⟨hd, hl, -⟩ := usable_eq_ok_iff.mp hu
    obtain ⟨n, rfl, hn⟩ := itemAt?_eq_some_iff.mp hd
    obtain ⟨s, hs⟩ := hD n d hn hl
    rw [(expansionSignature_eq_some_iff hd).mpr hs]
    rfl
  obtain ⟨s, hs⟩ := Option.isSome_iff_exists.mp (isSome_signature_analysis hbody h)
  exact ⟨s, signature_eq_some_iff.mp hs⟩

/-- In a typed directory the accepted formulas are those that have a signature. -/
theorem Typed.formulaFaults_eq_nil_iff (hD : D.Typed) {base : String} :
    D.formulaFaults scope base limit f = [] ↔ ∃ s, HasSignature D scope limit f s :=
  ⟨fun h => exists_hasSignature (fun n d hn _ => hD n d hn) h,
    fun ⟨_, h⟩ => formulaFaults_eq_nil_of_hasSignature h base⟩

/-- **If every definition is accepted, every definition has a signature.** -/
theorem typed_of_formulaFaults
    (h : ∀ (n : Nat) (d : Definition), D.definitions[n]? = some d →
      D.formulaFaults d.inputs "expansion" (some (n : Int)) d.expansion = []) : D.Typed := by
  intro n d hn
  induction n using Nat.strongRecOn generalizing d with
  | ind n ih =>
    refine exists_hasSignature (fun k d' hk hl => ?_) (h n d hn)
    exact ih k (Int.ofNat_lt.mp (hl n rfl)) d' hk

end Directory

/-! ## What a signature says about the parts -/

namespace Formula

variable {D : Directory} {scope : List Variable} {limit : Option Ref} {f : Formula} {s : Signature}

theorem HasSignature.input {ref : Ref} {inputs : List Formula}
    (h : HasSignature D scope limit (.definition ref inputs) s) :
    ∀ x ∈ inputs, ∃ t, HasSignature D scope limit x t := by
  cases h with
  | definition _ _ hlen hp _ =>
    intro x hx
    obtain ⟨formal, hmem⟩ := exists_mem_zip_of_length hlen hx
    exact ⟨_, hp _ hmem⟩

/-- The parts of a formula with a signature have one. -/
theorem hereditary_hasSignature (D : Directory) (scope : List Variable) (limit : Option Ref) :
    Hereditary fun f => ∃ s, HasSignature D scope limit f s where
  function := by
    rintro f x ⟨s, h⟩
    cases h with
    | app hf _ => exact ⟨_, hf⟩
  argument := by
    rintro f x ⟨s, h⟩
    cases h with
    | app _ hx => exact ⟨_, hx⟩
  input := fun ⟨_, h⟩ => h.input

/-- A signature depends only on what the symbols and definitions of the formula resolve to. -/
theorem HasSignature.mono {D' : Directory} (h : HasSignature D scope limit f s)
    (hsymbol : ∀ ref c, D.symbol? ref = some c → D'.symbol? ref = some c)
    (hdefinition : ∀ ref d, D.definition? ref = some d → D'.definition? ref = some d) :
    HasSignature D' scope limit f s := by
  induction h with
  | symbol hc => exact .symbol (hsymbol _ _ hc)
  | var hv => exact .var hv
  | app _ _ ihf ihx => exact .app ihf ihx
  | definition hd hl hlen _ _ ih ihbody =>
    exact .definition (hdefinition _ _ hd) hl hlen ih ihbody

/-- The definitions of a formula with a signature resolve. -/
theorem HasSignature.resolved (h : HasSignature D scope limit f s) : f.Resolved D := by
  induction h with
  | symbol => exact .symbol _
  | var => exact .var _
  | app _ _ ihf ihx => exact .app ihf ihx
  | @definition _ _ ref inputs d _ hd _ hlen _ _ ih _ =>
    have htaking : D.definitionTaking? ref inputs.length = some d := by
      obtain ⟨n, rfl, hn⟩ := itemAt?_eq_some_iff.mp hd
      exact Directory.definitionTaking?_eq_some_iff.mpr ⟨n, rfl, hn, hlen.symm⟩
    refine .definition htaking fun x hx => ?_
    obtain ⟨formal, hmem⟩ := exists_mem_zip_of_length hlen hx
    exact ih _ hmem

theorem resolved_of_exists_hasSignature (h : ∃ s, HasSignature D scope limit f s) :
    f.Resolved D := by
  obtain ⟨s, hs⟩ := h
  exact hs.resolved

/-- The definitions of a formula with a signature are declared before the limit. -/
theorem HasSignature.lt_limit (h : HasSignature D scope limit f s) {l : Ref} (hl : l ∈ limit) :
    ∀ ref ∈ f.definitionRefs, ref < l := by
  induction f using inductionOn generalizing s with
  | symbol | var => simp [definitionRefs]
  | app f x hf hx =>
    cases h with
    | app h₁ h₂ =>
      intro ref hr
      exact (List.mem_append.mp hr).elim (hf h₁ ref) (hx h₂ ref)
  | definition ref inputs ih =>
    intro r hr
    rcases mem_definitionRefs_definition.mp hr with rfl | ⟨x, hx, hr⟩
    · cases h with
      | definition _ hlimit _ _ _ => exact hlimit l hl
    · obtain ⟨t, ht⟩ := h.input x hx
      exact ih x hx ht r hr

/-- The variables of a formula with a signature belong to the scope. -/
theorem HasSignature.isSome_itemAt? (h : HasSignature D scope limit f s) :
    ∀ ref ∈ f.variableRefs, (itemAt? scope ref).isSome := by
  induction f using inductionOn generalizing s with
  | symbol => simp [variableRefs]
  | var r =>
    intro ref hr
    rw [variableRefs, List.mem_singleton] at hr
    subst hr
    cases h with
    | var hv => rw [hv]; rfl
  | app f x hf hx =>
    cases h with
    | app h₁ h₂ =>
      intro ref hr
      exact (List.mem_append.mp hr).elim (hf h₁ ref) (hx h₂ ref)
  | definition ref inputs ih =>
    intro r hr
    obtain ⟨x, hx, hr⟩ := mem_variableRefs_definition.mp hr
    obtain ⟨t, ht⟩ := h.input x hx
    exact ih x hx ht r hr

end Formula

/-- **A typed directory is grounded.** -/
theorem Directory.Typed.grounded {D : Directory} (hD : D.Typed) : D.Grounded where
  resolved := fun hn => Formula.resolved_of_exists_hasSignature (hD _ _ hn)
  earlier := fun hn => (hD _ _ hn).elim fun _ h => h.lt_limit rfl
  closed := fun hn => (hD _ _ hn).elim fun _ h => h.isSome_itemAt?

end Deduction
