import Deduction.Formula.Spine
import Deduction.Proofs.Typing.Relation

/-!
# Signatures under substitution, unfolding and application

Putting formulas of the declared signatures in for the variables keeps the signature of a formula.
Unfolding keeps it too: the derivation for a definition holds one for its body, and the unfolded
inputs are put into the unfolded body.  So compatible formulas have the same signature, although
nothing in the comparison looks at signatures.

A formula with a head is read as that head applied to all of its inputs at once, for symbols and
definitions alike.  `Head.Takes` gives the signatures of the inputs and of the result; the head and
the number of inputs determine them.

* `Formula.HasSignature.substitute`, `Formula.HasSignature.normal`: what keeps a signature.
* `Directory.Grounded.signature_eq`: compatible formulas have one signature.
* `Head.hasSignature_apply_iff`, `Head.Takes.unique`: signatures of applied heads.
-/

namespace Deduction

namespace Formula

variable {D : Directory} {scope scope' : List Variable} {limit : Option Ref} {f : Formula}
  {s : Signature}

/-- Formulas of the declared signatures can be put in for variables. -/
theorem HasSignature.substitute {σ : Ref → Formula} (h : HasSignature D scope limit f s)
    (hσ : ∀ ref v, itemAt? scope ref = some v → HasSignature D scope' limit (σ ref) v.signature) :
    HasSignature D scope' limit (f.substitute σ) s := by
  induction f using inductionOn generalizing s with
  | symbol ref =>
    cases h with
    | symbol hc => exact .symbol hc
  | var ref =>
    cases h with
    | var hv => exact hσ ref _ hv
  | app f x hf hx =>
    cases h with
    | app h₁ h₂ => exact .app (hf h₁) (hx h₂)
  | definition ref inputs ih =>
    cases h with
    | definition hd hl hlen hp hbody =>
      rw [Formula.substitute, substituteAll_eq_map]
      refine .definition hd hl (by rw [List.length_map, hlen]) ?_ hbody
      rw [List.zip_map_right, List.forall_mem_map]
      intro p hmem
      exact ih p.2 (List.of_mem_zip hmem).2 (hp p hmem)

/-- **Unfolding keeps the signature**, and the result may be used under any limit. -/
theorem HasSignature.normal (hD : D.Grounded) (h : HasSignature D scope limit f s)
    (limit' : Option Ref) : HasSignature D scope limit' (D.normal f) s := by
  induction h with
  | symbol hc => exact .symbol hc
  | var hv => exact .var hv
  | app hf hx ihf ihx =>
    rw [hD.normal_app hf.resolved hx.resolved]
    exact .app ihf ihx
  | @definition scope limit ref inputs d s hd hl hlen hp hbody ih ihbody =>
    have hresolved := (HasSignature.definition hd hl hlen hp hbody).resolved
    obtain ⟨n, rfl, hn⟩ := itemAt?_eq_some_iff.mp hd
    have htaking := Directory.definitionTaking?_eq_some_iff.mpr ⟨n, rfl, hn, hlen.symm⟩
    rw [hD.normal_definition htaking hresolved.inputs]
    refine ihbody.substitute fun ref v hv => ?_
    -- the formal input at a position and the input at the same position stand in step
    obtain ⟨k, rfl, hk⟩ := itemAt?_eq_some_iff.mp hv
    have hlt : k < inputs.length := by
      rw [hlen]
      exact (List.getElem?_eq_some_iff.mp hk).1
    have hx : inputs[k]? = some inputs[k] := List.getElem?_eq_getElem hlt
    rw [inputValues_of_itemAt? (x := D.normal inputs[k]) (by simp [hx])]
    exact ih _ (mem_zip_iff_getElem?.mpr ⟨k, hk, hx⟩)

end Formula

/-- **Compatible formulas have the same signature.** -/
theorem Directory.Grounded.signature_eq {D : Directory} (hD : D.Grounded) {scope : List Variable}
    {f g : Formula} {s t : Signature} (hf : f.HasSignature D scope none s)
    (hg : g.HasSignature D scope none t) (h : D.normal f = D.normal g) : s = t := by
  have hnormal := hf.normal hD none
  rw [h] at hnormal
  exact signature_unique hnormal (hg.normal hD none)

/-! ## Applied heads -/

/-- Equal signatures with equally many inputs put in front have the same inputs and results. -/
theorem Signature.extend_inj {s t : Signature} {ss ts : List Signature}
    (hlen : ss.length = ts.length) (h : s.extend ss = t.extend ts) : ss = ts ∧ s = t := by
  induction ss generalizing ts with
  | nil =>
    cases ts with
    | nil => exact ⟨rfl, h⟩
    | cons t' ts => cases hlen
  | cons s' ss ih =>
    cases ts with
    | nil => cases hlen
    | cons t' ts =>
      rw [extend_cons, extend_cons, arrow.injEq] at h
      obtain ⟨rfl, rfl⟩ := ih (Nat.succ.inj hlen) h.2
      exact ⟨by rw [h.1], rfl⟩

namespace Head

open Formula Directory

variable {D : Directory} {scope : List Variable} {limit : Option Ref} {head : Head}
  {xs : List Formula} {ts : List Signature} {s : Signature}

/-- A head takes inputs of the given signatures to a result of the given signature. -/
inductive Takes (D : Directory) (limit : Option Ref) : Head → List Signature → Signature → Prop
  | symbol {ref : Ref} {c : SymbolDecl} {ts : List Signature} {s : Signature} :
      D.symbol? ref = some c → c.signature = s.extend ts → Takes D limit (.symbol ref) ts s
  | definition {ref : Ref} {d : Definition} {s : Signature} :
      D.definition? ref = some d → (∀ l ∈ limit, ref < l) →
      HasSignature D d.inputs (some ref) d.expansion s →
      Takes D limit (.definition ref) (d.inputs.map Variable.signature) s

theorem hasSignature_foldl_app_iff {f : Formula} :
    HasSignature D scope limit (xs.foldl .app f) s ↔
      ∃ ts, HasSignature D scope limit f (s.extend ts) ∧
        List.Forall₂ (HasSignature D scope limit) xs ts := by
  induction xs generalizing f with
  | nil => simp
  | cons x xs ih =>
    rw [List.foldl_cons, ih]
    constructor
    · rintro ⟨ts, h, hxs⟩
      cases h with
      | app hf hx => exact ⟨_ :: ts, hf, .cons hx hxs⟩
    · rintro ⟨ts, h, hxs⟩
      cases hxs with
      | cons hx hxs => exact ⟨_, .app h hx, hxs⟩

/-- An applied head has a signature exactly if its inputs have those that it takes. -/
theorem hasSignature_apply_iff :
    HasSignature D scope limit (head.apply xs) s ↔
      ∃ ts, head.Takes D limit ts s ∧ List.Forall₂ (HasSignature D scope limit) xs ts := by
  cases head with
  | symbol ref =>
    rw [apply, hasSignature_foldl_app_iff]
    constructor
    · rintro ⟨ts, h, hxs⟩
      generalize ht : s.extend ts = t at h
      cases h with
      | symbol hc => exact ⟨ts, .symbol hc ht.symm, hxs⟩
    · rintro ⟨ts, h, hxs⟩
      cases h with
      | symbol hc ht => exact ⟨ts, ht ▸ .symbol hc, hxs⟩
  | definition ref =>
    constructor
    · intro h
      cases h with
      | definition hd hl hlen hp hbody =>
        refine ⟨_, .definition hd hl hbody, ?_⟩
        rw [List.forall₂_map_right_iff, List.forall₂_iff_zip]
        exact ⟨hlen, fun hmem => hp _ (mem_zip_comm.mp hmem)⟩
    · rintro ⟨ts, h, hxs⟩
      cases h with
      | definition hd hl hbody =>
        rw [List.forall₂_map_right_iff, List.forall₂_iff_zip] at hxs
        exact .definition hd hl hxs.1 (fun p hmem => hxs.2 (mem_zip_comm.mp hmem)) hbody

/-- The head and the number of inputs determine what is taken and what results. -/
theorem Takes.unique {ts' : List Signature} {s' : Signature} (h : head.Takes D limit ts s)
    (h' : head.Takes D limit ts' s') (hlen : ts.length = ts'.length) : ts = ts' ∧ s = s' := by
  cases h with
  | symbol hc ht =>
    cases h' with
    | symbol hc' ht' =>
      rw [hc] at hc'
      cases hc'
      exact Signature.extend_inj hlen (ht.symm.trans ht')
  | definition hd hl hbody =>
    cases h' with
    | definition hd' hl' hbody' =>
      rw [hd] at hd'
      cases hd'
      exact ⟨rfl, signature_unique hbody hbody'⟩

end Head

end Deduction
