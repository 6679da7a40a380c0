import Deduction.Proofs.Typing.Relation

/-!
# Signatures, whatever was asked before

A memo is filled by the questions that were asked while it was passed along: for the signature of an
expansion, for the signature that a definition declares, and for formulas in all kinds of scopes and
under all kinds of limits.  None of these questions leaves anything wrong behind, so after any list
of them the pass over a formula answers what it answers at first, and it infers exactly the
signatures of the rules.

## Why the pass ends

The pass over a formula is a recursion over the formula, and for a definition it looks up the
signature of the expansion, which may start a pass over that expansion.  Written down like this
(`Directory.openBody`) nothing bounds how often that happens, and definitions may stand in a circle.
What ends it is the limit: the pass over an expansion looks up only definitions that are declared
before.  `Recursion.Ends` says of a recursion that it asks for its own values only along a
well-founded relation.  It is not enough to compare bounds here, since a recursion that does not end
would also give the same answer for every bound.

* `SignatureQuery`, `Directory.memoAfter`: questions and the memo that they leave.
* `Directory.faithful_memoAfter`: that memo is faithful.
* `Directory.ends_openBody`, `Directory.bodySignature_eq_openBody`: the recursion through expansions.
* `Directory.analyse_after_queries`: the pass follows the rules.
-/

namespace Deduction

/-! ## Recursions that end -/

/-- One level of a recursion gives a value for every reference, from the values for all of them.  The
recursion ends if each value is made only from values that are smaller in a well-founded order. -/
def Recursion.Ends {α : Type} (level : (Ref → α) → Ref → α) : Prop :=
  ∃ below : Ref → Ref → Prop, WellFounded below ∧
    ∀ values values' ref, (∀ r, below r ref → values r = values' r) →
      level values ref = level values' ref

namespace Directory

variable (D : Directory)

/-- Looking up the signature of an expansion, where the expansions inside it are looked up by
`body`. -/
def openBody (body : Ref → StateM SignatureMemo (Option Signature)) (ref : Ref) :
    StateM SignatureMemo (Option Signature) :=
  SignatureMemo.lookUp ref do
    match D.definition? ref with
    | none => return none
    | some d =>
      let analysis ← d.expansion.analyse D d.inputs (some ref) body
      return analysis.signature

/-- The pass over the expansion of a definition may look up that of another one. -/
def Opens (ref r : Ref) : Prop := ∃ count d, D.usable (some ref) r count = .ok d

variable {D : Directory}

/-- What is opened inside an expansion is declared before it. -/
theorem Opens.toNat_lt {ref r : Ref} (h : D.Opens ref r) : r.toNat < ref.toNat := by
  obtain ⟨count, d, hu⟩ := h
  obtain ⟨hd, hlimit, -⟩ := usable_eq_ok_iff.mp hu
  obtain ⟨n, rfl, -⟩ := itemAt?_eq_some_iff.mp hd
  have hlt : (n : Int) < ref := hlimit ref rfl
  exact (Int.toNat_lt_toNat (Int.lt_of_le_of_lt (Int.natCast_nonneg n) hlt)).mpr hlt

/-- No expansion is opened inside itself, at any depth. -/
theorem wellFounded_opens (D : Directory) : WellFounded fun r ref => D.Opens ref r :=
  Subrelation.wf (fun {_ _} h => Opens.toNat_lt h) (measure Int.toNat).wf

/-- The recursion through expansions ends, also if definitions use themselves. -/
theorem ends_openBody (D : Directory) : Recursion.Ends D.openBody := by
  refine ⟨fun r ref => D.Opens ref r, D.wellFounded_opens, fun body body' ref h => ?_⟩
  unfold openBody
  cases D.definition? ref with
  | none => rfl
  | some d =>
    dsimp only
    rw [Formula.analyse_congr fun r count d' hu => h r ⟨count, d', hu⟩]

/-- The signature of an expansion is found by that recursion. -/
theorem bodySignature_eq_openBody (D : Directory) : D.bodySignature = D.openBody D.bodySignature := by
  have hmore : D.bodySignatureWithin (D.definitions.length + 1) = D.bodySignature :=
    bodySignatureWithin_of_length_le (Nat.le_succ _)
  rw [← hmore]
  funext ref
  rw [bodySignatureWithin, hmore]
  rfl

end Directory

/-! ## Questions -/

/-- A question that is answered with the help of the memo. -/
inductive SignatureQuery where
  /-- The signature of an expansion. -/
  | expansion (ref : Ref)
  /-- The signature that a definition declares. -/
  | declared (ref : Ref)
  /-- The pass over a formula. -/
  | formula (scope : List Variable) (limit : Option Ref) (f : Formula)

namespace Directory

variable (D : Directory)

/-- The memo that a question leaves behind. -/
def remember (memo : SignatureMemo) : SignatureQuery → SignatureMemo
  | .expansion ref => ((D.bodySignature ref).run memo).2
  | .declared ref => ((D.definitionSignature ref).run memo).2
  | .formula scope limit f => ((D.analyse scope limit f).run memo).2

/-- The memo after a list of questions, of which the first one was asked of an empty memo. -/
def memoAfter (queries : List SignatureQuery) : SignatureMemo := queries.foldl D.remember {}

variable {D : Directory}

theorem computes_bodySignature (D : Directory) (ref : Ref) :
    Computes D.expansionSignature (D.bodySignature ref) (D.expansionSignature ref) := by
  cases hd : D.definition? ref with
  | some d => exact computes_bodySignatureWithin (lt_length_of_definition? hd)
  | none =>
    rw [bodySignature_eq_openBody, openBody, hd]
    refine .lookUp ?_
    rw [expansionSignature_eq_none hd]
    exact .pure none

/-- One question leaves a faithful memo faithful. -/
theorem faithful_remember {memo : SignatureMemo} (h : memo.Faithful D.expansionSignature)
    (query : SignatureQuery) : (D.remember memo query).Faithful D.expansionSignature := by
  cases query with
  | expansion ref => exact (D.computes_bodySignature ref memo h).2
  | declared ref => exact ((D.computes_bodySignature ref).bind (.pure _) memo h).2
  | formula scope limit f => exact (computes_analyse scope limit f memo h).2

/-- After any questions the memo is faithful. -/
theorem faithful_memoAfter (D : Directory) (queries : List SignatureQuery) :
    (D.memoAfter queries).Faithful D.expansionSignature := by
  have hrun : ∀ memo : SignatureMemo, memo.Faithful D.expansionSignature →
      (queries.foldl D.remember memo).Faithful D.expansionSignature := by
    induction queries with
    | nil => exact fun memo h => h
    | cons query queries ih => exact fun memo h => ih _ (faithful_remember h query)
  exact hrun {} (SignatureMemo.faithful_empty _)

/-- **The pass over a formula follows the rules, whatever the memo has seen.**  In every directory,
also with definitions that lead nowhere or in a circle, looking up expansions inside each other comes
to an end.  After any earlier questions the pass finds the signature and the faults that it finds at
first, and the signature is exactly the one that the rules give. -/
theorem analyse_after_queries (D : Directory) (queries : List SignatureQuery)
    (scope : List Variable) (limit : Option Ref) (f : Formula) :
    (Recursion.Ends D.openBody ∧ D.bodySignature = D.openBody D.bodySignature) ∧
      ((D.analyse scope limit f).run (D.memoAfter queries)).1 =
        ((D.analyse scope limit f).run {}).1 ∧
      ∀ s, ((D.analyse scope limit f).run (D.memoAfter queries)).1.signature = some s ↔
        f.HasSignature D scope limit s := by
  have hanswer : ((D.analyse scope limit f).run (D.memoAfter queries)).1 =
      f.analysis D scope limit D.expansionSignature :=
    (computes_analyse scope limit f _ (D.faithful_memoAfter queries)).1
  refine ⟨⟨D.ends_openBody, D.bodySignature_eq_openBody⟩, ?_, fun s => ?_⟩
  · rw [hanswer, run_analyse]
  · rw [hanswer]
    exact signature_eq_some_iff

end Directory

end Deduction
