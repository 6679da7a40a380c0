import Deduction.Proofs.Substitution
import Deduction.Unfolding

/-!
# Unfolding on well-founded definitions

A directory is *grounded* if the body of every definition is built from definitions declared before
it, each with as many inputs as it takes, and uses no variable besides its formal inputs.  In a
grounded directory unfolding succeeds on every formula whose definitions resolve, and it is then an
honest function, `Directory.normal`, that can be computed through the structure of the formula.

The argument has three parts.  Unfolding commutes with substitution as long as the inputs of a
definition are passed on unchanged, and that is an induction on the depth.  So the body of a
definition can be unfolded once and for all with its formal inputs left in place, and the order of
definitions makes this an induction on their positions.  A greater depth never changes a result, so
the depth can be forgotten.

* `Formula.Resolved`: all definitions of a formula resolve with the right number of inputs.
* `Directory.Grounded`: the condition on the definitions.
* `Directory.Grounded.unfold_eq_ok`: unfolding succeeds, and its result is the normal form.
* `Directory.Grounded.normal_definition`, `Directory.Grounded.normal_substitute`: how normal forms are
  computed.
* `Directory.Grounded.compatible_eq_ok`: being compatible is having one normal form.
-/

namespace Deduction

/-! ## Computations that succeed -/

/-- A computation that succeeds, and whose result has a property. -/
def Yields {ε α : Type} (x : Except ε α) (P : α → Prop) : Prop := ∃ a, x = .ok a ∧ P a

section

variable {ε α β : Type} {P : α → Prop} {Q : β → Prop}

theorem bind_eq_ok {x : Except ε α} {f : α → Except ε β} {b : β} :
    (x >>= f) = .ok b ↔ ∃ a, x = .ok a ∧ f a = .ok b := by
  constructor
  · intro h
    cases x with
    | error e => cases h
    | ok a => exact ⟨a, rfl, h⟩
  · rintro ⟨a, rfl, h⟩
    exact h

theorem bind_eq_error {x : Except ε α} {f : α → Except ε β} {e : ε} :
    (x >>= f) = .error e ↔ x = .error e ∨ ∃ a, x = .ok a ∧ f a = .error e := by
  constructor
  · intro h
    cases x with
    | error e' =>
      cases h
      exact Or.inl rfl
    | ok a => exact Or.inr ⟨a, rfl, h⟩
  · rintro (rfl | ⟨a, rfl, h⟩)
    · rfl
    · exact h

theorem map_eq_ok {x : Except ε α} {f : α → β} {b : β} :
    x.map f = .ok b ↔ ∃ a, x = .ok a ∧ f a = b := by
  cases x <;> simp [Except.map]

theorem map_eq_error {x : Except ε α} {f : α → β} {e : ε} :
    x.map f = .error e ↔ x = .error e := by
  cases x <;> simp [Except.map]

theorem Yields.pure {a : α} (h : P a) : Yields (.ok a : Except ε α) P := ⟨a, rfl, h⟩

theorem Yields.bind {x : Except ε α} {f : α → Except ε β} (hx : Yields x P)
    (hf : ∀ a, P a → Yields (f a) Q) : Yields (x >>= f) Q := by
  obtain ⟨a, rfl, ha⟩ := hx
  exact hf a ha

theorem Yields.mono {x : Except ε α} {P' : α → Prop} (hx : Yields x P)
    (h : ∀ a, P a → P' a) : Yields x P' := by
  obtain ⟨a, ha, hP⟩ := hx
  exact ⟨a, ha, h a hP⟩

/-- The property holds of the result that is there. -/
theorem Yields.apply {x : Except ε α} {a : α} (hx : Yields x P) (h : x = .ok a) : P a := by
  obtain ⟨b, hb, hP⟩ := hx
  rw [h] at hb
  cases hb
  exact hP

end

/-! ## Formulas whose definitions resolve -/

namespace Formula

/-- Every definition of the formula resolves and is given as many inputs as it takes. -/
inductive Resolved (D : Directory) : Formula → Prop
  | symbol (ref : Ref) : Resolved D (.symbol ref)
  | var (ref : Ref) : Resolved D (.var ref)
  | app {f x : Formula} : Resolved D f → Resolved D x → Resolved D (.app f x)
  | definition {ref : Ref} {inputs : List Formula} {d : Definition} :
      D.definitionTaking? ref inputs.length = some d → (∀ x ∈ inputs, Resolved D x) →
      Resolved D (.definition ref inputs)

variable {D : Directory}

theorem Resolved.inputs {ref : Ref} {inputs : List Formula}
    (h : Resolved D (.definition ref inputs)) : ∀ x ∈ inputs, Resolved D x := by
  cases h with
  | definition _ hx => exact hx

/-- Substitution keeps definitions resolved. -/
theorem Resolved.substitute {f : Formula} {σ : Ref → Formula} (hf : f.Resolved D)
    (hσ : ∀ ref, (σ ref).Resolved D) : (f.substitute σ).Resolved D := by
  induction hf with
  | symbol ref => exact .symbol ref
  | var ref => exact hσ ref
  | app _ _ ihf ihx => exact .app ihf ihx
  | @definition ref inputs d hd _ ih =>
    rw [Formula.substitute, substituteAll_eq_map]
    refine .definition (d := d) (by rw [List.length_map]; exact hd) fun y hy => ?_
    obtain ⟨x, hx, rfl⟩ := List.mem_map.mp hy
    exact ih x hx

end Formula

namespace Directory

theorem definitionTaking?_eq_some_iff {D : Directory} {ref : Ref} {count : Nat} {d : Definition} :
    D.definitionTaking? ref count = some d ↔
      ∃ n : Nat, ref = n ∧ D.definitions[n]? = some d ∧ d.inputs.length = count := by
  rw [definitionTaking?, Option.filter_eq_some_iff, definition?, itemAt?_eq_some_iff, beq_iff_eq,
    Definition.arity]
  constructor
  · rintro ⟨⟨n, rfl, hn⟩, hc⟩
    exact ⟨n, rfl, hn, hc⟩
  · rintro ⟨n, rfl, hn, hc⟩
    exact ⟨⟨n, rfl, hn⟩, hc⟩

/-- Every definition is built from earlier ones and from its formal inputs. -/
structure Grounded (D : Directory) : Prop where
  resolved : ∀ {n : Nat} {d : Definition}, D.definitions[n]? = some d → d.expansion.Resolved D
  earlier : ∀ {n : Nat} {d : Definition}, D.definitions[n]? = some d →
    ∀ ref ∈ d.expansion.definitionRefs, ref < n
  closed : ∀ {n : Nat} {d : Definition}, D.definitions[n]? = some d →
    ∀ ref ∈ d.expansion.variableRefs, (itemAt? d.inputs ref).isSome

end Directory

/-! ## Unfolding by a given rule -/

namespace Formula

variable {u w : Ref → List Formula → Except ContractError Formula}

/-- Unfolding a list is unfolding its formulas one by one. -/
theorem unfoldAllWith_eq_ok_iff {xs ys : List Formula} :
    unfoldAllWith u xs = .ok ys ↔ List.Forall₂ (fun x y => unfoldWith u x = .ok y) xs ys := by
  induction xs generalizing ys with
  | nil =>
    rw [unfoldAllWith, List.forall₂_nil_left_iff]
    exact ⟨fun h => by cases h; rfl, fun h => by rw [h]⟩
  | cons x xs ih =>
    rw [unfoldAllWith, List.forall₂_cons_left_iff, bind_eq_ok]
    constructor
    · rintro ⟨y, hy, h⟩
      obtain ⟨ys', hys, h⟩ := bind_eq_ok.mp h
      cases h
      exact ⟨y, ys', hy, ih.mp hys, rfl⟩
    · rintro ⟨y, ys', hy, hys, rfl⟩
      exact ⟨y, hy, bind_eq_ok.mpr ⟨ys', ih.mpr hys, rfl⟩⟩

theorem unfoldWith_app_eq_ok_iff {f x g : Formula} :
    unfoldWith u (.app f x) = .ok g ↔
      ∃ f' x', unfoldWith u f = .ok f' ∧ unfoldWith u x = .ok x' ∧ g = .app f' x' := by
  rw [unfoldWith, bind_eq_ok]
  constructor
  · rintro ⟨f', hf, h⟩
    obtain ⟨x', hx, h⟩ := bind_eq_ok.mp h
    cases h
    exact ⟨f', x', hf, hx, rfl⟩
  · rintro ⟨f', x', hf, hx, rfl⟩
    exact ⟨f', hf, bind_eq_ok.mpr ⟨x', hx, rfl⟩⟩

theorem unfoldWith_definition_eq_ok_iff {ref : Ref} {inputs : List Formula} {g : Formula} :
    unfoldWith u (.definition ref inputs) = .ok g ↔
      ∃ xs, List.Forall₂ (fun x y => unfoldWith u x = .ok y) inputs xs ∧ u ref xs = .ok g := by
  rw [unfoldWith, bind_eq_ok]
  simp only [unfoldAllWith_eq_ok_iff]

/-- A rule that succeeds more often gives the same results. -/
theorem unfoldWith_mono (huw : ∀ ref xs g, u ref xs = .ok g → w ref xs = .ok g) {f g : Formula}
    (h : unfoldWith u f = .ok g) : unfoldWith w f = .ok g := by
  induction f using inductionOn generalizing g with
  | symbol | var => exact h
  | app f x hf hx =>
    obtain ⟨f', x', h₁, h₂, rfl⟩ := unfoldWith_app_eq_ok_iff.mp h
    exact unfoldWith_app_eq_ok_iff.mpr ⟨f', x', hf h₁, hx h₂, rfl⟩
  | definition ref inputs ih =>
    obtain ⟨xs, hxs, hg⟩ := unfoldWith_definition_eq_ok_iff.mp h
    refine unfoldWith_definition_eq_ok_iff.mpr ⟨xs, ?_, huw _ _ _ hg⟩
    exact forall₂_imp_of_mem hxs fun x hx _ hxy => ih x hx hxy

/-- A formula in which nothing is left to unfold. -/
def DefinitionFree (f : Formula) : Prop := f.definitionRefs = []

theorem DefinitionFree.app {f x : Formula} (hf : f.DefinitionFree) (hx : x.DefinitionFree) :
    (Formula.app f x).DefinitionFree := by
  rw [DefinitionFree, definitionRefs, hf, hx, List.append_nil]

/-- Nothing changes where nothing is left to unfold. -/
theorem DefinitionFree.unfoldWith_eq {f : Formula} (hf : f.DefinitionFree) :
    unfoldWith u f = .ok f := by
  induction f using inductionOn with
  | symbol | var => rfl
  | app f x ihf ihx =>
    rw [DefinitionFree, definitionRefs, List.append_eq_nil_iff] at hf
    exact unfoldWith_app_eq_ok_iff.mpr ⟨f, x, ihf hf.1, ihx hf.2, rfl⟩
  | definition ref inputs ih => exact absurd hf (List.cons_ne_nil _ _)

/-- If the rule leaves nothing to unfold, neither does unfolding. -/
theorem definitionFree_of_unfoldWith (hu : ∀ ref xs g, u ref xs = .ok g → g.DefinitionFree)
    {f g : Formula} (h : unfoldWith u f = .ok g) : g.DefinitionFree := by
  induction f using inductionOn generalizing g with
  | symbol | var =>
    cases h
    rfl
  | app f x hf hx =>
    obtain ⟨f', x', h₁, h₂, rfl⟩ := unfoldWith_app_eq_ok_iff.mp h
    exact (hf h₁).app (hx h₂)
  | definition ref inputs ih =>
    obtain ⟨xs, _, hg⟩ := unfoldWith_definition_eq_ok_iff.mp h
    exact hu _ _ _ hg

/-- Unfolding commutes with substitution if the rule does, once what is put in has been unfolded
too. -/
theorem unfoldWith_substitute {σ τ : Ref → Formula}
    (hu : ∀ ref xs g, u ref xs = .ok g → u ref (xs.map (substitute τ)) = .ok (g.substitute τ))
    (hσ : ∀ ref, unfoldWith u (σ ref) = .ok (τ ref)) {f g : Formula}
    (h : unfoldWith u f = .ok g) : unfoldWith u (f.substitute σ) = .ok (g.substitute τ) := by
  induction f using inductionOn generalizing g with
  | symbol ref =>
    cases h
    rfl
  | var ref =>
    cases h
    exact hσ ref
  | app f x hf hx =>
    obtain ⟨f', x', h₁, h₂, rfl⟩ := unfoldWith_app_eq_ok_iff.mp h
    exact unfoldWith_app_eq_ok_iff.mpr ⟨_, _, hf h₁, hx h₂, rfl⟩
  | definition ref inputs ih =>
    obtain ⟨xs, hxs, hg⟩ := unfoldWith_definition_eq_ok_iff.mp h
    rw [substitute, substituteAll_eq_map]
    refine unfoldWith_definition_eq_ok_iff.mpr ⟨xs.map (substitute τ), ?_, hu _ _ _ hg⟩
    rw [List.forall₂_map_left_iff, List.forall₂_map_right_iff]
    exact forall₂_imp_of_mem hxs fun x hx _ hxy => ih x hx hxy

end Formula

/-! ## Unfolding in a grounded directory -/

namespace Directory

open Formula

variable {D : Directory}

/-- One step of unfolding puts the inputs into the body. -/
theorem unfoldWithin_succ_eq_ok_iff {n : Nat} {ref : Ref} {inputs : List Formula} {g : Formula} :
    D.unfoldWithin (n + 1) ref inputs = .ok g ↔
      ∃ d, D.definitionTaking? ref inputs.length = some d ∧
        (d.expansion.substitute (inputValues inputs)).unfoldWith (D.unfoldWithin n) = .ok g := by
  rw [unfoldWithin]
  cases h : D.definitionTaking? ref inputs.length with
  | none => simp
  | some d => simp

theorem unfoldWithin_zero_ne_ok {ref : Ref} {inputs : List Formula} {g : Formula} :
    D.unfoldWithin 0 ref inputs ≠ .ok g := by
  rw [unfoldWithin]
  cases D.definitionTaking? ref inputs.length <;> simp

/-- A greater depth gives the same results. -/
theorem unfoldWithin_mono {n m : Nat} (hnm : n ≤ m) {ref : Ref} {inputs : List Formula}
    {g : Formula} (h : D.unfoldWithin n ref inputs = .ok g) :
    D.unfoldWithin m ref inputs = .ok g := by
  induction n generalizing m ref inputs g with
  | zero => exact absurd h unfoldWithin_zero_ne_ok
  | succ n ih =>
    obtain ⟨k, rfl⟩ : ∃ k, m = k + 1 := ⟨m - 1, by omega⟩
    obtain ⟨d, hd, hg⟩ := unfoldWithin_succ_eq_ok_iff.mp h
    refine unfoldWithin_succ_eq_ok_iff.mpr ⟨d, hd, ?_⟩
    exact unfoldWith_mono (fun _ _ _ => ih (by omega)) hg

/-- What unfolding gives has nothing left to unfold. -/
theorem definitionFree_of_unfoldWithin {n : Nat} {ref : Ref} {inputs : List Formula} {g : Formula}
    (h : D.unfoldWithin n ref inputs = .ok g) : g.DefinitionFree := by
  induction n generalizing ref inputs g with
  | zero => exact absurd h unfoldWithin_zero_ne_ok
  | succ n ih =>
    obtain ⟨d, _, hg⟩ := unfoldWithin_succ_eq_ok_iff.mp h
    exact definitionFree_of_unfoldWith (fun _ _ _ => ih) hg

theorem Grounded.isSome_itemAt? (hD : D.Grounded) {ref : Ref} {inputs : List Formula}
    {d : Definition} (hd : D.definitionTaking? ref inputs.length = some d) :
    ∀ v ∈ d.expansion.variableRefs, (itemAt? inputs v).isSome := by
  obtain ⟨n, rfl, hn, hlen⟩ := definitionTaking?_eq_some_iff.mp hd
  intro v hv
  rw [← itemAt?_isSome_of_length hlen]
  exact hD.closed hn v hv

/-- Unfolding a definition commutes with substitution in its inputs. -/
theorem Grounded.unfoldWithin_map (hD : D.Grounded) {τ : Ref → Formula}
    (hτ : ∀ ref, (τ ref).DefinitionFree) {n : Nat} {ref : Ref} {inputs : List Formula} {g : Formula}
    (h : D.unfoldWithin n ref inputs = .ok g) :
    D.unfoldWithin n ref (inputs.map (substitute τ)) = .ok (g.substitute τ) := by
  induction n generalizing ref inputs g with
  | zero => exact absurd h unfoldWithin_zero_ne_ok
  | succ n ih =>
    obtain ⟨d, hd, hg⟩ := unfoldWithin_succ_eq_ok_iff.mp h
    refine unfoldWithin_succ_eq_ok_iff.mpr ⟨d, by rw [List.length_map]; exact hd, ?_⟩
    -- no variable of the body escapes its formal inputs, so `τ` acts on the inputs alone
    rw [substitute_inputValues_map τ (hD.isSome_itemAt? hd)]
    exact unfoldWith_substitute (fun _ _ _ h' => ih h') (fun v => (hτ v).unfoldWith_eq) hg

theorem definitionFree_inputValues {inputs : List Formula}
    (h : ∀ x ∈ inputs, x.DefinitionFree) (ref : Ref) : (inputValues inputs ref).DefinitionFree := by
  rcases inputValues_cases inputs ref with hv | hv
  · exact h _ hv
  · rw [hv]
    rfl

/-- A body can be unfolded with its formal inputs in place before the inputs are put in. -/
theorem Grounded.unfoldWithin_of_body (hD : D.Grounded) {n : Nat} {ref : Ref}
    {inputs : List Formula} {d : Definition} {body : Formula}
    (hd : D.definitionTaking? ref inputs.length = some d) (hx : ∀ x ∈ inputs, x.DefinitionFree)
    (hbody : d.expansion.unfoldWith (D.unfoldWithin n) = .ok body) :
    D.unfoldWithin (n + 1) ref inputs = .ok (body.substitute (inputValues inputs)) := by
  have hfree := definitionFree_inputValues hx
  refine unfoldWithin_succ_eq_ok_iff.mpr ⟨d, hd, ?_⟩
  exact unfoldWith_substitute (fun _ _ _ h => hD.unfoldWithin_map hfree h)
    (fun v => (hfree v).unfoldWith_eq) hbody

/-- A formula over definitions below a depth unfolds within that depth. -/
theorem Grounded.exists_unfoldWith (hD : D.Grounded) {n : Nat} {f : Formula} (hf : f.Resolved D)
    (hn : ∀ ref ∈ f.definitionRefs, ref < n) :
    ∃ g, f.unfoldWith (D.unfoldWithin n) = .ok g := by
  induction n using Nat.strongRecOn generalizing f with
  | ind n ihn =>
    induction hf with
    | symbol ref => exact ⟨_, rfl⟩
    | var ref => exact ⟨_, rfl⟩
    | app _ _ ihf ihx =>
      obtain ⟨f', hf'⟩ := ihf fun ref hr => hn ref (List.mem_append_left _ hr)
      obtain ⟨x', hx'⟩ := ihx fun ref hr => hn ref (List.mem_append_right _ hr)
      exact ⟨_, unfoldWith_app_eq_ok_iff.mpr ⟨f', x', hf', hx', rfl⟩⟩
    | @definition ref inputs d hd _ ih =>
      obtain ⟨ys, hys⟩ := exists_forall₂_of_forall_mem fun x hx => ih x hx fun r hr =>
        hn r (mem_definitionRefs_definition.mpr (Or.inr ⟨x, hx, hr⟩))
      have hfree : ∀ y ∈ ys, y.DefinitionFree := by
        intro y hy
        obtain ⟨x, -, hx⟩ := exists_mem_of_forall₂_of_mem hys hy
        exact definitionFree_of_unfoldWith (fun _ _ _ => definitionFree_of_unfoldWithin) hx
      obtain ⟨k, rfl, hk, -⟩ := definitionTaking?_eq_some_iff.mp hd
      have hkn : (k : Int) < n := hn k (mem_definitionRefs_definition.mpr (Or.inl rfl))
      obtain ⟨m, rfl⟩ : ∃ m, n = m + 1 := ⟨n - 1, by omega⟩
      obtain ⟨body, hbody⟩ := ihn m (Nat.lt_succ_self m) (hD.resolved hk) fun r hr =>
        Int.lt_of_lt_of_le (hD.earlier hk r hr) (by omega)
      rw [hys.length_eq] at hd
      exact ⟨body.substitute (inputValues ys), unfoldWith_definition_eq_ok_iff.mpr
        ⟨ys, hys, hD.unfoldWithin_of_body hd hfree hbody⟩⟩

/-! ## Normal forms -/

/-- The formula with every definition unfolded, where that succeeds. -/
def normal (D : Directory) (f : Formula) : Formula :=
  match D.unfold f with
  | .ok g => g
  | .error _ => f

theorem normal_of_unfold {f g : Formula} (h : D.unfold f = .ok g) : D.normal f = g := by
  rw [normal, h]

theorem lt_length_of_resolved {f : Formula} (hf : f.Resolved D) :
    ∀ ref ∈ f.definitionRefs, ref < D.definitions.length := by
  induction hf with
  | symbol | var => simp [definitionRefs]
  | app _ _ ihf ihx =>
    intro ref hr
    exact (List.mem_append.mp hr).elim (ihf ref) (ihx ref)
  | definition hd _ ih =>
    intro r hr
    rcases mem_definitionRefs_definition.mp hr with rfl | ⟨x, hx, hr⟩
    · obtain ⟨n, rfl, hn, -⟩ := definitionTaking?_eq_some_iff.mp hd
      exact Int.ofNat_lt.mpr (List.getElem?_eq_some_iff.mp hn).1
    · exact ih x hx r hr

/-- **Unfolding succeeds** on every formula whose definitions resolve. -/
theorem Grounded.unfold_eq_ok (hD : D.Grounded) {f : Formula} (hf : f.Resolved D) :
    D.unfold f = .ok (D.normal f) := by
  obtain ⟨g, hg⟩ := hD.exists_unfoldWith hf (lt_length_of_resolved hf)
  rw [normal_of_unfold hg]
  exact hg

theorem Grounded.definitionFree_normal (hD : D.Grounded) {f : Formula} (hf : f.Resolved D) :
    (D.normal f).DefinitionFree :=
  definitionFree_of_unfoldWith (fun _ _ _ => definitionFree_of_unfoldWithin) (hD.unfold_eq_ok hf)

@[simp] theorem normal_symbol (ref : Ref) : D.normal (.symbol ref) = .symbol ref := rfl

@[simp] theorem normal_var (ref : Ref) : D.normal (.var ref) = .var ref := rfl

theorem Grounded.normal_app (hD : D.Grounded) {f x : Formula} (hf : f.Resolved D)
    (hx : x.Resolved D) : D.normal (.app f x) = .app (D.normal f) (D.normal x) :=
  normal_of_unfold (unfoldWith_app_eq_ok_iff.mpr
    ⟨_, _, hD.unfold_eq_ok hf, hD.unfold_eq_ok hx, rfl⟩)

/-- **Normal forms commute with substitution.** -/
theorem Grounded.normal_substitute (hD : D.Grounded) {f : Formula} {σ : Ref → Formula}
    (hf : f.Resolved D) (hσ : ∀ ref, (σ ref).Resolved D) :
    D.normal (f.substitute σ) = (D.normal f).substitute fun ref => D.normal (σ ref) := by
  refine normal_of_unfold (unfoldWith_substitute (fun _ _ _ h => ?_)
    (fun ref => hD.unfold_eq_ok (hσ ref)) (hD.unfold_eq_ok hf))
  exact hD.unfoldWithin_map (fun ref => hD.definitionFree_normal (hσ ref)) h

theorem Grounded.unfold_inputs (hD : D.Grounded) {inputs : List Formula}
    (hx : ∀ x ∈ inputs, x.Resolved D) :
    List.Forall₂ (fun x y => D.unfold x = .ok y) inputs (inputs.map D.normal) := by
  rw [List.forall₂_map_right_iff, List.forall₂_same]
  exact fun x hmem => hD.unfold_eq_ok (hx x hmem)

/-- The normal form of a definition is that of its body with the normal forms of the inputs put
in. -/
theorem Grounded.normal_definition (hD : D.Grounded) {ref : Ref} {inputs : List Formula}
    {d : Definition} (hd : D.definitionTaking? ref inputs.length = some d)
    (hx : ∀ x ∈ inputs, x.Resolved D) :
    D.normal (.definition ref inputs) =
      (D.normal d.expansion).substitute (inputValues (inputs.map D.normal)) := by
  obtain ⟨n, rfl, hn, -⟩ := definitionTaking?_eq_some_iff.mp hd
  have hlt : n < D.definitions.length := (List.getElem?_eq_some_iff.mp hn).1
  obtain ⟨depth, hdepth⟩ : ∃ depth, D.definitions.length = depth + 1 :=
    ⟨D.definitions.length - 1, by omega⟩
  obtain ⟨body, hbody⟩ := hD.exists_unfoldWith (n := depth) (hD.resolved hn) fun r hr =>
    Int.lt_of_lt_of_le (hD.earlier hn r hr) (by omega)
  -- one level less of depth gives the same body
  have hnormal : D.normal d.expansion = body := by
    refine normal_of_unfold (unfoldWith_mono (fun _ _ _ h => ?_) hbody)
    exact unfoldWithin_mono (by omega) h
  have hfree : ∀ y ∈ inputs.map D.normal, y.DefinitionFree := by
    intro y hy
    obtain ⟨x, hmem, rfl⟩ := List.mem_map.mp hy
    exact hD.definitionFree_normal (hx x hmem)
  rw [← List.length_map D.normal] at hd
  refine normal_of_unfold (unfoldWith_definition_eq_ok_iff.mpr ⟨_, hD.unfold_inputs hx, ?_⟩)
  rw [hdepth, hnormal]
  exact hD.unfoldWithin_of_body hd hfree hbody

/-! ## Compatible formulas -/

/-- Only the definitions matter for which formulas are compatible. -/
theorem compatible_congr {D' : Directory} (h : D'.definitions = D.definitions) (f g : Formula) :
    D'.compatible f g = D.compatible f g := by
  have htaking : D'.definitionTaking? = D.definitionTaking? := by
    funext ref count
    rw [definitionTaking?, definition?, h]
    rfl
  have hwithin : ∀ n, D'.unfoldWithin n = D.unfoldWithin n := by
    intro n
    funext ref inputs
    induction n generalizing ref inputs with
    | zero => rw [unfoldWithin, unfoldWithin, htaking]
    | succ n ih =>
      have hrec : D'.unfoldWithin n = D.unfoldWithin n := funext fun r => funext fun xs => ih r xs
      rw [unfoldWithin, unfoldWithin, htaking, hrec]
  rw [compatible, compatible, unfold, unfold, unfold, unfold, hwithin, h]

/-- **Two formulas are compatible exactly if they have the same normal form.** -/
theorem Grounded.compatible_eq_ok (hD : D.Grounded) {f g : Formula} (hf : f.Resolved D)
    (hg : g.Resolved D) : D.compatible f g = .ok (decide (D.normal f = D.normal g)) := by
  rw [compatible]
  split
  · next h =>
    subst h
    rw [decide_eq_true rfl]
  · rw [hD.unfold_eq_ok hf, hD.unfold_eq_ok hg]
    rfl

theorem Grounded.compatible_iff (hD : D.Grounded) {f g : Formula} (hf : f.Resolved D)
    (hg : g.Resolved D) : D.compatible f g = .ok true ↔ D.normal f = D.normal g := by
  rw [hD.compatible_eq_ok hf hg, Except.ok.injEq, decide_eq_true_eq]

end Directory

end Deduction
