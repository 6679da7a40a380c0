import Deduction.Proofs.Matching
import Deduction.Proofs.Typing.Faults

/-!
# Bindings are put in all at once

What is put in for a variable may contain variables that are bound themselves, even the same one.
It is not looked at again: all bound variables are replaced at once.  So two bindings can exchange
two variables, which replacing them one after the other does not, in either order.

Whoever composes bindings, or leaves out those that a formula does not need, relies on three facts.

* `Formula.mem_nodes_substitute_iff`: where the nodes of the result come from.  A node is one of the
  formula, with its own variables replaced, or it is one of a formula that was put in, and stands
  there as it was bound.
* `Bindings.andThen`: two sets of bindings, one after the other, are a single one.
* `Formula.substitute_eq_substitute_iff`: two substitutions have the same effect on a formula
  exactly if they replace its variables by the same formulas.  A variable that is not bound is
  replaced by itself.
-/

namespace Deduction

namespace Formula

variable {σ τ : Ref → Formula} {f : Formula}

/-! ## Where the nodes of the result come from -/

/-- A node of the formula that a substitution makes, by where it comes from. -/
inductive Placed (σ : Ref → Formula) (f : Formula) : Position → Formula → Prop
  /-- A node of the formula itself, with its variables replaced. -/
  | kept {p : Position} {node : Formula} : (p, node) ∈ f.nodes → Placed σ f p (node.substitute σ)
  /-- A node of what is put in for a variable, behind the place of the variable. -/
  | inserted {p q : Position} {v : Ref} {node : Formula} : (p, var v) ∈ f.nodes →
      (q, node) ∈ (σ v).nodes → Placed σ f (p ++ q) node

/-- What is placed in a part is placed in the whole. -/
theorem Placed.of_part {p q : Position} {part node : Formula} (h : Placed σ part q node)
    (hpart : (p, part) ∈ f.nodes) : Placed σ f (p ++ q) node := by
  cases h with
  | kept hnode => exact .kept (mem_nodes_trans hpart hnode)
  | inserted hv hnode =>
    rw [← List.append_assoc]
    exact .inserted (mem_nodes_trans hpart hv) hnode

/-- Every node stays where it is. -/
theorem mem_nodes_substitute {p : Position} {node : Formula} (h : (p, node) ∈ f.nodes) :
    (p, node.substitute σ) ∈ (f.substitute σ).nodes := by
  induction f using inductionOn generalizing p with
  | symbol ref =>
    cases List.mem_singleton.mp h
    exact root_mem_nodes _
  | var ref =>
    cases List.mem_singleton.mp h
    exact root_mem_nodes _
  | app g x hg hx =>
    rw [substitute]
    rcases mem_nodes_app_iff.mp h with ⟨rfl, rfl⟩ | ⟨q, rfl, hq⟩ | ⟨q, rfl, hq⟩
    · exact root_mem_nodes _
    · exact mem_nodes_app_iff.mpr (Or.inr (Or.inl ⟨q, rfl, hg hq⟩))
    · exact mem_nodes_app_iff.mpr (Or.inr (Or.inr ⟨q, rfl, hx hq⟩))
  | definition ref inputs ih =>
    rcases mem_nodes_definition_iff.mp h with ⟨rfl, rfl⟩ | ⟨n, x, q, hx, rfl, hq⟩
    · exact root_mem_nodes _
    · rw [substitute, substituteAll_eq_map]
      refine mem_nodes_definition_iff.mpr (Or.inr ⟨n, _, q, ?_, rfl,
        ih x (List.mem_of_getElem? hx) hq⟩)
      rw [List.getElem?_map, hx, Option.map_some]

theorem placed_of_mem_nodes {p : Position} {node : Formula}
    (h : (p, node) ∈ (f.substitute σ).nodes) : Placed σ f p node := by
  induction f using inductionOn generalizing p with
  | symbol ref =>
    cases List.mem_singleton.mp h
    exact .kept (root_mem_nodes _)
  | var ref => exact .inserted (root_mem_nodes _) h
  | app g x hg hx =>
    rw [substitute] at h
    -- a node below the root is placed in a part, and the part is itself a node of the formula
    rcases mem_nodes_app_iff.mp h with ⟨rfl, rfl⟩ | ⟨q, rfl, hq⟩ | ⟨q, rfl, hq⟩
    · exact .kept (root_mem_nodes (app g x))
    · have hpart : ([.function], g) ∈ (app g x).nodes :=
        mem_nodes_app_iff.mpr (Or.inr (Or.inl ⟨[], rfl, root_mem_nodes _⟩))
      exact (hg hq).of_part hpart
    · have hpart : ([.argument], x) ∈ (app g x).nodes :=
        mem_nodes_app_iff.mpr (Or.inr (Or.inr ⟨[], rfl, root_mem_nodes _⟩))
      exact (hx hq).of_part hpart
  | definition ref inputs ih =>
    rw [substitute, substituteAll_eq_map] at h
    rcases mem_nodes_definition_iff.mp h with ⟨rfl, rfl⟩ | ⟨n, y, q, hy, rfl, hq⟩
    · rw [← substituteAll_eq_map, ← substitute]
      exact .kept (root_mem_nodes (definition ref inputs))
    · rw [List.getElem?_map, Option.map_eq_some_iff] at hy
      obtain ⟨x, hx, rfl⟩ := hy
      have hpart : ([.input n], x) ∈ (definition ref inputs).nodes :=
        mem_nodes_definition_iff.mpr (Or.inr ⟨n, x, [], hx, rfl, root_mem_nodes _⟩)
      exact (ih x (List.mem_of_getElem? hx) hq).of_part hpart

/-- **The nodes of the result** are those of the formula, and behind its variables those of what is
put in, in which nothing is replaced. -/
theorem mem_nodes_substitute_iff {p : Position} {node : Formula} :
    (p, node) ∈ (f.substitute σ).nodes ↔ Placed σ f p node := by
  refine ⟨placed_of_mem_nodes, fun h => ?_⟩
  cases h with
  | kept hnode => exact mem_nodes_substitute hnode
  | inserted hv hnode => exact mem_nodes_trans (mem_nodes_substitute hv) hnode

/-! ## Which substitutions have the same effect -/

/-- **Two substitutions that have the same effect** put in the same for every variable of the
formula. -/
theorem substitute_eq_substitute_iff :
    f.substitute σ = f.substitute τ ↔ ∀ ref ∈ f.variableRefs, σ ref = τ ref := by
  refine ⟨fun h => ?_, substitute_congr⟩
  induction f using inductionOn with
  | symbol ref => exact List.forall_mem_nil _
  | var ref => exact List.forall_mem_singleton.mpr h
  | app g x hg hx =>
    rw [substitute, substitute, app.injEq] at h
    exact List.forall_mem_append.mpr ⟨hg h.1, hx h.2⟩
  | definition ref inputs ih =>
    simp only [substitute, substituteAll_eq_map, definition.injEq, true_and] at h
    intro v hv
    obtain ⟨x, hx, hv⟩ := mem_variableRefs_definition.mp hv
    exact ih x hx (List.map_inj_left.mp h x hx) v hv

end Formula

/-! ## One set of bindings after another -/

namespace Bindings

open Formula

/-- The bindings that do what `b` and then `c` does: those of `b` with `c` put in, and those of the
other variables that `c` binds. -/
def andThen (b c : Bindings) : Bindings :=
  ⟨b.entries.map (fun e => (e.1, c.apply e.2)) ++
    c.entries.filter fun e => (b.get? e.1).isNone⟩

theorem get?_andThen (b c : Bindings) (ref : Ref) :
    (b.andThen c).get? ref = ((b.get? ref).map c.apply).or (c.get? ref) := by
  have hfirst := lookup_map_value (fun _ => c.apply) b.entries ref
  have hsecond := lookup_filter_key (fun key => (b.get? key).isNone) c.entries ref
  rw [get?, andThen, List.lookup_append, hfirst, hsecond]
  rw [show b.entries.lookup ref = b.get? ref from rfl,
    show c.entries.lookup ref = c.get? ref from rfl]
  cases b.get? ref with
  | none => simp
  | some g => rfl

/-- A variable is replaced by what the first bindings put in for it, with the second put in
there. -/
theorem image_andThen (b c : Bindings) (ref : Ref) :
    (b.andThen c).image ref = c.apply (b.image ref) := by
  rw [image, get?_andThen, image]
  cases b.get? ref with
  | none => rfl
  | some g => rfl

/-- **Bindings are put in all at once**, into any formula.  What is put in is not looked at again;
one set of bindings after another is a single one, which binds the variables of the first to what
they were bound to with the second put in, and the other variables of the second as the second does;
and two sets of bindings have the same effect exactly if every variable of the formula is replaced
by the same formula, itself if it is not bound. -/
theorem apply_simultaneous (b c : Bindings) :
    (∀ ref, (b.andThen c).get? ref = ((b.get? ref).map c.apply).or (c.get? ref)) ∧
      ∀ f : Formula,
        (∀ p node, (p, node) ∈ (b.apply f).nodes ↔ Placed b.image f p node) ∧
        c.apply (b.apply f) = (b.andThen c).apply f ∧
        (b.apply f = c.apply f ↔
          ∀ ref ∈ f.variableRefs, (b.get? ref).getD (.var ref) = (c.get? ref).getD (.var ref)) := by
  refine ⟨get?_andThen b c, fun f => ⟨fun p node => mem_nodes_substitute_iff, ?_,
    substitute_eq_substitute_iff⟩⟩
  calc c.apply (b.apply f)
      = f.substitute fun ref => c.apply (b.image ref) := substitute_substitute ..
    _ = (b.andThen c).apply f := by rw [apply, funext (b.image_andThen c)]

/-- Two variables are exchanged at once, but not one after the other. -/
example :
    (⟨[(0, .var 1), (1, .var 0)]⟩ : Bindings).apply (.definition 0 [.var 0, .var 1]) =
      .definition 0 [.var 1, .var 0] ∧
    (⟨[(1, .var 0)]⟩ : Bindings).apply
        ((⟨[(0, .var 1)]⟩ : Bindings).apply (.definition 0 [.var 0, .var 1])) =
      .definition 0 [.var 0, .var 0] := by
  decide

end Bindings

end Deduction
