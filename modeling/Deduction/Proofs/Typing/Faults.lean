import Deduction.Proofs.Typing.Queries
import Mathlib.Data.List.Nodup

/-!
# Where faults are found

The pass over a formula goes on after a fault, and what it reports has to be useful to somebody who
looks at all of it.  Every fault is at a node of the formula, no two of them are at one node, and a
node above a fault is not blamed for what is wrong below it.

What a node is blamed for depends on the node and on the signatures of its parts, as the typing rules
give them.  Mostly a node blames itself; where a part has a signature that does not fit, the node
blames that part.  `Formula.NodeFault` says this for a single node, with one rule for every kind of
fault, and a formula has the faults of its nodes (`Formula.FaultAt`).  A part that is blamed by the
node above it has a signature, so it has no fault of its own, and this is why a place is never blamed
twice.

Faults are shown by their paths.  A path is the text of a position behind a base, and positions can
be read back from it: no part of a path contains the point that stands between the parts.

* `Formula.Position.text_injective`, `pathBehind_injective`: paths tell positions apart.
* `Formula.mem_nodes_trans`: nodes of nodes are nodes.
* `Formula.NodeFault`, `Formula.FaultAt`: what is wrong with a node, and with a formula.
* `Directory.mem_faults_iff_faultAt`: the pass finds exactly these faults.
* `Formula.nodup_positions`: no place is blamed twice.
* `Directory.faults_located`: all of it together, for paths.
-/

namespace Deduction

/-! ## Paths -/

/-- A path behind a base, with a point between the two.  If one of them is empty the other one is left,
and if both are there is no path. -/
def pathBehind (base path : String) : Option String :=
  if base = "" then if path = "" then none else some path
  else if path = "" then some base else some (base ++ "." ++ path)

/-- Behind one base, different paths stay different. -/
theorem pathBehind_injective (base : String) : Function.Injective (pathBehind base) := by
  intro path path' h
  unfold pathBehind at h
  by_cases hbase : base = ""
  · rw [if_pos hbase, if_pos hbase] at h
    split at h <;> split at h <;> simp_all
  · have hlonger : ∀ text : String, base ≠ base ++ "." ++ text := by
      intro text heq
      have hlength := congrArg String.length heq
      simp only [String.length_append] at hlength
      have hpoint : ".".length = 1 := rfl
      omega
    rw [if_neg hbase, if_neg hbase] at h
    split at h <;> split at h
    · simp_all
    · exact absurd (Option.some.inj h) (hlonger path')
    · exact absurd (Option.some.inj h).symm (hlonger path)
    · simpa [String.ext_iff] using h

namespace Formula

namespace Branch

theorem toList_text_input (n : Nat) :
    (input n).text.toList = "inputs[".toList ++ (Nat.toDigits 10 n ++ [']']) := by
  simp [text, toString]

/-- A part of a path holds no point. -/
theorem point_notMem_text (b : Branch) : '.' ∉ b.text.toList := by
  cases b with
  | function => decide
  | argument => decide
  | input n =>
    rw [toList_text_input, List.mem_append, List.mem_append, not_or, not_or]
    refine ⟨by decide, fun h => ?_, by decide⟩
    exact absurd (Nat.isDigit_of_mem_toDigits (by decide) (by decide) h) (by decide)

/-- The three kinds of parts begin with different letters. -/
theorem text_injective : Function.Injective fun b : Branch => b.text.toList := by
  have hfunction : function.text.toList = "function".toList := rfl
  have hargument : argument.text.toList = "argument".toList := rfl
  intro b b' h
  cases b <;> cases b' <;> dsimp only at h
  case function.function | argument.argument => rfl
  case input.input n m =>
    rw [toList_text_input, toList_text_input] at h
    have hdigits := (List.append_left_inj _).mp (List.append_cancel_left h)
    rw [← Nat.ofDigitChars_ten_toDigits (n := n), hdigits, Nat.ofDigitChars_ten_toDigits]
  all_goals simp [hfunction, hargument, toList_text_input] at h

end Branch

namespace Position

theorem toList_text (p : Position) :
    (p.text "").toList = ['.'].intercalate (p.map fun b => b.text.toList) := by
  simp [text, String.toList_intercalate, List.map_map, Function.comp_def]

/-- Cutting the text of a position at the points gives the texts of its parts. -/
theorem splitOn_text {p : Position} (hp : p ≠ []) :
    (p.text "").toList.splitOn '.' = p.map fun b => b.text.toList := by
  rw [toList_text, List.splitOn_intercalate]
  · intro part hpart
    obtain ⟨b, -, rfl⟩ := List.mem_map.mp hpart
    exact b.point_notMem_text
  · simpa using hp

theorem text_eq_empty_iff {p : Position} : p.text "" = "" ↔ p = [] := by
  constructor
  · intro h
    cases p with
    | nil => rfl
    | cons b p =>
      -- an empty text is cut into one part, which is empty
      have hparts := splitOn_text (List.cons_ne_nil b p)
      rw [h] at hparts
      have hempty : b.text.toList = [] := (List.cons.inj hparts).1.symm
      cases b <;> simp [Branch.text] at hempty
  · rintro rfl
    rfl

/-- A position is read back from its text. -/
theorem text_injective : Function.Injective (Position.text "") := by
  intro p q h
  by_cases hp : p = []
  · rw [hp, eq_comm, ← text_eq_empty_iff, ← h]
    exact text_eq_empty_iff.mpr hp
  · have hq : q ≠ [] := fun hq => hp (text_eq_empty_iff.mp (h.trans (text_eq_empty_iff.mpr hq)))
    refine List.map_injective_iff.mpr Branch.text_injective ?_
    rw [← splitOn_text hp, ← splitOn_text hq, h]

end Position

end Formula

/-- A fault is located by the path of its position behind the base. -/
theorem Directory.path_locate (base : String) (p : Formula.Position) (kind : ErrorKind) :
    (locate base (p, kind)).path = pathBehind base (p.text "") := by
  have hlocate : (locate base (p, kind)).path =
      if p.text base = "" then none else some (p.text base) := by
    simp only [locate, String.isEmpty_iff]
  rw [hlocate, pathBehind]
  by_cases hbase : base = ""
  · rw [if_pos hbase, hbase]
  · have htext : p.text base = ".".intercalate (base :: p.map Formula.Branch.text) := by
      simp [Formula.Position.text, hbase]
    rw [if_neg hbase]
    by_cases hp : p = []
    · rw [htext, hp]
      simp [hbase, Formula.Position.text]
    · have hbehind : p.text base = base ++ "." ++ p.text "" := by
        rw [htext, String.intercalate_cons_of_ne_nil (by simpa using hp)]
        simp [Formula.Position.text]
      rw [if_neg (mt Formula.Position.text_eq_empty_iff.mp hp), if_neg, hbehind]
      rw [hbehind]
      simp [String.append_eq_empty_iff]

theorem Directory.locate_eq (base : String) (p : Formula.Position) (kind : ErrorKind) :
    locate base (p, kind) = ⟨kind, pathBehind base (p.text "")⟩ := by
  rw [← path_locate base p kind]
  rfl

/-- Behind one base, different faults stay different. -/
theorem Directory.locate_injective (base : String) : Function.Injective (locate base) := by
  rintro ⟨p, kind⟩ ⟨q, kind'⟩ h
  rw [locate_eq, locate_eq, Fault.mk.injEq] at h
  rw [h.1, Formula.Position.text_injective (pathBehind_injective base h.2)]

/-! ## Nodes -/

namespace Formula

variable {p q : Position} {f x node other : Formula}

theorem root_mem_nodes (f : Formula) : ([], f) ∈ f.nodes := by
  cases f <;> simp [nodes]

theorem mem_nodes_app_iff {g : Formula} : (p, node) ∈ (app g x).nodes ↔
    (p = [] ∧ node = app g x) ∨ (∃ q, p = .function :: q ∧ (q, node) ∈ g.nodes) ∨
      ∃ q, p = .argument :: q ∧ (q, node) ∈ x.nodes := by
  simp only [nodes, List.mem_cons, List.mem_append, List.mem_map, Prod.mk.injEq, Prod.exists]
  grind

theorem mem_nodesFrom_iff {inputs : List Formula} {index : Nat} :
    (p, node) ∈ nodesFrom index inputs ↔
      ∃ n x q, inputs[n]? = some x ∧ p = .input (index + n) :: q ∧ (q, node) ∈ x.nodes := by
  induction inputs generalizing index with
  | nil => simp [nodesFrom]
  | cons x inputs ih =>
    rw [nodesFrom, List.mem_append, ih, List.mem_map]
    constructor
    · rintro (⟨⟨q, node'⟩, hmem, heq⟩ | ⟨n, y, q, hy, rfl, hmem⟩)
      · cases heq
        exact ⟨0, x, q, rfl, rfl, hmem⟩
      · exact ⟨n + 1, y, q, hy, by rw [Nat.add_right_comm, Nat.add_assoc], hmem⟩
    · rintro ⟨n, y, q, hy, rfl, hmem⟩
      cases n with
      | zero =>
        cases hy
        exact Or.inl ⟨(q, node), hmem, rfl⟩
      | succ n => exact Or.inr ⟨n, y, q, hy, by rw [Nat.add_right_comm, Nat.add_assoc], hmem⟩

theorem mem_nodes_definition_iff {ref : Ref} {inputs : List Formula} :
    (p, node) ∈ (definition ref inputs).nodes ↔ (p = [] ∧ node = definition ref inputs) ∨
      ∃ n x q, inputs[n]? = some x ∧ p = .input n :: q ∧ (q, node) ∈ x.nodes := by
  rw [nodes, List.mem_cons, mem_nodesFrom_iff, Prod.mk.injEq]
  simp only [Nat.zero_add]

/-- **The nodes of a node are nodes.** -/
theorem mem_nodes_trans (h : (p, node) ∈ f.nodes) (h' : (q, other) ∈ node.nodes) :
    (p ++ q, other) ∈ f.nodes := by
  induction f using inductionOn generalizing p with
  | symbol ref =>
    cases List.mem_singleton.mp h
    exact h'
  | var ref =>
    cases List.mem_singleton.mp h
    exact h'
  | app g x hg hx =>
    rcases mem_nodes_app_iff.mp h with ⟨rfl, rfl⟩ | ⟨p, rfl, hmem⟩ | ⟨p, rfl, hmem⟩
    · exact h'
    · exact mem_nodes_app_iff.mpr (Or.inr (Or.inl ⟨p ++ q, rfl, hg hmem⟩))
    · exact mem_nodes_app_iff.mpr (Or.inr (Or.inr ⟨p ++ q, rfl, hx hmem⟩))
  | definition ref inputs ih =>
    rcases mem_nodes_definition_iff.mp h with ⟨rfl, rfl⟩ | ⟨n, x, p, hx, rfl, hmem⟩
    · exact h'
    · refine mem_nodes_definition_iff.mpr (Or.inr ⟨n, x, p ++ q, hx, rfl, ?_⟩)
      exact ih x (List.mem_of_getElem? hx) hmem

/-- The definitions of a formula are those of its nodes. -/
theorem exists_mem_nodes_of_mem_definitionRefs {ref : Ref} (h : ref ∈ f.definitionRefs) :
    ∃ p inputs, (p, definition ref inputs) ∈ f.nodes := by
  induction f using inductionOn with
  | symbol | var => cases h
  | app g x hg hx =>
    rcases List.mem_append.mp h with h | h
    · obtain ⟨p, inputs, hmem⟩ := hg h
      exact ⟨_, inputs, mem_nodes_app_iff.mpr (Or.inr (Or.inl ⟨p, rfl, hmem⟩))⟩
    · obtain ⟨p, inputs, hmem⟩ := hx h
      exact ⟨_, inputs, mem_nodes_app_iff.mpr (Or.inr (Or.inr ⟨p, rfl, hmem⟩))⟩
  | definition r inputs ih =>
    rcases mem_definitionRefs_definition.mp h with rfl | ⟨x, hx, h⟩
    · exact ⟨[], inputs, root_mem_nodes _⟩
    · obtain ⟨p, others, hmem⟩ := ih x hx h
      obtain ⟨n, hn⟩ := List.mem_iff_getElem?.mp hx
      exact ⟨_, others, mem_nodes_definition_iff.mpr (Or.inr ⟨n, x, p, hn, rfl, hmem⟩)⟩

/-! ## What a node is blamed for -/

/-- What a node finds wrong with itself or with one of its parts, and where it is seen from there.  The
parts are known by the signatures that the rules give them. -/
inductive NodeFault (D : Directory) (scope : List Variable) (limit : Option Ref) :
    Formula → Position → ErrorKind → Prop
  | symbol {ref : Ref} : D.symbol? ref = none →
      NodeFault D scope limit (.symbol ref) [] .invalidSymbolRef
  | var {ref : Ref} : itemAt? scope ref = none →
      NodeFault D scope limit (.var ref) [] .invalidVariableRef
  | unresolved {ref : Ref} {inputs : List Formula} : D.definition? ref = none →
      NodeFault D scope limit (.definition ref inputs) [] .invalidDefinitionRef
  | forward {ref l : Ref} {inputs : List Formula} {d : Definition} :
      D.definition? ref = some d → limit = some l → l ≤ ref →
      NodeFault D scope limit (.definition ref inputs) [] .definitionForwardReference
  | arity {ref : Ref} {inputs : List Formula} {d : Definition} :
      D.definition? ref = some d → (∀ l ∈ limit, ref < l) → inputs.length ≠ d.inputs.length →
      NodeFault D scope limit (.definition ref inputs) [] .definitionWrongArity
  | notFunction {g x : Formula} {type : Ref} {t : Signature} :
      g.HasSignature D scope limit (.ground type) → x.HasSignature D scope limit t →
      NodeFault D scope limit (.app g x) [] .applicationNotFunction
  | argument {g x : Formula} {input output t : Signature} :
      g.HasSignature D scope limit (.arrow input output) → x.HasSignature D scope limit t →
      input ≠ t → NodeFault D scope limit (.app g x) [.argument] .applicationTypeMismatch
  | input {ref : Ref} {inputs : List Formula} {d : Definition} {n : Nat} {formal : Variable}
      {x : Formula} {t : Signature} :
      D.definition? ref = some d → (∀ l ∈ limit, ref < l) → inputs.length = d.inputs.length →
      d.inputs[n]? = some formal → inputs[n]? = some x → x.HasSignature D scope limit t →
      t ≠ formal.signature →
      NodeFault D scope limit (.definition ref inputs) [.input n] .definitionInputTypeMismatch

/-- A place of a formula that one of its nodes blames. -/
def FaultAt (D : Directory) (scope : List Variable) (limit : Option Ref) (f : Formula)
    (p : Position) (kind : ErrorKind) : Prop :=
  ∃ q node r, (q, node) ∈ f.nodes ∧ NodeFault D scope limit node r kind ∧ p = q ++ r

section

variable {D : Directory} {scope : List Variable} {limit : Option Ref} {kind : ErrorKind}

/-- A blamed place is a node. -/
theorem NodeFault.exists_mem_nodes (h : NodeFault D scope limit node q kind) :
    ∃ other, (q, other) ∈ node.nodes := by
  cases h with
  | symbol | var | unresolved | forward | arity | notFunction => exact ⟨_, root_mem_nodes _⟩
  | argument => exact ⟨_, mem_nodes_app_iff.mpr (Or.inr (Or.inr ⟨[], rfl, root_mem_nodes _⟩))⟩
  | input _ _ _ _ hx =>
    exact ⟨_, mem_nodes_definition_iff.mpr (Or.inr ⟨_, _, [], hx, rfl, root_mem_nodes _⟩)⟩

theorem FaultAt.exists_mem_nodes (h : FaultAt D scope limit f p kind) :
    ∃ node, (p, node) ∈ f.nodes := by
  obtain ⟨q, node, r, hmem, hnode, rfl⟩ := h
  obtain ⟨other, hother⟩ := hnode.exists_mem_nodes
  exact ⟨other, mem_nodes_trans hmem hother⟩

theorem faultAt_symbol_iff {ref : Ref} :
    FaultAt D scope limit (.symbol ref) p kind ↔ NodeFault D scope limit (.symbol ref) p kind := by
  simp [FaultAt, nodes]

theorem faultAt_var_iff {ref : Ref} :
    FaultAt D scope limit (.var ref) p kind ↔ NodeFault D scope limit (.var ref) p kind := by
  simp [FaultAt, nodes]

/-- An application is blamed at its root or where its parts are. -/
theorem faultAt_app_iff {g : Formula} : FaultAt D scope limit (app g x) p kind ↔
    NodeFault D scope limit (app g x) p kind ∨
      (∃ q, p = .function :: q ∧ FaultAt D scope limit g q kind) ∨
      ∃ q, p = .argument :: q ∧ FaultAt D scope limit x q kind := by
  constructor
  · rintro ⟨q, node, r, hmem, hnode, rfl⟩
    rcases mem_nodes_app_iff.mp hmem with ⟨rfl, rfl⟩ | ⟨q, rfl, hpart⟩ | ⟨q, rfl, hpart⟩
    · exact Or.inl hnode
    · exact Or.inr (Or.inl ⟨q ++ r, rfl, q, node, r, hpart, hnode, rfl⟩)
    · exact Or.inr (Or.inr ⟨q ++ r, rfl, q, node, r, hpart, hnode, rfl⟩)
  · rintro (hnode | ⟨_, rfl, q, node, r, hmem, hnode, rfl⟩ |
      ⟨_, rfl, q, node, r, hmem, hnode, rfl⟩)
    · exact ⟨[], _, p, root_mem_nodes _, hnode, rfl⟩
    · exact ⟨_, node, r, mem_nodes_app_iff.mpr (Or.inr (Or.inl ⟨q, rfl, hmem⟩)), hnode, rfl⟩
    · exact ⟨_, node, r, mem_nodes_app_iff.mpr (Or.inr (Or.inr ⟨q, rfl, hmem⟩)), hnode, rfl⟩

/-- A definition is blamed at its root, at an input that does not fit, or inside an input. -/
theorem faultAt_definition_iff {ref : Ref} {inputs : List Formula} :
    FaultAt D scope limit (definition ref inputs) p kind ↔
      NodeFault D scope limit (definition ref inputs) p kind ∨
      ∃ n x q, inputs[n]? = some x ∧ p = .input n :: q ∧ FaultAt D scope limit x q kind := by
  constructor
  · rintro ⟨q, node, r, hmem, hnode, rfl⟩
    rcases mem_nodes_definition_iff.mp hmem with ⟨rfl, rfl⟩ | ⟨n, x, q, hx, rfl, hpart⟩
    · exact Or.inl hnode
    · exact Or.inr ⟨n, x, q ++ r, hx, rfl, q, node, r, hpart, hnode, rfl⟩
  · rintro (hnode | ⟨n, x, _, hx, rfl, q, node, r, hmem, hnode, rfl⟩)
    · exact ⟨[], _, p, root_mem_nodes _, hnode, rfl⟩
    · refine ⟨_, node, r, mem_nodes_definition_iff.mpr (Or.inr ⟨n, x, q, hx, rfl, hmem⟩), ?_⟩
      exact ⟨hnode, rfl⟩

/-- A definition that may not be used is blamed for its reference. -/
theorem usable_eq_error_iff (scope : List Variable) {ref : Ref} {inputs : List Formula} :
    D.usable limit ref inputs.length = .error kind ↔
      NodeFault D scope limit (definition ref inputs) [] kind := by
  have hlimit : (limit.any (· ≤ ref)) = true ↔ ∃ l, limit = some l ∧ l ≤ ref := by
    cases limit <;> simp
  constructor
  · intro h
    rw [Directory.usable] at h
    cases hd : D.definition? ref with
    | none =>
      rw [hd] at h
      cases h
      exact .unresolved hd
    | some d =>
      rw [hd] at h
      dsimp only at h
      split at h
      · next hforward =>
        cases h
        obtain ⟨l, hl, hle⟩ := hlimit.mp hforward
        exact .forward hd hl hle
      · next hforward =>
        split at h
        · next harity =>
          cases h
          refine .arity hd (fun l hl => ?_) fun heq => harity heq.symm
          exact Int.not_le.mp fun hle => hforward (hlimit.mpr ⟨l, hl, hle⟩)
        · cases h
  · intro h
    cases h with
    | unresolved hd => rw [Directory.usable, hd]
    | forward hd hl hle =>
      rw [Directory.usable, hd]
      exact if_pos (hlimit.mpr ⟨_, hl, hle⟩)
    | arity hd hl harity =>
      rw [Directory.usable, hd]
      dsimp only
      rw [if_neg, if_pos fun heq => harity heq.symm]
      intro hforward
      obtain ⟨l, hl', hle⟩ := hlimit.mp hforward
      exact absurd (hl l hl') (Int.not_lt.mpr hle)

/-- A definition is blamed for its reference, or else for the inputs that do not fit. -/
theorem nodeFault_definition_iff {ref : Ref} {inputs : List Formula} :
    NodeFault D scope limit (definition ref inputs) p kind ↔
      (D.usable limit ref inputs.length = .error kind ∧ p = []) ∨
      ∃ d, D.usable limit ref inputs.length = .ok d ∧ ∃ n formal x t,
        d.inputs[n]? = some formal ∧ inputs[n]? = some x ∧ x.HasSignature D scope limit t ∧
        t ≠ formal.signature ∧ p = [.input n] ∧ kind = .definitionInputTypeMismatch := by
  constructor
  · intro h
    cases h with
    | unresolved hd => exact Or.inl ⟨(usable_eq_error_iff scope).mpr (.unresolved hd), rfl⟩
    | forward hd hl hle =>
      exact Or.inl ⟨(usable_eq_error_iff scope).mpr (.forward hd hl hle), rfl⟩
    | arity hd hl harity =>
      exact Or.inl ⟨(usable_eq_error_iff scope).mpr (.arity hd hl harity), rfl⟩
    | input hd hl hlen hformal hx ht hne =>
      have hu := Directory.usable_eq_ok_iff.mpr ⟨hd, hl, hlen⟩
      exact Or.inr ⟨_, hu, _, _, _, _, hformal, hx, ht, hne, rfl, rfl⟩
  · rintro (⟨hu, rfl⟩ | ⟨d, hu, n, formal, x, t, hformal, hx, ht, hne, rfl, rfl⟩)
    · exact (usable_eq_error_iff scope).mp hu
    · obtain ⟨hd, hl, hlen⟩ := Directory.usable_eq_ok_iff.mp hu
      exact .input hd hl hlen hformal hx ht hne

end

end Formula

/-! ## The faults of the pass -/

namespace Analysis

variable {p : Formula.Position} {kind : ErrorKind} {part function argument : Analysis}

theorem mem_faultsUnder_iff {b : Formula.Branch} :
    (p, kind) ∈ part.faultsUnder b ↔ ∃ q, p = b :: q ∧ (q, kind) ∈ part.faults := by
  simp only [faultsUnder, List.mem_map, Prod.mk.injEq, Prod.exists]
  grind

theorem mem_inputFaults_iff {index : Nat} {parts : List Analysis} :
    (p, kind) ∈ inputFaults index parts ↔
      ∃ n part q, parts[n]? = some part ∧ p = .input (index + n) :: q ∧ (q, kind) ∈ part.faults := by
  induction parts generalizing index with
  | nil => simp [inputFaults]
  | cons part parts ih =>
    rw [inputFaults, List.mem_append, ih, mem_faultsUnder_iff]
    constructor
    · rintro (⟨q, rfl, hmem⟩ | ⟨n, other, q, hn, rfl, hmem⟩)
      · exact ⟨0, part, q, rfl, rfl, hmem⟩
      · exact ⟨n + 1, other, q, hn, by rw [Nat.add_right_comm, Nat.add_assoc], hmem⟩
    · rintro ⟨n, other, q, hn, rfl, hmem⟩
      cases n with
      | zero =>
        cases hn
        exact Or.inl ⟨q, rfl, hmem⟩
      | succ n => exact Or.inr ⟨n, other, q, hn, by rw [Nat.add_right_comm, Nat.add_assoc], hmem⟩

theorem mem_inputMismatches_iff {index : Nat} {formals : List Variable} {parts : List Analysis} :
    (p, kind) ∈ inputMismatches index formals parts ↔
      ∃ n formal part t, formals[n]? = some formal ∧ parts[n]? = some part ∧
        part.signature = some t ∧ t ≠ formal.signature ∧ p = [.input (index + n)] ∧
        kind = .definitionInputTypeMismatch := by
  induction formals generalizing index parts with
  | nil => simp [inputMismatches]
  | cons formal formals ih =>
    cases parts with
    | nil => simp [inputMismatches]
    | cons part parts =>
      have hrest : (p, kind) ∈ inputMismatches (index + 1) formals parts ↔
          ∃ n formal' part' t, (formal :: formals)[n + 1]? = some formal' ∧
            (part :: parts)[n + 1]? = some part' ∧ part'.signature = some t ∧
            t ≠ formal'.signature ∧ p = [.input (index + (n + 1))] ∧
            kind = .definitionInputTypeMismatch := by
        rw [ih]
        simp only [List.getElem?_cons_succ, Nat.add_right_comm index 1, Nat.add_assoc]
      have hfirst : (p, kind) ∈ inputMismatches index (formal :: formals) (part :: parts) ↔
          (∃ t, part.signature = some t ∧ t ≠ formal.signature ∧ p = [.input index] ∧
            kind = .definitionInputTypeMismatch) ∨
          (p, kind) ∈ inputMismatches (index + 1) formals parts := by
        rw [inputMismatches]
        cases part.signature with
        | none => simp
        | some t =>
          dsimp only
          split
          · next heq => simp [heq]
          · next hne => simp [hne]
      rw [hfirst, hrest]
      constructor
      · rintro (⟨t, ht, hne, rfl, rfl⟩ | ⟨n, formal', part', t, h⟩)
        · exact ⟨0, formal, part, t, rfl, rfl, ht, hne, rfl, rfl⟩
        · exact ⟨n + 1, formal', part', t, h⟩
      · rintro ⟨n, formal', part', t, hformal, hpart, h⟩
        cases n with
        | zero =>
          cases hformal
          cases hpart
          exact Or.inl ⟨t, h⟩
        | succ n => exact Or.inr ⟨n, formal', part', t, hformal, hpart, h⟩

/-- Inputs that fit are not blamed. -/
theorem inputMismatches_of_inputsFit {index : Nat} {formals : List Variable} {parts : List Analysis}
    (h : inputsFit formals parts = true) : inputMismatches index formals parts = [] := by
  refine List.eq_nil_iff_forall_not_mem.mpr ?_
  rintro ⟨p, kind⟩ hmem
  obtain ⟨n, formal, part, t, hformal, hpart, ht, hne, -⟩ := mem_inputMismatches_iff.mp hmem
  have hfit := inputsFit_iff.mp h (formal, part) (mem_zip_iff_getElem?.mpr ⟨n, hformal, hpart⟩)
  rw [ht, Option.some.injEq] at hfit
  exact hne hfit

/-- What is wrong with an application besides its parts. -/
theorem mem_faults_ofParts_iff : (p, kind) ∈ (ofParts function argument).faults ↔
    ((∃ q, p = .function :: q ∧ (q, kind) ∈ function.faults) ∨
      ∃ q, p = .argument :: q ∧ (q, kind) ∈ argument.faults) ∨
    (∃ type t, function.signature = some (.ground type) ∧ argument.signature = some t ∧
      p = [] ∧ kind = .applicationNotFunction) ∨
    ∃ input output t, function.signature = some (.arrow input output) ∧
      argument.signature = some t ∧ input ≠ t ∧ p = [.argument] ∧
      kind = .applicationTypeMismatch := by
  rw [← mem_faultsUnder_iff, ← mem_faultsUnder_iff, ← List.mem_append, ofParts]
  cases function.signature with
  | none => simp
  | some s =>
    cases argument.signature with
    | none => cases s <;> simp
    | some t =>
      cases s with
      | ground type => simp [or_assoc]
      | arrow input output =>
        dsimp only
        split
        · next heq => simp [heq]
        · next hne => simp [hne, or_assoc]

/-! ## No place is blamed twice -/

theorem nodup_faultsUnder (b : Formula.Branch) (h : (part.faults.map Prod.fst).Nodup) :
    ((part.faultsUnder b).map Prod.fst).Nodup := by
  rw [faultsUnder, List.map_map]
  have hcons : (part.faults.map Prod.fst).map (b :: ·) =
      part.faults.map (Prod.fst ∘ fun fault => (b :: fault.1, fault.2)) := by
    rw [List.map_map]
    rfl
  rw [← hcons]
  exact h.map (List.cons_injective)

theorem nodup_inputFaults {index : Nat} {parts : List Analysis}
    (h : ∀ part ∈ parts, (part.faults.map Prod.fst).Nodup) :
    ((inputFaults index parts).map Prod.fst).Nodup := by
  induction parts generalizing index with
  | nil => exact List.nodup_nil
  | cons part parts ih =>
    rw [List.forall_mem_cons] at h
    rw [inputFaults, List.map_append, List.nodup_append]
    refine ⟨nodup_faultsUnder _ h.1, ih h.2, ?_⟩
    intro p hp q hq heq
    obtain ⟨⟨p, kind⟩, hfirst, rfl⟩ := List.mem_map.mp hp
    obtain ⟨⟨q, kind'⟩, hrest, rfl⟩ := List.mem_map.mp hq
    obtain ⟨p', rfl, -⟩ := mem_faultsUnder_iff.mp hfirst
    obtain ⟨n, other, q', -, rfl, -⟩ := mem_inputFaults_iff.mp hrest
    simp only [List.cons.injEq, Formula.Branch.input.injEq] at heq
    omega

theorem nodup_inputMismatches {index : Nat} {formals : List Variable} {parts : List Analysis} :
    ((inputMismatches index formals parts).map Prod.fst).Nodup := by
  induction formals generalizing index parts with
  | nil => exact List.nodup_nil
  | cons formal formals ih =>
    cases parts with
    | nil => exact List.nodup_nil
    | cons part parts =>
      rw [inputMismatches]
      cases part.signature with
      | none => exact ih
      | some t =>
        dsimp only
        split
        · exact ih
        · rw [List.map_cons, List.nodup_cons]
          refine ⟨fun hmem => ?_, ih⟩
          obtain ⟨⟨p, kind⟩, hrest, hp⟩ := List.mem_map.mp hmem
          obtain ⟨n, -, -, -, -, -, -, -, rfl, -⟩ := mem_inputMismatches_iff.mp hrest
          simp only [List.cons.injEq, Formula.Branch.input.injEq, and_true] at hp
          omega

/-- The faults of an application are at different places, if there are none in parts that have a
signature. -/
theorem nodup_ofParts (hfunction : (function.faults.map Prod.fst).Nodup)
    (hargument : (argument.faults.map Prod.fst).Nodup)
    (hsound : ∀ part ∈ [function, argument], part.signature.isSome → part.faults = []) :
    ((ofParts function argument).faults.map Prod.fst).Nodup := by
  rw [List.forall_mem_cons, List.forall_mem_singleton] at hsound
  -- if both parts have a signature there is at most the fault of the application
  have hsilent : function.signature.isSome → argument.signature.isSome →
      function.faultsUnder .function ++ argument.faultsUnder .argument = [] := by
    intro hf hx
    rw [faultsUnder, faultsUnder, hsound.1 hf, hsound.2 hx]
    rfl
  rw [ofParts]
  split
  · next hf hx =>
    rw [hsilent (by rw [hf]; rfl) (by rw [hx]; rfl)]
    split <;> simp
  · next hf hx =>
    rw [hsilent (by rw [hf]; rfl) (by rw [hx]; rfl)]
    simp
  · rw [List.map_append, List.nodup_append]
    refine ⟨nodup_faultsUnder _ hfunction, nodup_faultsUnder _ hargument, ?_⟩
    intro p hp q hq heq
    obtain ⟨⟨p, kind⟩, hf, rfl⟩ := List.mem_map.mp hp
    obtain ⟨⟨q, kind'⟩, hx, rfl⟩ := List.mem_map.mp hq
    obtain ⟨p', rfl, -⟩ := mem_faultsUnder_iff.mp hf
    obtain ⟨q', rfl, -⟩ := mem_faultsUnder_iff.mp hx
    cases heq

/-- An input that is blamed has a signature, so nothing is wrong inside it. -/
theorem nodup_inputFaults_append {index : Nat} {formals : List Variable} {parts : List Analysis}
    (h : ∀ part ∈ parts, (part.faults.map Prod.fst).Nodup)
    (hsound : ∀ part ∈ parts, part.signature.isSome → part.faults = []) :
    ((inputFaults index parts ++ inputMismatches index formals parts).map Prod.fst).Nodup := by
  rw [List.map_append, List.nodup_append]
  refine ⟨nodup_inputFaults h, nodup_inputMismatches, ?_⟩
  intro p hp q hq heq
  obtain ⟨⟨p, kind⟩, hinside, rfl⟩ := List.mem_map.mp hp
  obtain ⟨⟨q, kind'⟩, hmismatch, rfl⟩ := List.mem_map.mp hq
  obtain ⟨n, part, p', hn, rfl, hfault⟩ := mem_inputFaults_iff.mp hinside
  obtain ⟨m, -, part', t, -, hm, ht, -, rfl, -⟩ := mem_inputMismatches_iff.mp hmismatch
  simp only [List.cons.injEq, Formula.Branch.input.injEq, Nat.add_left_cancel_iff] at heq
  obtain ⟨rfl, -⟩ := heq
  rw [hn] at hm
  cases hm
  rw [hsound part (List.mem_of_getElem? hn) (by rw [ht]; rfl)] at hfault
  cases hfault

end Analysis

/-- **No place is blamed twice.** -/
theorem Formula.nodup_positions {D : Directory} {scope : List Variable} {limit : Option Ref}
    (body : Ref → Option Signature) (f : Formula) :
    ((f.analysis D scope limit body).faults.map Prod.fst).Nodup := by
  induction f using inductionOn with
  | symbol ref =>
    rw [analysis]
    cases D.symbol? ref <;> simp [Analysis.blame]
  | var ref =>
    rw [analysis]
    cases itemAt? scope ref <;> simp [Analysis.blame]
  | app g x hg hx =>
    rw [analysis]
    refine Analysis.nodup_ofParts hg hx ?_
    rw [List.forall_mem_cons, List.forall_mem_singleton]
    exact ⟨faults_analysis_of_isSome, faults_analysis_of_isSome⟩
  | definition ref inputs ih =>
    have hparts : ∀ part ∈ inputs.map (analysis D scope limit body),
        (part.faults.map Prod.fst).Nodup := List.forall_mem_map.mpr ih
    simp only [analysis, analysisAll_eq_map]
    cases D.usable limit ref inputs.length with
    | error kind =>
      rw [List.map_cons, List.nodup_cons]
      refine ⟨fun hmem => ?_, Analysis.nodup_inputFaults hparts⟩
      obtain ⟨⟨p, kind'⟩, hinput, rfl⟩ := List.mem_map.mp hmem
      obtain ⟨n, part, q, -, hp, -⟩ := Analysis.mem_inputFaults_iff.mp hinput
      cases hp
    | ok d =>
      dsimp only
      split
      · exact Analysis.nodup_inputFaults hparts
      · refine Analysis.nodup_inputFaults_append hparts ?_
        rw [List.forall_mem_map]
        exact fun x _ => faults_analysis_of_isSome

/-! ## The pass finds what the nodes are blamed for -/

namespace Formula

variable {D : Directory} {scope : List Variable} {limit : Option Ref} {p : Position}
  {kind : ErrorKind} {body : Ref → Option Signature}

theorem mem_faults_symbol_iff {ref : Ref} :
    (p, kind) ∈ ((symbol ref).analysis D scope limit body).faults ↔
      NodeFault D scope limit (symbol ref) p kind := by
  rw [analysis]
  constructor
  · intro h
    cases hc : D.symbol? ref with
    | none =>
      rw [hc] at h
      cases List.mem_singleton.mp h
      exact .symbol hc
    | some c =>
      rw [hc] at h
      cases h
  · intro h
    cases h with
    | symbol hc =>
      rw [hc]
      exact List.mem_singleton_self _

theorem mem_faults_var_iff {ref : Ref} :
    (p, kind) ∈ ((var ref).analysis D scope limit body).faults ↔
      NodeFault D scope limit (var ref) p kind := by
  rw [analysis]
  constructor
  · intro h
    cases hv : itemAt? scope ref with
    | none =>
      rw [hv] at h
      cases List.mem_singleton.mp h
      exact .var hv
    | some v =>
      rw [hv] at h
      cases h
  · intro h
    cases h with
    | var hv =>
      rw [hv]
      exact List.mem_singleton_self _

/-- The faults of a definition: at its root, at the inputs that do not fit, and inside the inputs. -/
theorem mem_faults_definition_iff {ref : Ref} {inputs : List Formula} :
    (p, kind) ∈ ((definition ref inputs).analysis D scope limit body).faults ↔
      ((D.usable limit ref inputs.length = .error kind ∧ p = []) ∨
        ∃ d, D.usable limit ref inputs.length = .ok d ∧ ∃ n formal x t,
          d.inputs[n]? = some formal ∧ inputs[n]? = some x ∧
          (x.analysis D scope limit body).signature = some t ∧ t ≠ formal.signature ∧
          p = [.input n] ∧ kind = .definitionInputTypeMismatch) ∨
      ∃ n x q, inputs[n]? = some x ∧ p = .input n :: q ∧
        (q, kind) ∈ (x.analysis D scope limit body).faults := by
  let parts := inputs.map (analysis D scope limit body)
  have hpart : ∀ (n : Nat) (part : Analysis), parts[n]? = some part ↔
      ∃ x, inputs[n]? = some x ∧ x.analysis D scope limit body = part := by
    intro n part
    rw [List.getElem?_map, Option.map_eq_some_iff]
  have hinside : (p, kind) ∈ Analysis.inputFaults 0 parts ↔
      ∃ n x q, inputs[n]? = some x ∧ p = .input n :: q ∧
        (q, kind) ∈ (x.analysis D scope limit body).faults := by
    rw [Analysis.mem_inputFaults_iff]
    simp only [hpart, Nat.zero_add]
    grind
  have hmismatch : ∀ d : Definition, (p, kind) ∈ Analysis.inputMismatches 0 d.inputs parts ↔
      ∃ n formal x t, d.inputs[n]? = some formal ∧ inputs[n]? = some x ∧
        (x.analysis D scope limit body).signature = some t ∧ t ≠ formal.signature ∧
        p = [.input n] ∧ kind = .definitionInputTypeMismatch := by
    intro d
    rw [Analysis.mem_inputMismatches_iff]
    simp only [hpart, Nat.zero_add]
    grind
  rw [← hinside]
  simp only [analysis, analysisAll_eq_map]
  cases D.usable limit ref inputs.length with
  | error kind' => simp [parts, eq_comm, and_comm]
  | ok d =>
    simp only [Except.ok.injEq, reduceCtorEq, false_and, false_or, exists_eq_left', ← hmismatch]
    split
    · next hfit =>
      rw [Analysis.inputMismatches_of_inputsFit hfit]
      simp [parts]
    · rw [List.mem_append, or_comm]

end Formula

namespace Directory

open Formula

variable {D : Directory} {scope : List Variable} {limit : Option Ref}

/-- **The faults of a formula are those of its nodes.** -/
theorem mem_faults_iff_faultAt {f : Formula} {p : Position} {kind : ErrorKind} :
    (p, kind) ∈ (f.analysis D scope limit D.expansionSignature).faults ↔
      f.FaultAt D scope limit p kind := by
  induction f using inductionOn generalizing p with
  | symbol ref => rw [faultAt_symbol_iff, mem_faults_symbol_iff]
  | var ref => rw [faultAt_var_iff, mem_faults_var_iff]
  | app g x hg hx =>
    rw [faultAt_app_iff, analysis, Analysis.mem_faults_ofParts_iff, or_comm]
    simp only [hg, hx, signature_eq_some_iff]
    refine or_congr ⟨?_, fun h => ?_⟩ Iff.rfl
    · rintro (⟨type, t, hfunction, hargument, rfl, rfl⟩ |
        ⟨input, output, t, hfunction, hargument, hne, rfl, rfl⟩)
      · exact .notFunction hfunction hargument
      · exact .argument hfunction hargument hne
    · cases h with
      | notFunction hfunction hargument =>
        exact Or.inl ⟨_, _, hfunction, hargument, rfl, rfl⟩
      | argument hfunction hargument hne =>
        exact Or.inr ⟨_, _, _, hfunction, hargument, hne, rfl, rfl⟩
  | definition ref inputs ih =>
    rw [faultAt_definition_iff, nodeFault_definition_iff, mem_faults_definition_iff]
    simp only [signature_eq_some_iff]
    refine or_congr Iff.rfl ⟨?_, ?_⟩
    · rintro ⟨n, x, q, hx, hp, hfault⟩
      exact ⟨n, x, q, hx, hp, (ih x (List.mem_of_getElem? hx)).mp hfault⟩
    · rintro ⟨n, x, q, hx, hp, hfault⟩
      exact ⟨n, x, q, hx, hp, (ih x (List.mem_of_getElem? hx)).mpr hfault⟩

/-- **Faults are located, unique and do not cascade.**  Whatever was asked before, the faults of a
formula have different paths, which are those of its nodes behind the base, and they are exactly what
the nodes are blamed for.  A formula with a fault has no signature, and one without signature and
without fault uses a definition whose expansion has none. -/
theorem faults_located (D : Directory) (queries : List SignatureQuery) (scope : List Variable)
    (base : String) (limit : Option Ref) (f : Formula) :
    let answer := ((D.analyse scope limit f).run (D.memoAfter queries)).1
    let faults := answer.faults.map (locate base)
    (faults.map Fault.path).Nodup ∧
      (∀ fault ∈ faults, ∃ p node, (p, node) ∈ f.nodes ∧
        fault.path = pathBehind base (p.text "")) ∧
      (∀ (p : Position) (kind : ErrorKind), ⟨kind, pathBehind base (p.text "")⟩ ∈ faults ↔
        f.FaultAt D scope limit p kind) ∧
      (faults ≠ [] → answer.signature = none) ∧
      (faults = [] → answer.signature = none → ∃ p ref inputs d,
        (p, .definition ref inputs) ∈ f.nodes ∧ D.definition? ref = some d ∧
        ∀ s, ¬ d.expansion.HasSignature D d.inputs (some ref) s) := by
  have hanswer : ((D.analyse scope limit f).run (D.memoAfter queries)).1 =
      f.analysis D scope limit D.expansionSignature :=
    (computes_analyse scope limit f _ (D.faithful_memoAfter queries)).1
  dsimp only
  rw [hanswer]
  refine ⟨?_, ?_, fun p kind => ?_, fun hfaults => ?_, fun hfaults hnone => ?_⟩
  · have hpaths : ((f.analysis D scope limit D.expansionSignature).faults.map (locate base)).map
        Fault.path = ((f.analysis D scope limit D.expansionSignature).faults.map Prod.fst).map
          fun p => pathBehind base (p.text "") := by
      rw [List.map_map, List.map_map]
      exact List.map_congr_left fun found _ => path_locate base found.1 found.2
    rw [hpaths]
    exact (nodup_positions _ f).map ((pathBehind_injective base).comp Position.text_injective)
  · rw [List.forall_mem_map]
    rintro ⟨p, kind⟩ hmem
    obtain ⟨node, hnode⟩ := (mem_faults_iff_faultAt.mp hmem).exists_mem_nodes
    exact ⟨p, node, hnode, path_locate base p kind⟩
  · rw [← locate_eq, List.mem_map_of_injective (locate_injective base), mem_faults_iff_faultAt]
  · by_contra hsome
    refine hfaults (List.map_eq_nil_iff.mpr ?_)
    exact faults_analysis_of_isSome (Option.isSome_iff_ne_none.mpr hsome)
  · obtain ⟨ref, href, count, d, hu, hexpansion⟩ :=
      exists_definition_of_faults_eq_nil (List.map_eq_nil_iff.mp hfaults) hnone
    obtain ⟨p, inputs, hmem⟩ := exists_mem_nodes_of_mem_definitionRefs href
    have hd := (usable_eq_ok_iff.mp hu).1
    refine ⟨p, ref, inputs, d, hmem, hd, fun s hs => ?_⟩
    rw [(expansionSignature_eq_some_iff hd).mpr hs] at hexpansion
    cases hexpansion

end Directory

end Deduction
