import Deduction.Proofs.Document.RoundTrip
import Deduction.Proofs.Unfolding

/-!
# What reading keeps of a document

Reading turns a value into a signature, a formula or a justification, and writing turns that into a
value again.  Keys that no node has are not looked at, and the order of keys does not matter.  All
else should come back, for otherwise something was read that was not there.

Nodes are told apart by their `type`, and each kind of node has its own parts.  A *grammar* lists
them.  `Json.pruned` takes away all other members, at every level, and `Json.Same` compares what is
left with what is written, up to the order of members.

Signatures and justifications always come back.  Formulas do so if the inputs of every definition
are written as an array.  But an empty text and an empty object are read as an empty list as well,
and then the node that comes back is one of a definition without inputs, which was not there.
`Formula.Written` states both: what stands for a formula if only arrays stand for lists, and if the
empty text and the empty object do so too.

* `Json.Same`, `Json.Grammar`, `Json.pruned`: values without what is not looked at.
* `Formula.Written`: the values that stand for a formula.
* `Formula.ofJson_eq_ok_iff`: what is read.
* `Json.reads_back`: what comes back, and when.
-/

namespace Deduction

namespace Json

/-! ## Equality up to the order of members -/

/-- The same value, where the order of members does not matter. -/
inductive Same : Json → Json → Prop
  | refl (a : Json) : Same a a
  | arr {as bs : List Json} : as.length = bs.length → (∀ p ∈ as.zip bs, Same p.1 p.2) →
      Same (.arr as) (.arr bs)
  | obj {as bs : List (Text × Json)} :
      (∀ key, (memberOf? key as).isSome = (memberOf? key bs).isSome) →
      (∀ key a b, memberOf? key as = some a → memberOf? key bs = some b → Same a b) →
      Same (.obj as) (.obj bs)

theorem Same.items {as bs : List Json} (h : Same (.arr as) (.arr bs)) :
    as.length = bs.length ∧ ∀ p ∈ as.zip bs, Same p.1 p.2 := by
  cases h with
  | refl =>
    refine ⟨rfl, fun p hp => ?_⟩
    obtain ⟨n, hn, hn'⟩ := mem_zip_iff_getElem?.mp hp
    rw [Option.some.inj (hn.symm.trans hn')]
    exact .refl _
  | arr hlen hp => exact ⟨hlen, hp⟩

theorem Same.member {as bs : List (Text × Json)} (h : Same (.obj as) (.obj bs)) {key : Text}
    {a b : Json} (ha : memberOf? key as = some a) (hb : memberOf? key bs = some b) : Same a b := by
  cases h with
  | refl =>
    rw [ha] at hb
    cases hb
    exact .refl _
  | obj _ hvalues => exact hvalues key a b ha hb

theorem mem_of_memberOf? {key : Text} {members : List (Text × Json)} {value : Json}
    (h : memberOf? key members = some value) : (key, value) ∈ members := by
  induction members with
  | nil => cases h
  | cons m members ih =>
    rw [memberOf?] at h
    split at h
    · next hkey =>
      cases h
      rw [← hkey]
      exact List.mem_cons_self
    · exact List.mem_cons_of_mem _ (ih h)

theorem isSome_memberOf?_iff {key : Text} {members : List (Text × Json)} :
    (memberOf? key members).isSome ↔ key ∈ members.map Prod.fst := by
  induction members with
  | nil => simp [memberOf?]
  | cons m members ih =>
    rw [memberOf?, List.map_cons, List.mem_cons]
    by_cases hkey : m.1 = key
    · simp [hkey]
    · rw [if_neg hkey, ih]
      exact (or_iff_right (Ne.symm hkey)).symm

/-! ## Grammars -/

/-- The types of nodes, each with the parts that such a node has. -/
abbrev Grammar := List (String × List String)

/-- The keys that an object has by its type. -/
def Grammar.keys (g : Grammar) (members : List (Text × Json)) : List Text :=
  match memberOf? "type" members with
  | none => []
  | some type =>
    match g.find? fun row => type = word row.1 with
    | none => []
    | some row => ("type" :: row.2).map Text.ofString

theorem Grammar.keys_of_type {g : Grammar} {members : List (Text × Json)} {kind : String}
    {parts : List String} (htype : memberOf? "type" members = some (word kind))
    (hrow : g.lookup kind = some parts) :
    g.keys members = ("type" :: parts).map Text.ofString := by
  have hfind : ∃ row, g.find? (fun row => word kind = word row.1) = some row ∧ row.2 = parts := by
    induction g with
    | nil => cases hrow
    | cons row g ih =>
      rw [List.lookup_cons] at hrow
      rw [List.find?_cons]
      by_cases hkind : kind = row.1
      · rw [beq_iff_eq.mpr hkind] at hrow
        rw [decide_eq_true (word_eq_word_iff.mpr hkind)]
        exact ⟨row, rfl, Option.some.inj hrow⟩
      · rw [beq_eq_false_iff_ne.mpr hkind] at hrow
        rw [decide_eq_false (mt word_eq_word_iff.mp hkind)]
        exact ih hrow
  obtain ⟨row, hfind, rfl⟩ := hfind
  rw [keys, htype]
  dsimp only
  rw [hfind]

mutual

/-- The value with only those members that its objects have by their types. -/
def pruned (g : Grammar) : Json → Json
  | .arr items => .arr (prunedItems g items)
  | .obj members => .obj (prunedMembers g (g.keys members) members)
  | value => value

/-- The items of an array, each with only those members. -/
def prunedItems (g : Grammar) : List Json → List Json
  | [] => []
  | item :: items => pruned g item :: prunedItems g items

/-- The members with given keys, each with only those members. -/
def prunedMembers (g : Grammar) (keys : List Text) : List (Text × Json) → List (Text × Json)
  | [] => []
  | (key, value) :: members =>
    if key ∈ keys then (key, pruned g value) :: prunedMembers g keys members
    else prunedMembers g keys members

end

theorem prunedItems_eq_map (g : Grammar) (items : List Json) :
    prunedItems g items = items.map (pruned g) := by
  induction items with
  | nil => rfl
  | cons item items ih => rw [prunedItems, ih, List.map_cons]

theorem memberOf?_prunedMembers (g : Grammar) (keys : List Text) (key : Text)
    (members : List (Text × Json)) :
    memberOf? key (prunedMembers g keys members) =
      if key ∈ keys then (memberOf? key members).map (pruned g) else none := by
  induction members with
  | nil => simp [prunedMembers, memberOf?]
  | cons m members ih =>
    obtain ⟨other, value⟩ := m
    rw [prunedMembers]
    by_cases hkey : other = key
    · subst hkey
      by_cases hmem : other ∈ keys
      · simp [memberOf?, hmem]
      · rw [if_neg hmem, ih, if_neg hmem, if_neg hmem]
    · have hrest : memberOf? key ((other, value) :: members) = memberOf? key members := by
        rw [memberOf?, if_neg hkey]
      rw [hrest, ← ih]
      split
      · rw [memberOf?, if_neg hkey]
      · rfl

/-- A node comes back if each of its parts does. -/
theorem same_pruned_of_parts {g : Grammar} {members : List (Text × Json)} {kind : String}
    (parts : List (String × Json)) (htype : memberOf? "type" members = some (word kind))
    (hrow : g.lookup kind = some (parts.map Prod.fst))
    (h : ∀ part ∈ parts, ∃ value, memberOf? part.1 members = some value ∧
      Same part.2 (value.pruned g)) :
    Same (.obj (("type", word kind) :: parts.map fun part => (Text.ofString part.1, part.2)))
      ((Json.obj members).pruned g) := by
  let written : List (Text × Json) :=
    ("type", word kind) :: parts.map fun part => (Text.ofString part.1, part.2)
  have hkeys : g.keys members = written.map Prod.fst := by
    rw [Grammar.keys_of_type htype hrow, List.map_cons, List.map_cons, List.map_map, List.map_map]
    rfl
  have hback : ∀ part ∈ written, ∃ value, memberOf? part.1 members = some value ∧
      Same part.2 (value.pruned g) := by
    rw [List.forall_mem_cons, List.forall_mem_map]
    exact ⟨⟨_, htype, .refl _⟩, h⟩
  rw [pruned, hkeys]
  refine .obj (fun key => ?_) fun key a b ha hb => ?_
  · rw [Bool.eq_iff_iff, isSome_memberOf?_iff, memberOf?_prunedMembers]
    constructor
    · intro hkey
      obtain ⟨part, hpart, rfl⟩ := List.mem_map.mp hkey
      obtain ⟨value, hvalue, -⟩ := hback part hpart
      rw [if_pos hkey, hvalue]
      rfl
    · intro hsome
      by_contra hkey
      rw [if_neg hkey] at hsome
      cases hsome
  · have hmem := mem_of_memberOf? ha
    obtain ⟨value, hvalue, hsame⟩ := hback _ hmem
    rw [memberOf?_prunedMembers, if_pos (List.mem_map_of_mem hmem), hvalue] at hb
    cases hb
    exact hsame

/-- A node that is its type and nothing else. -/
theorem same_pruned_of_type {g : Grammar} {members : List (Text × Json)} {kind : String}
    (htype : memberOf? "type" members = some (word kind)) (hrow : g.lookup kind = some []) :
    Same (.obj [("type", word kind)]) ((Json.obj members).pruned g) :=
  same_pruned_of_parts [] htype hrow (List.forall_mem_nil _)

/-- A node that is its type and an integer. -/
theorem same_pruned_of_index {g : Grammar} {members : List (Text × Json)} {kind key : String}
    {n : Int} (htype : memberOf? "type" members = some (word kind))
    (hindex : memberOf? key members = some (.int n)) (hrow : g.lookup kind = some [key]) :
    Same (.obj [("type", word kind), (key, .int n)]) ((Json.obj members).pruned g) := by
  refine same_pruned_of_parts [(key, .int n)] htype hrow ?_
  rw [List.forall_mem_singleton]
  exact ⟨_, hindex, .refl _⟩

/-- If a node comes back then each of its parts does. -/
theorem Same.part {g : Grammar} {members parts : List (Text × Json)} {kind key : String}
    {keys : List String} {written value : Json}
    (h : Same (.obj parts) ((Json.obj members).pruned g))
    (htype : memberOf? "type" members = some (word kind)) (hrow : g.lookup kind = some keys)
    (hkey : key ∈ keys) (hwritten : memberOf? key parts = some written)
    (hvalue : memberOf? key members = some value) : Same written (value.pruned g) := by
  rw [pruned] at h
  refine h.member hwritten ?_
  rw [memberOf?_prunedMembers, Grammar.keys_of_type htype hrow, hvalue]
  exact if_pos (List.mem_map_of_mem (List.mem_cons_of_mem _ hkey))

/-- What is the same as an array is one. -/
theorem Same.eq_arr {g : Grammar} {items : List Json} {value : Json}
    (h : Same (.arr items) (value.pruned g)) : ∃ items, value = .arr items := by
  cases value with
  | arr items => exact ⟨items, rfl⟩
  | null | bool | int | float | str | obj => cases h

theorem field_eq_ok_iff {key : Text} {members : List (Text × Json)} {value : Json} :
    (Json.obj members).field key = .ok value ↔ memberOf? key members = some value := by
  rw [field]
  cases memberOf? key members <;> simp

/-- Reading a part of an object is finding it and reading it. -/
theorem readMember_eq_ok_iff {α : Type} {key : Text} {read : Json → Except DocumentError α}
    {readMember : List (Text × Json) → Except DocumentError α}
    (hnil : readMember [] = .error (.missingKey key))
    (hcons : ∀ m members,
      readMember (m :: members) = if m.1 = key then read m.2 else readMember members)
    {members : List (Text × Json)} {a : α} :
    readMember members = .ok a ↔
      ∃ value, memberOf? key members = some value ∧ read value = .ok a := by
  induction members with
  | nil => simp [hnil, memberOf?]
  | cons m members ih =>
    rw [hcons, memberOf?]
    by_cases hkey : m.1 = key
    · simp [hkey]
    · rw [if_neg hkey, if_neg hkey, ih]

theorem indexField_eq_ok_iff {role : IndexRole} {key : Text} {members : List (Text × Json)}
    {ref : Ref} :
    (Json.obj members).indexField role key = .ok ref ↔ memberOf? key members = some (.int ref) := by
  rw [indexField, bind_eq_ok]
  simp only [field_eq_ok_iff]
  constructor
  · rintro ⟨value, hvalue, h⟩
    cases value with
    | int n =>
      cases h
      exact hvalue
    | null | bool | float | str | arr | obj => cases h
  · intro h
    exact ⟨_, h, rfl⟩

end Json

open Json

/-! ## Signatures -/

namespace Signature

/-- The nodes of signatures. -/
def grammar : Grammar := [("ground", ["ref"]), ("compound", ["input", "output"])]

theorem ofMember_eq_ok_iff {key : Text} {members : List (Text × Json)} {s : Signature} :
    ofMember key members = .ok s ↔
      ∃ value, memberOf? key members = some value ∧ ofJson value = .ok s :=
  readMember_eq_ok_iff (by rw [ofMember]) fun m members => by rw [ofMember]

/-- What is read as a signature, one level at a time. -/
theorem ofJson_cases {j : Json} {s : Signature} (h : ofJson j = .ok s) :
    ∃ members, j = .obj members ∧
      ((memberOf? "type" members = some (word "ground") ∧
          ∃ type, memberOf? "ref" members = some (.int type) ∧ s = .ground type) ∨
        (memberOf? "type" members = some (word "compound") ∧
          ∃ i o input output, memberOf? "input" members = some i ∧ ofJson i = .ok input ∧
            memberOf? "output" members = some o ∧ ofJson o = .ok output ∧
            s = .arrow input output)) := by
  cases j with
  | obj members =>
    refine ⟨members, rfl, ?_⟩
    rw [ofJson] at h
    cases htype : memberOf? "type" members with
    | none =>
      rw [htype] at h
      cases h
    | some kind =>
      rw [htype] at h
      dsimp only at h
      split at h
      · next hkind =>
        obtain ⟨type, href, h⟩ := bind_eq_ok.mp h
        cases h
        exact Or.inl ⟨by rw [hkind], type, indexField_eq_ok_iff.mp href, rfl⟩
      split at h
      · next hkind =>
        obtain ⟨input, hinput, h⟩ := bind_eq_ok.mp h
        obtain ⟨output, houtput, h⟩ := bind_eq_ok.mp h
        cases h
        obtain ⟨i, hi, hinput⟩ := ofMember_eq_ok_iff.mp hinput
        obtain ⟨o, ho, houtput⟩ := ofMember_eq_ok_iff.mp houtput
        exact Or.inr ⟨by rw [hkind], i, o, input, output, hi, hinput, ho, houtput, rfl⟩
      · cases h
  | null | bool | int | float | str | arr => cases h

/-- **A signature comes back** as it was read. -/
theorem same_of_ofJson {j : Json} {s : Signature} (h : ofJson j = .ok s) :
    s.toJson.Same (j.pruned grammar) := by
  obtain ⟨members, rfl, ⟨htype, type, href, rfl⟩ |
    ⟨htype, i, o, input, output, hi, hinput, ho, houtput, rfl⟩⟩ := ofJson_cases h
  · exact same_pruned_of_index htype href rfl
  · refine same_pruned_of_parts [("input", input.toJson), ("output", output.toJson)] htype rfl ?_
    rw [List.forall_mem_cons, List.forall_mem_singleton]
    exact ⟨⟨i, hi, same_of_ofJson hinput⟩, o, ho, same_of_ofJson houtput⟩
termination_by sizeOf s

end Signature

/-! ## Justifications -/

namespace Justification

/-- The nodes of justifications. -/
def grammar : Grammar :=
  [("axiom", ["ref"]), ("theorem", ["ref"]), ("hypothesis", ["index"]), ("definition", []),
    ("function_application", []), ("substitution", [])]

/-- **A justification comes back** as it was read. -/
theorem same_of_ofJson {j : Json} {k : Justification} (h : ofJson j = .ok k) :
    k.toJson.Same (j.pruned grammar) := by
  obtain ⟨kind, hfield, h⟩ := bind_eq_ok.mp h
  cases j with
  | obj members =>
    have htype := field_eq_ok_iff.mp hfield
    split at h
    · next hkind =>
      subst hkind
      obtain ⟨ref, href, h⟩ := bind_eq_ok.mp h
      cases h
      exact same_pruned_of_index htype (indexField_eq_ok_iff.mp href) rfl
    split at h
    · next hkind =>
      subst hkind
      obtain ⟨ref, href, h⟩ := bind_eq_ok.mp h
      cases h
      exact same_pruned_of_index htype (indexField_eq_ok_iff.mp href) rfl
    split at h
    · next hkind =>
      subst hkind
      obtain ⟨index, hindex, h⟩ := bind_eq_ok.mp h
      cases h
      exact same_pruned_of_index htype (indexField_eq_ok_iff.mp hindex) rfl
    split at h
    · next hkind =>
      subst hkind
      cases h
      exact same_pruned_of_type htype rfl
    split at h
    · next hkind =>
      subst hkind
      cases h
      exact same_pruned_of_type htype rfl
    split at h
    · next hkind =>
      subst hkind
      cases h
      exact same_pruned_of_type htype rfl
    · cases h
  | null | bool | int | float | str | arr => cases hfield

end Justification

/-! ## Formulas -/

namespace Formula

/-- The nodes of formulas. -/
def grammar : Grammar :=
  [("symbol", ["ref"]), ("var", ["ref"]), ("application", ["function", "argument"]),
    ("definition", ["ref", "inputs"])]

/-- What is read as a list.  No item of a text and no key of an object is a formula, but the empty
ones have none. -/
inductive Listed : Json → List Json → Prop
  | arr (items : List Json) : Listed (.arr items) items
  | emptyText : Listed (.str "") []
  | emptyObject : Listed (.obj []) []

/-- What is written as a list. -/
inductive Arrayed : Json → List Json → Prop
  | arr (items : List Json) : Arrayed (.arr items) items

/-- The values that stand for a formula, where `Items` says which values stand for a list. -/
inductive Written (Items : Json → List Json → Prop) : Json → Formula → Prop
  | symbol {members : List (Text × Json)} {ref : Ref} :
      memberOf? "type" members = some (word "symbol") →
      memberOf? "ref" members = some (.int ref) → Written Items (.obj members) (.symbol ref)
  | var {members : List (Text × Json)} {ref : Ref} :
      memberOf? "type" members = some (word "var") →
      memberOf? "ref" members = some (.int ref) → Written Items (.obj members) (.var ref)
  | app {members : List (Text × Json)} {function argument : Json} {f x : Formula} :
      memberOf? "type" members = some (word "application") →
      memberOf? "function" members = some function → Written Items function f →
      memberOf? "argument" members = some argument → Written Items argument x →
      Written Items (.obj members) (.app f x)
  | definition {members : List (Text × Json)} {ref : Ref} {value : Json} {items : List Json}
      {inputs : List Formula} :
      memberOf? "type" members = some (word "definition") →
      memberOf? "ref" members = some (.int ref) → memberOf? "inputs" members = some value →
      Items value items → items.length = inputs.length →
      (∀ p ∈ items.zip inputs, Written Items p.1 p.2) →
      Written Items (.obj members) (.definition ref inputs)

theorem ofMember_eq_ok_iff {key : Text} {members : List (Text × Json)} {f : Formula} :
    ofMember key members = .ok f ↔
      ∃ value, memberOf? key members = some value ∧ ofJson value = .ok f :=
  readMember_eq_ok_iff (by rw [ofMember]) fun m members => by rw [ofMember]

theorem listOfMember_eq_ok_iff {key : Text} {members : List (Text × Json)} {fs : List Formula} :
    listOfMember key members = .ok fs ↔
      ∃ value, memberOf? key members = some value ∧ listOfJson value = .ok fs :=
  readMember_eq_ok_iff (by rw [listOfMember]) fun m members => by rw [listOfMember]

theorem ofAll_eq_ok_iff {items : List Json} {fs : List Formula} :
    ofAll items = .ok fs ↔
      items.length = fs.length ∧ ∀ p ∈ items.zip fs, ofJson p.1 = .ok p.2 := by
  induction items generalizing fs with
  | nil =>
    rw [ofAll, Except.ok.injEq, List.length_nil, eq_comm, eq_comm (a := 0), List.length_eq_zero_iff]
    simp
  | cons item items ih =>
    rw [ofAll, bind_eq_ok]
    constructor
    · rintro ⟨f, hf, h⟩
      obtain ⟨fs', hfs, h⟩ := bind_eq_ok.mp h
      cases h
      obtain ⟨hlen, hzip⟩ := ih.mp hfs
      refine ⟨congrArg (· + 1) hlen, ?_⟩
      rw [List.zip_cons_cons, List.forall_mem_cons]
      exact ⟨hf, hzip⟩
    · rintro ⟨hlen, hzip⟩
      obtain ⟨f, fs', rfl⟩ := List.exists_cons_of_length_eq_add_one hlen.symm
      rw [List.zip_cons_cons, List.forall_mem_cons] at hzip
      exact ⟨f, hzip.1, bind_eq_ok.mpr ⟨fs', ih.mpr ⟨Nat.succ.inj hlen, hzip.2⟩, rfl⟩⟩

theorem listOfJson_eq_ok_iff {value : Json} {fs : List Formula} :
    listOfJson value = .ok fs ↔ ∃ items, Listed value items ∧ ofAll items = .ok fs := by
  constructor
  · intro h
    cases value with
    | arr items => exact ⟨items, .arr items, h⟩
    | str text =>
      obtain ⟨units⟩ := text
      cases units with
      | nil => exact ⟨[], .emptyText, h⟩
      | cons unit units => cases h
    | obj members =>
      cases members with
      | nil => exact ⟨[], .emptyObject, h⟩
      | cons m members => cases h
    | null | bool | int | float => cases h
  · rintro ⟨items, hlisted, h⟩
    cases hlisted with
    | arr | emptyText | emptyObject => exact h

/-- What is read as a formula, one level at a time. -/
theorem ofJson_cases {j : Json} {f : Formula} (h : ofJson j = .ok f) :
    ∃ members, j = .obj members ∧
      ((memberOf? "type" members = some (word "symbol") ∧
          ∃ ref, memberOf? "ref" members = some (.int ref) ∧ f = .symbol ref) ∨
        (memberOf? "type" members = some (word "var") ∧
          ∃ ref, memberOf? "ref" members = some (.int ref) ∧ f = .var ref) ∨
        (memberOf? "type" members = some (word "application") ∧
          ∃ i o function argument, memberOf? "function" members = some i ∧ ofJson i = .ok function ∧
            memberOf? "argument" members = some o ∧ ofJson o = .ok argument ∧
            f = .app function argument) ∨
        (memberOf? "type" members = some (word "definition") ∧
          ∃ ref value items inputs, memberOf? "ref" members = some (.int ref) ∧
            memberOf? "inputs" members = some value ∧ Listed value items ∧
            ofAll items = .ok inputs ∧ f = .definition ref inputs)) := by
  cases j with
  | obj members =>
    refine ⟨members, rfl, ?_⟩
    rw [ofJson] at h
    cases htype : memberOf? "type" members with
    | none =>
      rw [htype] at h
      cases h
    | some kind =>
      rw [htype] at h
      dsimp only at h
      split at h
      · next hkind =>
        obtain ⟨ref, href, h⟩ := bind_eq_ok.mp h
        cases h
        exact Or.inl ⟨by rw [hkind], ref, indexField_eq_ok_iff.mp href, rfl⟩
      split at h
      · next hkind =>
        obtain ⟨ref, href, h⟩ := bind_eq_ok.mp h
        cases h
        exact Or.inr (Or.inl ⟨by rw [hkind], ref, indexField_eq_ok_iff.mp href, rfl⟩)
      split at h
      · next hkind =>
        obtain ⟨function, hfunction, h⟩ := bind_eq_ok.mp h
        obtain ⟨argument, hargument, h⟩ := bind_eq_ok.mp h
        cases h
        obtain ⟨i, hi, hfunction⟩ := ofMember_eq_ok_iff.mp hfunction
        obtain ⟨o, ho, hargument⟩ := ofMember_eq_ok_iff.mp hargument
        exact Or.inr (Or.inr (Or.inl ⟨by rw [hkind], i, o, function, argument, hi, hfunction, ho,
          hargument, rfl⟩))
      split at h
      · next hkind =>
        obtain ⟨ref, href, h⟩ := bind_eq_ok.mp h
        obtain ⟨inputs, hinputs, h⟩ := bind_eq_ok.mp h
        cases h
        obtain ⟨value, hvalue, hinputs⟩ := listOfMember_eq_ok_iff.mp hinputs
        obtain ⟨items, hitems, hinputs⟩ := listOfJson_eq_ok_iff.mp hinputs
        exact Or.inr (Or.inr (Or.inr ⟨by rw [hkind], ref, value, items, inputs,
          indexField_eq_ok_iff.mp href, hvalue, hitems, hinputs, rfl⟩))
      · cases h
  | null | bool | int | float | str | arr => cases h

theorem written_of_ofJson {j : Json} {f : Formula} (h : ofJson j = .ok f) :
    Written Listed j f := by
  obtain ⟨members, rfl, ⟨htype, ref, href, rfl⟩ | ⟨htype, ref, href, rfl⟩ |
    ⟨htype, i, o, function, argument, hi, hfunction, ho, hargument, rfl⟩ |
    ⟨htype, ref, value, items, inputs, href, hvalue, hitems, hinputs, hf⟩⟩ := ofJson_cases h
  · exact .symbol htype href
  · exact .var htype href
  · exact .app htype hi (written_of_ofJson hfunction) ho (written_of_ofJson hargument)
  · obtain ⟨hlen, hzip⟩ := ofAll_eq_ok_iff.mp hinputs
    rw [hf]
    refine .definition htype href hvalue hitems hlen fun p hp => ?_
    -- the inputs are smaller than the formula, so they can be read by the same argument
    have hinput := List.sizeOf_lt_of_mem (List.of_mem_zip hp).2
    have hsize : sizeOf p.2 < sizeOf f := by
      rw [hf, definition.sizeOf_spec]
      omega
    exact written_of_ofJson (hzip p hp)
termination_by sizeOf f

theorem Written.ofJson_eq_ok {j : Json} {f : Formula} (h : Written Listed j f) :
    ofJson j = .ok f := by
  induction h with
  | symbol htype href =>
    rw [ofJson, htype]
    simp only [if_true, indexField_eq_ok_iff.mpr href]
    rfl
  | var htype href =>
    rw [ofJson, htype]
    simp only [word_eq_word_iff, indexField_eq_ok_iff.mpr href]
    rfl
  | app htype hfunction _ hargument _ hf hx =>
    rw [ofJson, htype]
    simp only [word_eq_word_iff, ofMember_eq_ok_iff.mpr ⟨_, hfunction, hf⟩,
      ofMember_eq_ok_iff.mpr ⟨_, hargument, hx⟩]
    rfl
  | definition htype href hvalue hitems hlen _ ih =>
    have hinputs := listOfJson_eq_ok_iff.mpr ⟨_, hitems, ofAll_eq_ok_iff.mpr ⟨hlen, ih⟩⟩
    rw [ofJson, htype]
    simp only [word_eq_word_iff, indexField_eq_ok_iff.mpr href,
      listOfMember_eq_ok_iff.mpr ⟨_, hvalue, hinputs⟩]
    rfl

/-- **What is read as a formula** is what stands for it, if the
empty text and the empty object stand for the empty list. -/
theorem ofJson_eq_ok_iff {j : Json} {f : Formula} : ofJson j = .ok f ↔ Written Listed j f :=
  ⟨written_of_ofJson, Written.ofJson_eq_ok⟩

/-- **A formula comes back** if all lists are written as arrays. -/
theorem Written.same {j : Json} {f : Formula} (h : Written Arrayed j f) :
    f.toJson.Same (j.pruned grammar) := by
  induction h with
  | symbol htype href => exact same_pruned_of_index htype href rfl
  | var htype href => exact same_pruned_of_index htype href rfl
  | app htype hfunction _ hargument _ hf hx =>
    refine same_pruned_of_parts [("function", toJson _), ("argument", toJson _)] htype rfl ?_
    rw [List.forall_mem_cons, List.forall_mem_singleton]
    exact ⟨⟨_, hfunction, hf⟩, _, hargument, hx⟩
  | @definition members ref value items inputs htype href hvalue hitems hlen _ ih =>
    cases hitems
    refine same_pruned_of_parts [("ref", .int ref), ("inputs", .arr (toJsonAll inputs))] htype rfl
      ?_
    rw [List.forall_mem_cons, List.forall_mem_singleton]
    refine ⟨⟨_, href, .refl _⟩, _, hvalue, ?_⟩
    rw [pruned, prunedItems_eq_map, toJsonAll_eq_map]
    refine .arr (by rw [List.length_map, List.length_map, hlen]) ?_
    rw [List.zip_map, List.forall_mem_map]
    exact fun p hp => ih (p.2, p.1) (mem_zip_comm.mp hp)

/-- If a formula comes back then all lists were written as arrays. -/
theorem Written.arrays {j : Json} {f : Formula} (h : Written Listed j f)
    (hsame : f.toJson.Same (j.pruned grammar)) : Written Arrayed j f := by
  induction h with
  | symbol htype href => exact .symbol htype href
  | var htype href => exact .var htype href
  | app htype hfunction _ hargument _ hf hx =>
    refine .app htype hfunction (hf ?_) hargument (hx ?_)
    · exact hsame.part htype rfl (List.mem_of_elem_eq_true rfl) rfl hfunction
    · exact hsame.part htype rfl (List.mem_of_elem_eq_true rfl) rfl hargument
  | @definition members ref value items inputs htype href hvalue hitems hlen _ ih =>
    have hinputs : Same (.arr (toJsonAll inputs)) (value.pruned grammar) :=
      hsame.part htype rfl (List.mem_of_elem_eq_true rfl) rfl hvalue
    obtain ⟨items, rfl⟩ := hinputs.eq_arr
    cases hitems
    rw [pruned, prunedItems_eq_map, toJsonAll_eq_map] at hinputs
    refine .definition htype href hvalue (.arr items) hlen fun p hp => ih p hp ?_
    refine hinputs.items.2 (p.2.toJson, p.1.pruned grammar) ?_
    rw [List.zip_map]
    exact List.mem_map_of_mem (mem_zip_comm.mp hp)

end Formula

/-- **What comes back.**  A signature and a justification are written as they were read, up to keys
that are not looked at.  A formula is so if and only if the inputs of each of its definitions were
an array; what else is read has an empty text or an empty object there. -/
theorem Json.reads_back (j : Json) :
    (∀ s, Signature.ofJson j = .ok s → s.toJson.Same (j.pruned Signature.grammar)) ∧
      (∀ k, Justification.ofJson j = .ok k → k.toJson.Same (j.pruned Justification.grammar)) ∧
      (∀ f, Formula.ofJson j = .ok f ↔ Formula.Written Formula.Listed j f) ∧
      ∀ f, Formula.ofJson j = .ok f →
        (f.toJson.Same (j.pruned Formula.grammar) ↔ Formula.Written Formula.Arrayed j f) := by
  refine ⟨fun s => Signature.same_of_ofJson, fun k => Justification.same_of_ofJson,
    fun f => Formula.ofJson_eq_ok_iff, fun f hf => ?_⟩
  exact ⟨(Formula.ofJson_eq_ok_iff.mp hf).arrays, Formula.Written.same⟩

namespace Sample

/-- The signature of a function, with a remark and with its parts in another order. -/
def functionNode : Json :=
  .obj [("output", .obj [("ref", .int 1), ("type", word "ground")]), ("remark", .null),
    ("type", word "compound"), ("input", .obj [("type", word "ground"), ("ref", .int 0)])]

/-- A citation, with a part that only other justifications have. -/
def citationNode : Json := .obj [("type", word "theorem"), ("index", .int 7), ("ref", .int (-1))]

/-- The node of a definition, with a remark. -/
def definitionNode (inputs : Json) : Json :=
  .obj [("type", word "definition"), ("remark", .arr []), ("inputs", inputs), ("ref", .int 0)]

/-- The three nodes come back. -/
theorem reads_back_nodes :
    (Signature.ofJson functionNode = .ok (.arrow (.ground 0) (.ground 1)) ∧
        (Signature.arrow (.ground 0) (.ground 1)).toJson.Same
          (functionNode.pruned Signature.grammar)) ∧
      (Justification.ofJson citationNode = .ok (.rule (.ofTheorem (-1))) ∧
        (Justification.rule (.ofTheorem (-1))).toJson.Same
          (citationNode.pruned Justification.grammar)) ∧
      (Formula.ofJson (definitionNode (.arr [definitionNode (.arr [])])) =
          .ok (.definition 0 [.definition 0 []]) ∧
        (Formula.definition 0 [.definition 0 []]).toJson.Same
          ((definitionNode (.arr [definitionNode (.arr [])])).pruned Formula.grammar)) := by
  have hsignature : Signature.ofJson functionNode = .ok (.arrow (.ground 0) (.ground 1)) := by rfl
  have hcitation : Justification.ofJson citationNode = .ok (.rule (.ofTheorem (-1))) := by rfl
  have hformula : Formula.ofJson (definitionNode (.arr [definitionNode (.arr [])])) =
    .ok (.definition 0 [.definition 0 []]) := by rfl
  have hinner : Formula.Written Formula.Arrayed (definitionNode (.arr [])) (.definition 0 []) :=
    .definition rfl rfl rfl (.arr []) rfl (List.forall_mem_nil _)
  have houter : Formula.Written Formula.Arrayed (definitionNode (.arr [definitionNode (.arr [])]))
      (.definition 0 [.definition 0 []]) :=
    .definition rfl rfl rfl (.arr _) rfl (List.forall_mem_singleton.mpr hinner)
  exact ⟨⟨hsignature, (Json.reads_back _).1 _ hsignature⟩,
    ⟨hcitation, (Json.reads_back _).2.1 _ hcitation⟩,
    hformula, ((Json.reads_back _).2.2.2 _ hformula).mpr houter⟩

/-- A definition that is applied to an empty text is read as one without inputs, which does not come
back. -/
theorem emptyText_not_same :
    Formula.ofJson (definitionNode (.str "")) = .ok (.definition 0 []) ∧
      ¬ (Formula.definition 0 []).toJson.Same
        ((definitionNode (.str "")).pruned Formula.grammar) := by
  have hread : Formula.ofJson (definitionNode (.str "")) = .ok (.definition 0 []) := by rfl
  refine ⟨hread, fun hsame => ?_⟩
  cases (Formula.ofJson_eq_ok_iff.mp hread).arrays hsame with
  | definition _ _ hvalue hitems =>
    cases hitems
    cases hvalue

end Sample

end Deduction
