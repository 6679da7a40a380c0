import Deduction.Document.Decode
import Deduction.Document.Encode
import Deduction.Draft
import Deduction.Proofs.Json.RoundTrip

/-!
# Documents are read back

A directory that is written as a document is read back as the same directory.  Reading back the
object of a directory is a matter of each kind of node by itself: a part is found under the key that
it was written under, and the parts that are nodes again are read back in turn.  Nothing is asked of
the references, which need not refer to anything, or of the identifiers.

The text has to be read back as the object as well (`Proofs.Json.RoundTrip`).  For this the
identifiers have to be values that writing keeps, and strings are such values.

A document can also be read by entering its declarations into a draft one after the other and closing
the draft in the end.  This comes to the same for every document, good or bad
(`Directory.map_build_enterDocument`).

* `Directory.ofJson_toJson`: the object of a directory is read back.
* `Directory.lossless_toJson`: the text of the object is read back.
* `Draft.enterDocument`: reading into a draft.
* `Directory.load_save`: the text of a directory is read back.
-/

namespace Deduction

open Json (word)

/-! ## Parts of objects -/

theorem ok_bind {ε α β : Type} (a : α) (f : α → Except ε β) : (Except.ok a >>= f) = f a := rfl

theorem ok_eq_pure {ε α : Type} (a : α) : (pure a : Except ε α) = .ok a := rfl

namespace Json

/-- A part is looked for under its key. -/
theorem memberOf?_cons (key other : String) (value : Json) (members : List (Text × Json)) :
    memberOf? key ((Text.ofString other, value) :: members) =
      if other = key then some value else memberOf? key members := by
  simp only [memberOf?, Text.ofString_inj]

theorem field_cons (key other : String) (value : Json) (members : List (Text × Json)) :
    (Json.obj ((Text.ofString other, value) :: members)).field key =
      if other = key then .ok value else (Json.obj members).field key := by
  rw [field, memberOf?_cons]
  by_cases h : other = key
  · rw [if_pos h, if_pos h]
  · rw [if_neg h, if_neg h, field]

theorem listField_cons (key other : String) (value : Json) (members : List (Text × Json)) :
    (Json.obj ((Text.ofString other, value) :: members)).listField key =
      if other = key then value.items else (Json.obj members).listField key := by
  rw [listField, memberOf?_cons]
  by_cases h : other = key
  · rw [if_pos h, if_pos h, Option.getD_some]
  · rw [if_neg h, if_neg h, listField]

theorem word_eq_word_iff {s t : String} : word s = word t ↔ s = t := by
  rw [word, word, Json.str.injEq, Text.ofString_inj]

end Json

open Json

/-- A list that was written entry by entry is read back. -/
theorem readAll_of_items {α : Type} {read : Json → Except DocumentError α} {write : α → Json}
    (h : ∀ a, read (write a) = .ok a) (as : List α) :
    (Json.arr (as.map write)).items >>= readAll read = .ok as :=
  readAll_map fun a _ => h a

/-! ## Nodes -/

theorem Signature.ofJson_toJson (s : Signature) : ofJson s.toJson = .ok s := by
  induction s with
  | ground type =>
    simp [toJson, ofJson, memberOf?_cons, indexField, field_cons, index, ok_bind, ok_eq_pure]
  | arrow input output hinput houtput =>
    simp [toJson, ofJson, ofMember, memberOf?_cons, word_eq_word_iff, hinput, houtput, ok_bind,
      ok_eq_pure]

namespace Formula

theorem ofAll_map {fs : List Formula} (h : ∀ f ∈ fs, ofJson f.toJson = .ok f) :
    ofAll (fs.map toJson) = .ok fs := by
  induction fs with
  | nil => rfl
  | cons f fs ih =>
    rw [List.forall_mem_cons] at h
    rw [List.map_cons, ofAll, h.1, ok_bind, ih h.2, ok_bind]
    rfl

theorem ofJson_toJson (f : Formula) : ofJson f.toJson = .ok f := by
  induction f using inductionOn with
  | symbol ref =>
    simp [toJson, ofJson, memberOf?_cons, indexField, field_cons, index, ok_bind, ok_eq_pure]
  | var ref =>
    simp [toJson, ofJson, memberOf?_cons, indexField, field_cons, index, word_eq_word_iff, ok_bind,
      ok_eq_pure]
  | app f x hf hx =>
    simp [toJson, ofJson, ofMember, memberOf?_cons, word_eq_word_iff, hf, hx, ok_bind, ok_eq_pure]
  | definition ref inputs ih =>
    simp [toJson, toJsonAll_eq_map, ofJson, listOfMember, listOfJson, ofAll_map ih, memberOf?_cons,
      indexField, field_cons, index, word_eq_word_iff, ok_bind, ok_eq_pure]

end Formula

theorem Justification.ofJson_toJson (j : Justification) : ofJson j.toJson = .ok j := by
  rcases j with ⟨ref | ref⟩ | position | _ | _ | _ <;>
    simp [toJson, ofJson, indexField, field_cons, index, word_eq_word_iff, ok_bind, ok_eq_pure]

theorem Variable.ofJson_toJson (v : Variable) : ofJson v.toJson = .ok v := by
  simp [toJson, ofJson, field_cons, Signature.ofJson_toJson, ok_bind, ok_eq_pure]

theorem Step.ofJson_toJson (s : Step) : ofJson s.toJson = .ok s := by
  simp [toJson, ofJson, field_cons, Justification.ofJson_toJson, Formula.ofJson_toJson, ok_bind,
    ok_eq_pure]

theorem Flag.ofJson_word (f : Flag) : ofJson (word f.name) = .ok f := by
  cases f <;> simp [ofJson, all, name, word_eq_word_iff]

theorem SystemDecl.ofJson_toJson (s : SystemDecl) : ofJson s.toJson = .ok s := by
  simp [toJson, ofJson, field_cons, ok_bind, ok_eq_pure]

theorem TypeDecl.ofJson_toJson (t : TypeDecl) : ofJson t.toJson = .ok t := by
  simp [toJson, ofJson, indexField, field_cons, index, ok_bind, ok_eq_pure]

theorem SymbolDecl.ofJson_toJson (s : SymbolDecl) : ofJson s.toJson = .ok s := by
  simp [toJson, ofJson, indexField, field_cons, index, Signature.ofJson_toJson, ok_bind, ok_eq_pure]

theorem Definition.ofJson_toJson (d : Definition) : ofJson d.toJson = .ok d := by
  simp [toJson, ofJson, indexField, field_cons, listField_cons, index, readList,
    readAll_of_items Variable.ofJson_toJson, Formula.ofJson_toJson, ok_bind, ok_eq_pure]

/-- Axioms and theorems are read alike, whatever they are called. -/
theorem Rule.ofJson_toJson (type : String) (r : Rule) : ofJson (r.toJson type) = .ok r := by
  simp [toJson, ofJson, indexField, field_cons, listField_cons, index, readList,
    readAll_of_items Variable.ofJson_toJson, readAll_of_items Formula.ofJson_toJson,
    readAll_of_items Flag.ofJson_word, Formula.ofJson_toJson, ok_bind, ok_eq_pure]

theorem Proof.ofJson_toJson (p : Proof) : ofJson p.toJson = .ok p := by
  simp [toJson, ofJson, indexField, field_cons, listField_cons, index, readList,
    readAll_of_items Step.ofJson_toJson, ok_bind, ok_eq_pure]

/-- **The object of a directory is read back**, whatever its references and identifiers are. -/
theorem Directory.ofJson_toJson (D : Directory) : ofJson D.toJson = .ok D := by
  simp [toJson, ofJson, listField_cons, readList, readAll_of_items SystemDecl.ofJson_toJson,
    readAll_of_items TypeDecl.ofJson_toJson, readAll_of_items SymbolDecl.ofJson_toJson,
    readAll_of_items Definition.ofJson_toJson, readAll_of_items (Rule.ofJson_toJson _),
    readAll_of_items Proof.ofJson_toJson, ok_bind, ok_eq_pure]

/-! ## Identifiers and text -/

namespace Directory

/-- The identifiers that a directory holds. -/
def ids (D : Directory) : List Name :=
  D.systems.map SystemDecl.id ++ D.types.map TypeDecl.id ++ D.symbols.map SymbolDecl.id ++
    D.definitions.flatMap (fun d => d.id :: d.inputs.map Variable.id) ++
    (D.axioms ++ D.theorems).flatMap fun r => r.id :: r.scope.map Variable.id

end Directory

theorem Signature.lossless_toJson (s : Signature) : s.toJson.Lossless := by
  induction s with
  | ground type => exact .obj (by simp) (by simp [lossless_word, Lossless.int])
  | arrow input output hinput houtput =>
    exact .obj (by simp) (by simp [lossless_word, hinput, houtput])

theorem Formula.lossless_toJson (f : Formula) : f.toJson.Lossless := by
  induction f using inductionOn with
  | symbol ref => exact .obj (by simp) (by simp [lossless_word, Lossless.int])
  | var ref => exact .obj (by simp) (by simp [lossless_word, Lossless.int])
  | app f x hf hx => exact .obj (by simp) (by simp [lossless_word, hf, hx])
  | definition ref inputs ih =>
    have hinputs : (Json.arr (toJsonAll inputs)).Lossless := by
      rw [toJsonAll_eq_map]
      exact .arr (List.forall_mem_map.mpr ih)
    exact .obj (by simp) (by simp [lossless_word, Lossless.int, hinputs])

theorem Justification.lossless_toJson (j : Justification) : j.toJson.Lossless := by
  rcases j with ⟨ref | ref⟩ | position | _ | _ | _ <;>
    exact .obj (by simp) (by simp [lossless_word, Lossless.int])

theorem Step.lossless_toJson (s : Step) : s.toJson.Lossless :=
  .obj (by simp) (by simp [lossless_word, Justification.lossless_toJson, Formula.lossless_toJson])

theorem Variable.lossless_toJson {v : Variable} (h : v.id.Lossless) : v.toJson.Lossless :=
  .obj (by simp) (by simp [lossless_word, h, Signature.lossless_toJson])

theorem lossless_arr_map {α : Type} {write : α → Json} {as : List α}
    (h : ∀ a ∈ as, (write a).Lossless) : (Json.arr (as.map write)).Lossless :=
  .arr (List.forall_mem_map.mpr h)

theorem Definition.lossless_toJson {d : Definition}
    (h : ∀ id ∈ d.id :: d.inputs.map Variable.id, id.Lossless) : d.toJson.Lossless := by
  rw [List.forall_mem_cons, List.forall_mem_map] at h
  have hinputs : (Json.arr (d.inputs.map Variable.toJson)).Lossless :=
    lossless_arr_map fun v hv => Variable.lossless_toJson (h.2 v hv)
  exact .obj (by simp)
    (by simp [lossless_word, Lossless.int, h.1, hinputs, Formula.lossless_toJson])

theorem Rule.lossless_toJson {r : Rule} (type : String)
    (h : ∀ id ∈ r.id :: r.scope.map Variable.id, id.Lossless) : (r.toJson type).Lossless := by
  rw [List.forall_mem_cons, List.forall_mem_map] at h
  have hscope : (Json.arr (r.scope.map Variable.toJson)).Lossless :=
    lossless_arr_map fun v hv => Variable.lossless_toJson (h.2 v hv)
  have hpremises : (Json.arr (r.premises.map Formula.toJson)).Lossless :=
    lossless_arr_map fun p _ => p.lossless_toJson
  have hflags : (Json.arr (r.flags.map fun f => word f.name)).Lossless :=
    lossless_arr_map fun f _ => lossless_word f.name
  exact .obj (by simp)
    (by simp [lossless_word, Lossless.int, h.1, hscope, hpremises, hflags,
      Formula.lossless_toJson])

theorem Proof.lossless_toJson (p : Proof) : p.toJson.Lossless := by
  have hsteps : (Json.arr (p.steps.map Step.toJson)).Lossless :=
    lossless_arr_map fun s _ => s.lossless_toJson
  exact .obj (by simp) (by simp [lossless_word, Lossless.int, hsteps])

namespace Directory

variable {D : Directory}

/-- **Writing keeps a directory if it keeps the identifiers.** -/
theorem lossless_toJson (h : ∀ id ∈ D.ids, id.Lossless) : D.toJson.Lossless := by
  simp only [ids, List.forall_mem_append, List.forall_mem_map, List.forall_mem_flatMap] at h
  obtain ⟨⟨⟨⟨hsystems, htypes⟩, hsymbols⟩, hdefinitions⟩, haxioms, htheorems⟩ := h
  have hsystems : (Json.arr (D.systems.map SystemDecl.toJson)).Lossless :=
    lossless_arr_map fun s hs => .obj (by simp) (by simp [lossless_word, hsystems s hs])
  have htypes : (Json.arr (D.types.map TypeDecl.toJson)).Lossless :=
    lossless_arr_map fun t ht =>
      .obj (by simp) (by simp [lossless_word, Lossless.int, htypes t ht])
  have hsymbols : (Json.arr (D.symbols.map SymbolDecl.toJson)).Lossless :=
    lossless_arr_map fun s hs => .obj (by simp)
      (by simp [lossless_word, Lossless.int, hsymbols s hs, Signature.lossless_toJson])
  have hdefinitions : (Json.arr (D.definitions.map Definition.toJson)).Lossless :=
    lossless_arr_map fun d hd => Definition.lossless_toJson (hdefinitions d hd)
  have haxioms : (Json.arr (D.axioms.map (Rule.toJson "axiom"))).Lossless :=
    lossless_arr_map fun r hr => Rule.lossless_toJson "axiom" (haxioms r hr)
  have htheorems : (Json.arr (D.theorems.map (Rule.toJson "theorem"))).Lossless :=
    lossless_arr_map fun r hr => Rule.lossless_toJson "theorem" (htheorems r hr)
  have hproofs : (Json.arr (D.proofs.map Proof.toJson)).Lossless :=
    lossless_arr_map fun p _ => p.lossless_toJson
  exact .obj (by simp) (by simp [lossless_word, hsystems, htypes, hsymbols, hdefinitions, haxioms,
    htheorems, hproofs])

end Directory

/-! ## Reading into a draft -/

/-- A definition to which nothing is missing. -/
def DefinitionDraft.ofDefinition (d : Definition) : DefinitionDraft :=
  ⟨d.id, d.system, d.inputs, some d.expansion⟩

/-- A rule to which nothing is missing. -/
def RuleDraft.ofRule (r : Rule) : RuleDraft :=
  ⟨r.id, r.system, r.scope, r.premises, some r.assertion, r.flags⟩

theorem closeAll_map {α β : Type} {close : β → Except DraftError α} {draft : α → β}
    (h : ∀ a, close (draft a) = .ok a) (as : List α) : closeAll close (as.map draft) = .ok as := by
  induction as with
  | nil => rfl
  | cons a as ih =>
    rw [List.map_cons, closeAll, h, ok_bind, ih, ok_bind]
    rfl

namespace Draft

/-- Reading entries one by one and entering each into a draft. -/
def enterAll {α : Type} (read : Json → Except DocumentError α) (enter : α → StateM Draft Nat) :
    List Json → Draft → Except DocumentError Draft
  | [], d => .ok d
  | j :: js, d => do
    let entry ← read j
    enterAll read enter js (enter entry d).2

/-- The same for the entries of a list in a part of an object. -/
def enterList {α : Type} (read : Json → Except DocumentError α) (enter : α → StateM Draft Nat)
    (key : Text) (j : Json) (d : Draft) : Except DocumentError Draft := do
  let values ← j.listField key
  enterAll read enter values d

/-- The draft of a document: its declarations are entered in the order in which they are read. -/
def enterDocument (j : Json) : Except DocumentError Draft := do
  let d ← enterList SystemDecl.ofJson addSystem "systems" j {}
  let d ← enterList TypeDecl.ofJson addType "types" j d
  let d ← enterList SymbolDecl.ofJson addSymbol "symbols" j d
  let d ← enterList Definition.ofJson (fun e => addDefinition (.ofDefinition e)) "definitions" j d
  let d ← enterList Rule.ofJson (fun r => addAxiom (.ofRule r)) "axioms" j d
  let d ← enterList Rule.ofJson (fun r => addTheorem (.ofRule r)) "theorems" j d
  enterList Proof.ofJson addProof "proofs" j d

/-- Entering a list is reading it and then entering what was read. -/
theorem enterList_eq {α : Type} (read : Json → Except DocumentError α)
    (enter : α → StateM Draft Nat) (enterEach : List α → Draft → Draft)
    (hnil : ∀ d, enterEach [] d = d)
    (hcons : ∀ a as d, enterEach (a :: as) d = enterEach as (enter a d).2) (key : Text) (j : Json)
    (d : Draft) : enterList read enter key j d = (readList read key j).map (enterEach · d) := by
  have hall : ∀ js d, enterAll read enter js d = (readAll read js).map (enterEach · d) := by
    intro js
    induction js with
    | nil =>
      intro d
      rw [enterAll, readAll, Except.map, hnil]
    | cons j js ih =>
      intro d
      rw [enterAll, readAll]
      cases read j with
      | error e => rfl
      | ok a =>
        rw [ok_bind, ok_bind, ih]
        cases readAll read js with
        | error e => rfl
        | ok as => exact congrArg Except.ok (hcons a as d).symm
  rw [enterList, readList]
  cases j.listField key with
  | error e => rfl
  | ok values => exact hall values d

end Draft

open Draft in
/-- **Reading a document is entering its declarations into a draft and closing the draft**, for
every document. -/
theorem Directory.map_build_enterDocument (j : Json) :
    (enterDocument j).map Draft.build = (Directory.ofJson j).map Except.ok := by
  have hsystems := enterList_eq SystemDecl.ofJson addSystem
    (fun as d => { d with systems := d.systems ++ as }) (by simp) (by simp [addSystem]) "systems" j
  have htypes := enterList_eq TypeDecl.ofJson addType
    (fun as d => { d with types := d.types ++ as }) (by simp) (by simp [addType]) "types" j
  have hsymbols := enterList_eq SymbolDecl.ofJson addSymbol
    (fun as d => { d with symbols := d.symbols ++ as }) (by simp) (by simp [addSymbol]) "symbols" j
  have hdefinitions := enterList_eq Definition.ofJson (fun e => addDefinition (.ofDefinition e))
    (fun as d => { d with definitions := d.definitions ++ as.map .ofDefinition }) (by simp)
    (by simp [addDefinition]) "definitions" j
  have haxioms := enterList_eq Rule.ofJson (fun r => addAxiom (.ofRule r))
    (fun as d => { d with axioms := d.axioms ++ as.map .ofRule }) (by simp) (by simp [addAxiom])
    "axioms" j
  have htheorems := enterList_eq Rule.ofJson (fun r => addTheorem (.ofRule r))
    (fun as d => { d with theorems := d.theorems ++ as.map .ofRule }) (by simp)
    (by simp [addTheorem]) "theorems" j
  have hproofs := enterList_eq Proof.ofJson addProof
    (fun as d => { d with proofs := d.proofs ++ as }) (by simp) (by simp [addProof]) "proofs" j
  simp only [enterDocument, Directory.ofJson, hsystems, htypes, hsymbols, hdefinitions, haxioms,
    htheorems, hproofs]
  -- the same parts are read in the same order, so both stop at the same problem
  rcases readList SystemDecl.ofJson "systems" j with e | systems
  · rfl
  rcases readList TypeDecl.ofJson "types" j with e | types
  · rfl
  rcases readList SymbolDecl.ofJson "symbols" j with e | symbols
  · rfl
  rcases readList Definition.ofJson "definitions" j with e | definitions
  · rfl
  rcases readList Rule.ofJson "axioms" j with e | axioms
  · rfl
  rcases readList Rule.ofJson "theorems" j with e | theorems
  · rfl
  rcases readList Proof.ofJson "proofs" j with e | proofs
  · rfl
  have hdefinition : ∀ d, DefinitionDraft.close (.ofDefinition d) = .ok d := fun d => rfl
  have hrule : ∀ r, RuleDraft.close (.ofRule r) = .ok r := fun r => rfl
  show Except.ok (Draft.build ⟨systems, types, symbols, definitions.map .ofDefinition,
    axioms.map .ofRule, theorems.map .ofRule, proofs⟩) = _
  rw [Draft.build, closeAll_map hdefinition, ok_bind, closeAll_map hrule, ok_bind,
    closeAll_map hrule, ok_bind]
  rfl

namespace Directory

/-- **A directory is read back from its text**, if its identifiers are strings.  The text is ASCII,
and it can also be read by entering its declarations into a draft. -/
theorem load_save (D : Directory) (h : ∀ id ∈ D.ids, ∃ s : String, id = word s) :
    load D.save = .ok D ∧ Ascii D.save.toList ∧
      ∃ j d, parse? D.save.toList = some j ∧ Draft.enterDocument j = .ok d ∧ d.build = .ok D := by
  have hlossless : D.toJson.Lossless := by
    refine lossless_toJson fun id hid => ?_
    obtain ⟨s, rfl⟩ := h id hid
    exact lossless_word s
  have hparse : parse D.save.toList = .ok D.toJson := hlossless.parse_pretty
  refine ⟨?_, ?_, ?_⟩
  · rw [load, hparse]
    exact ofJson_toJson D
  · rw [save, pretty, String.toList_ofList]
    exact hlossless.ascii_text 0
  · have hbuild := map_build_enterDocument D.toJson
    rw [ofJson_toJson, Except.map] at hbuild
    rcases hdraft : Draft.enterDocument D.toJson with e | d
    · rw [hdraft] at hbuild
      cases hbuild
    · rw [hdraft] at hbuild
      have hsome : parse? D.save.toList = some D.toJson := congrArg Except.toOption hparse
      exact ⟨D.toJson, d, hsome, hdraft, Except.ok.inj hbuild⟩

end Directory

namespace Outlandish

/-- A control character, the two characters that have to be escaped, a letter, the last character
that is a single unit, and one that is a surrogate pair. -/
def id : Name := word "\x00\"\\é\uffff😀"

/-- Every kind of node, with references that lead nowhere. -/
def directory : Directory where
  systems := [⟨id⟩]
  types := [⟨id, -1⟩]
  symbols := [⟨id, 1000000000000000000000, .arrow (.ground (-7)) (.ground 1000000000000000000000)⟩]
  definitions := [⟨id, 0, [⟨id, .ground 3⟩],
    .definition (-1000000000000000000000) [.var (-1), .definition 0 []]⟩]
  axioms := [⟨id, 5, [⟨id, .ground 0⟩], [.app (.symbol 9) (.var 9)], .symbol (-2),
    [.function, .reflexive, .reflexive, .symmetric, .transitive]⟩]
  theorems := [⟨id, -5, [], [], .var 0, []⟩]
  proofs := [⟨-3, [⟨.rule (.ofAxiom 8), .var 0⟩, ⟨.rule (.ofTheorem (-8)), .var 0⟩,
    ⟨.hypothesis (-4), .var 0⟩, ⟨.definition, .var 0⟩, ⟨.functionApplication, .var 0⟩,
    ⟨.substitution, .var 0⟩]⟩]

/-- The directory is read back from its text. -/
theorem load_save_directory : (∀ id ∈ directory.ids, ∃ s : String, id = word s) ∧
    Directory.load directory.save = .ok directory := by
  have hids : ∀ other ∈ directory.ids, ∃ s : String, other = word s := by
    intro other hother
    have hid : other = id := by simpa [Directory.ids, directory] using hother
    exact ⟨_, hid⟩
  exact ⟨hids, (Directory.load_save directory hids).1⟩

end Outlandish

end Deduction
