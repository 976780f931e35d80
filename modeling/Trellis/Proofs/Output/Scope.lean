import Mathlib.Data.List.Nodup
import Trellis.Proofs.Output.Members

/-!
# Scope of an island

The names that an island's function declares come from the class, its services and inputs, and the
references and slots of its template. They are different as long as no two of these places have the
same name; and then code and template read each local as it was set up, but for an input that is
written and whose name is a reserved word.

* `Apart` says that the declared names come from different places; `nodup_scopeNames_iff` that this
  is when no name is declared twice.
* `perm_signalNames_iff`: the template reads as signals what was set up as signals.
* `Agreement` is what the declarations, the code and the template have to do with one another, and
  `component_scope` says it of the function of every island.
-/

namespace Trellis.Output

open Trellis.Build
open Trellis.Jsx
open Trellis.Project
open Trellis.Text
open Trellis.TypeScript

/-! ## Names in the template -/

/-- The names of the locals that are signals. -/
def signalLocals (c : ClassModel) (t : Transformed) : List String :=
  ((islandLocals c t).filter (·.hook = .signal)).map (·.name)

theorem signalLocals_eq (c : ClassModel) (t : Transformed) :
    signalLocals c t = c.state.map (·.name) ++
      (assignedInputs c (inputsOf (some c))).map (·.variableName) ++ c.getters.map (·.name) := by
  simp [signalLocals, islandLocals, islandSetup, islandMethods, List.filter_map, Function.comp_def]

theorem safeVariable_not_reserved (name : String) :
    Naming.safeVariable name ∉ Naming.reservedWords := by
  rw [Naming.safeVariable]
  split
  · decide
  · split
    · have hletter : ∀ word ∈ Naming.reservedWords, word.toList.head? ≠ some '_' := by decide
      exact fun h => hletter _ h (by simp)
    · next h => exact fun hmem => h (List.contains_iff_mem.mpr hmem)

theorem safeVariable_eq_self {name : String} (h : name ∉ Naming.reservedWords) :
    Naming.safeVariable name = name := by
  have hclass : name ≠ "class" := fun hname => h (hname ▸ by decide)
  rw [Naming.safeVariable, if_neg hclass, if_neg fun hmem => h (List.contains_iff_mem.mp hmem)]

/-- **A template reads as signals what was set up as signals**, up to order, exactly if no input
that is written has a reserved word for its name: such an input has another name in the template. -/
theorem perm_signalNames_iff (c : ClassModel) (t : Transformed) :
    (signalNames c (assignedInputs c (inputsOf (some c)))).Perm (signalLocals c t) ↔
      ∀ i ∈ assignedInputs c (inputsOf (some c)), i.property ∉ Naming.reservedWords := by
  rw [signalLocals_eq, signalNames]
  generalize assignedInputs c (inputsOf (some c)) = signals
  constructor
  · intro hperm i hi hreserved
    -- The reserved word is among the names, but no local has it.
    have hcount := hperm.count_eq i.property
    simp only [List.count_append] at hcount
    have hnone : (signals.map (·.variableName)).count i.property = 0 := by
      rw [List.count_eq_zero, List.mem_map]
      rintro ⟨j, -, hj⟩
      rw [← hj] at hreserved
      exact safeVariable_not_reserved j.property hreserved
    have hsome : 0 < (signals.map (·.property)).count i.property :=
      List.count_pos_iff.mpr (List.mem_map_of_mem hi)
    omega
  · intro hfree
    have hnames : signals.map (·.variableName) = signals.map (·.property) :=
      List.map_congr_left fun i hi => safeVariable_eq_self (hfree i hi)
    rw [hnames, List.append_assoc, List.append_assoc]
    exact List.perm_append_comm.append_left _

/-! ## Declared names -/

/-- The parameter of an island's function, if it has one. -/
def parameters (c : ClassModel) (t : Transformed) : List String :=
  if !(inputsOf (some c)).isEmpty || t.hasSlots then ["props"] else []

/-- The names that an island's function declares. -/
def scopeNames (c : ClassModel) (t : Transformed) : List String :=
  parameters c t ++ (islandLocals c t).map (·.name)

/-- The same names by where they come from: the parameter, services, inputs, slots, references, and
members of the class that are locals under their own names. -/
def scopeGroups (c : ClassModel) (t : Transformed) : List (List String) :=
  [parameters c t, c.dependencies.map fun d => Naming.serviceVariable d.type,
    (inputsOf (some c)).map (·.variableName), slotProps t, t.refs,
    c.state.map (·.name) ++ c.getters.map (·.name) ++
      (c.methods.filter (!·.isLifecycle)).map (·.name)]

/-- The names that an island's function declares come from different places. -/
structure Apart (c : ClassModel) (t : Transformed) : Prop where
  services : (c.dependencies.map fun d => Naming.serviceVariable d.type).Nodup
  inputs : ((inputsOf (some c)).map (·.variableName)).Nodup
  /-- The default slot has a name of its own. -/
  slots : t.hasDefaultSlot = true → "children" ∉ t.slots
  groups : (scopeGroups c t).Pairwise List.Disjoint

/-- Inputs are only read or signals, not both. -/
theorem perm_inputs (c : ClassModel) (inputs : List Input) :
    (inputs.filter (!(assignedInputs c inputs).contains ·) ++ assignedInputs c inputs).Perm
      inputs := by
  rw [assignedInputs]
  generalize (fun i : Input => List.contains _ i.property) = written
  have hread : inputs.filter (!(inputs.filter written).contains ·) =
      inputs.filter (!written ·) := by
    refine List.filter_congr fun i hi => ?_
    simp [hi]
  rw [hread]
  exact List.perm_append_comm.trans (List.filter_append_perm written inputs)

theorem perm_scopeNames (c : ClassModel) (t : Transformed) :
    (scopeNames c t).Perm (scopeGroups c t).flatten := by
  have hinputs := (perm_inputs c (inputsOf (some c))).map (·.variableName)
  rw [List.perm_iff_count]
  intro name
  have hcount := hinputs.count_eq name
  simp only [scopeNames, scopeGroups, islandLocals, islandSetup, islandMethods, List.map_append,
    List.map_map, Function.comp_def, List.map_id', List.flatten_cons, List.flatten_nil,
    List.append_nil, List.count_append] at hcount ⊢
  omega

theorem nodup_slotProps_iff {t : Transformed} (h : t.slots.Nodup) :
    (slotProps t).Nodup ↔ (t.hasDefaultSlot = true → "children" ∉ t.slots) := by
  rw [slotProps]
  cases t.hasDefaultSlot <;> simp [h]

/-- **No name is declared twice exactly if all come from different places.** The members of a class
have different names, and so have the references and the slots of a template. -/
theorem nodup_scopeNames_iff {c : ClassModel} {t : Transformed} (hmembers : (memberNames c).Nodup)
    (hrefs : t.refs.Nodup) (hslots : t.slots.Nodup) : (scopeNames c t).Nodup ↔ Apart c t := by
  have hparameters : (parameters c t).Nodup := by
    rw [parameters]
    split
    · exact List.nodup_singleton _
    · exact List.nodup_nil
  have hown : (c.state.map (·.name) ++ c.getters.map (·.name) ++
      (c.methods.filter (!·.isLifecycle)).map (·.name)).Nodup := by
    have hnames := (List.nodup_append.mp (nodup_inputs_ownNames hmembers)).2.1
    refine (List.nodup_append.mp hnames).1.sublist ?_
    exact ((List.filter_sublist).map _).append_left _
  rw [(perm_scopeNames c t).nodup_iff, List.nodup_flatten]
  constructor
  · rintro ⟨hgroup, hgroups⟩
    exact ⟨hgroup _ (by simp [scopeGroups]), hgroup _ (by simp [scopeGroups]),
      (nodup_slotProps_iff hslots).mp (hgroup _ (by simp [scopeGroups])), hgroups⟩
  · rintro ⟨hservices, hinputs, hchildren, hgroups⟩
    refine ⟨fun group hgroup => ?_, hgroups⟩
    simp only [scopeGroups, List.mem_cons, List.not_mem_nil, or_false] at hgroup
    rcases hgroup with rfl | rfl | rfl | rfl | rfl | rfl
    · exact hparameters
    · exact hservices
    · exact hinputs
    · exact (nodup_slotProps_iff hslots).mpr hchildren
    · exact hrefs
    · exact hown

/-! ## Agreement -/

/-- Locals are told apart by their names. -/
theorem eq_of_name_eq {c : ClassModel} {t : Transformed} (h : (scopeNames c t).Nodup) {k l : Local}
    (hk : k ∈ islandLocals c t) (hl : l ∈ islandLocals c t) (hname : k.name = l.name) : k = l :=
  List.inj_on_of_nodup_map (List.nodup_append.mp h).2.1 hk hl hname

/-- A template reads a member as a signal exactly if it was set up as one. -/
theorem mem_signalNames_iff {c : ClassModel} {t : Transformed} (hscope : (scopeNames c t).Nodup)
    (hfree : ∀ i ∈ assignedInputs c (inputsOf (some c)), i.property ∉ Naming.reservedWords)
    {m : Member} (h : m ∈ islandMembers c t) :
    m.target.name ∈ signalNames c (assignedInputs c (inputsOf (some c))) ↔
      m.target.hook = .signal := by
  have htarget := target_mem_islandLocals h
  rw [((perm_signalNames_iff c t).mpr hfree).mem_iff, signalLocals, List.mem_map]
  constructor
  · rintro ⟨l, hl, hname⟩
    obtain ⟨hl, hsignal⟩ := List.mem_filter.mp hl
    rw [← eq_of_name_eq hscope hl htarget hname]
    exact of_decide_eq_true hsignal
  · exact fun hsignal => ⟨_, List.mem_filter.mpr ⟨htarget, decide_eq_true hsignal⟩, rfl⟩

/-- How the declarations of an island's function, the code of its class and its template read its
members. -/
structure Agreement (c : ClassModel) (t : Transformed) : Prop where
  /-- No name is declared twice exactly if the names come from different places. -/
  declared : (scopeNames c t).Nodup ↔ Apart c t
  /-- There is a local behind every member. -/
  targets : ∀ m ∈ islandMembers c t, m.target ∈ islandLocals c t
  /-- The code reads fields, getters, methods and services as they were set up. -/
  ofClass : ∀ m ∈ classMembers c, (islandNames c t).apply m.name = m.target.value
  /-- It reads an input so exactly if it is not also a reference. -/
  ofInputs : ∀ m ∈ inputMembers c,
    (islandNames c t).apply m.name = m.target.value ↔ m.name ∉ t.refs
  /-- It reads an element so exactly if no member of the class has its name; a service that has it
  is read instead. -/
  ofElements : ∀ m ∈ elementMembers t, m.name ∉ c.dependencies.map (·.name) →
    ((islandNames c t).apply m.name = m.target.value ↔ m.name ∉ ownNames c)
  /-- The template reads as signals the locals that are signals, exactly if no input that is written
  has a reserved word for its name. -/
  signals : (signalNames c (assignedInputs c (inputsOf (some c)))).Perm (signalLocals c t) ↔
    ∀ i ∈ assignedInputs c (inputsOf (some c)), i.property ∉ Naming.reservedWords
  /-- Then, if no name is declared twice, it reads as signals the members that are signals. -/
  ofTemplate : (scopeNames c t).Nodup →
    (∀ i ∈ assignedInputs c (inputsOf (some c)), i.property ∉ Naming.reservedWords) →
    ∀ m ∈ islandMembers c t,
      (m.target.name ∈ signalNames c (assignedInputs c (inputsOf (some c))) ↔
        m.target.hook = .signal)

theorem agreement {c : ClassModel} {t : Transformed} (hmembers : (memberNames c).Nodup)
    (hrefs : t.refs.Nodup) (hslots : t.slots.Nodup) : Agreement c t where
  declared := nodup_scopeNames_iff hmembers hrefs hslots
  targets _ := target_mem_islandLocals
  ofClass _ := apply_classMember hmembers
  ofInputs _ := apply_inputMember_iff hmembers hrefs
  ofElements _ := apply_elementMember_iff hmembers hrefs
  signals := perm_signalNames_iff c t
  ofTemplate hscope hfree _ := mem_signalNames_iff hscope hfree

/-- **The scope of an island.** For every island whose class has members of different names, the
lines of its function declare its locals, each set up by its hook, with the effect between them; its
code is written with `islandNames` and its template with `signalNames`; and declarations, code and
template agree as far as `Agreement` says. -/
theorem component_scope {env : Environment} {v : View} {stylePath helpersImport : Option String}
    {file : File} (hfile : (component env v stylePath helpersImport).value = .ok file)
    (hisland : v.isIsland = true) (hmembers : (memberNames v.model).Nodup) :
    ∃ template t, serviceReferences v.template v.model.dependencies = .ok template ∧
      t = (transform env false template).value ∧
      (∃ top setup, file.content = top ++ functionText
          ("export default function " ++ v.className ++ parameterText v t)
          (setup ++ effectLines (lastBody (islandNames v.model t) initMethods v.model)
            (lastBody (islandNames v.model t) destroyMethods v.model) ++
            (v.model.methods.filter (!·.isLifecycle)).map (islandMethod (islandNames v.model t)))
          (returnExpression
            (signalReferences t.jsx (signalNames v.model (assignedInputs v.model v.inputs)))) ++
          "\n" ∧
        List.Forall₂ Local.SetBy (islandSetup v.model t) setup ∧
        List.Forall₂ Local.SetBy (islandMethods v.model)
          ((v.model.methods.filter (!·.isLifecycle)).map (islandMethod (islandNames v.model t)))) ∧
      Agreement v.model t := by
  obtain ⟨template, htemplate, rfl⟩ := component_eq_ok hfile
  have hagree : Agreement v.model (transform env false template).value :=
    agreement hmembers (nodup_refs_transform env false template)
      (nodup_slots_transform env false template)
  obtain ⟨interface, hcontent, -⟩ :=
    content_componentModule env v template stylePath helpersImport rfl rfl
  simp only [if_pos hisland] at hcontent
  generalize ht : (transform env false template).value = t at hagree hcontent
  obtain ⟨setup, htext, hsetup⟩ := functionText_island hisland t
    ("export default function " ++ v.className ++ parameterText v t)
    (returnExpression
      (signalReferences t.jsx (signalNames v.model (assignedInputs v.model v.inputs)))) rfl rfl
  rw [htext] at hcontent
  exact ⟨template, t, htemplate, ht.symm, ⟨_, setup, hcontent, hsetup⟩, hagree⟩

/-! ### A field that is also a reference -/

/-- An element with a reference to it. -/
def searchTemplate : String := "<input #box/>"

/-- A class that keeps the element in a field of the same name. -/
def searchSource : String :=
  "export class Search \x7b box: HTMLInputElement | null = null; " ++
    "go() \x7b this.box.focus(); \x7d \x7d"

/-- The island of that class and template. -/
def searchView : View :=
  ⟨.ofString "search", "search", .component { className := "Search", island := some true },
    .ofString searchSource, searchTemplate, "mod.ts"⟩

theorem refs_searchTemplate : (transform {} false searchTemplate).value.refs = ["box"] := by
  have hchildren : (Template.parseTemplate searchTemplate).document.children =
      [.element "input" true [.ofRaw "#box" none ⟨1, 8, 7, 11⟩] [] ⟨1, 1, 0, 13⟩] := by
    with_unfolding_all rfl
  change ((emitNodes _ _).run {}).2.refs = _
  rw [hchildren]
  decide +kernel

theorem model_searchView : searchView.model.dependencies = [] ∧
    memberNames searchView.model = ["box", "go"] ∧
    searchView.model.state.map (·.name) = ["box"] := by
  decide +kernel

theorem template_searchView :
    serviceReferences searchView.template searchView.model.dependencies = .ok searchTemplate := by
  rw [model_searchView.1]
  rfl

theorem exists_component_searchView : ∃ file, (component {} searchView).value = .ok file := by
  rw [component, template_searchView]
  exact ⟨_, rfl⟩

theorem nodup_memberNames_searchView : (memberNames searchView.model).Nodup := by
  rw [model_searchView.2.1]
  decide

/-- The field, which is a signal. -/
theorem box_mem_classMembers : ⟨"box", "box", .signal⟩ ∈ classMembers searchView.model := by
  have hstate : "box" ∈ searchView.model.state.map (·.name) := by
    rw [model_searchView.2.2]
    exact List.mem_singleton_self _
  obtain ⟨p, hp, hname⟩ := List.mem_map.mp hstate
  have hfield : ⟨p.name, p.name, .signal⟩ ∈ classMembers searchView.model := by
    simp only [classMembers, List.mem_append, List.mem_map]
    exact .inl (.inl (.inl ⟨p, hp, rfl⟩))
  rwa [hname] at hfield

theorem value_box : Local.value ⟨"box", .signal⟩ = "box.value" := by decide

/-- The reference to the element. -/
theorem box_mem_elementMembers :
    ⟨"box", "box", .element⟩ ∈ elementMembers (transform {} false searchTemplate).value := by
  rw [elementMembers, refs_searchTemplate]
  exact List.mem_singleton_self _

/-- The code of the class reads the field, not the element. -/
theorem component_scope_searchView :
    ∃ file, (component {} searchView).value = .ok file ∧
      (islandNames searchView.model (transform {} false searchTemplate).value).apply "box" =
        "box.value" := by
  obtain ⟨file, hfile⟩ := exists_component_searchView
  obtain ⟨template, t, htemplate, ht, -, hagree⟩ :=
    component_scope hfile rfl nodup_memberNames_searchView
  obtain rfl : searchTemplate = template :=
    Except.ok.inj (template_searchView.symm.trans htemplate)
  refine ⟨file, hfile, ?_⟩
  rw [← ht]
  exact (hagree.ofClass _ box_mem_classMembers).trans value_box

/-- The reference is declared a second time as a signal, and `this` does not give the element. -/
theorem element_hidden_searchView :
    (∃ file, (component {} searchView).value = .ok file) ∧ searchView.isIsland = true ∧
      (memberNames searchView.model).Nodup ∧
      serviceReferences searchView.template searchView.model.dependencies = .ok searchTemplate ∧
      "box" ∈ (transform {} false searchTemplate).value.refs ∧
      ¬(scopeNames searchView.model (transform {} false searchTemplate).value).Nodup ∧
      (islandNames searchView.model (transform {} false searchTemplate).value).apply "box" ≠
        "box.current" := by
  refine ⟨exists_component_searchView, rfl, nodup_memberNames_searchView, template_searchView, ?_,
    fun hscope => ?_, ?_⟩
  · rw [refs_searchTemplate]
    exact List.mem_singleton_self _
  · have helement := target_mem_islandLocals
      (List.mem_append_left (classMembers searchView.model)
        (List.mem_append_right (inputMembers searchView.model) box_mem_elementMembers))
    have hsignal := target_mem_islandLocals
      (List.mem_append_right (inputMembers searchView.model ++
        elementMembers (transform {} false searchTemplate).value) box_mem_classMembers)
    cases eq_of_name_eq hscope helement hsignal rfl
  · rw [(apply_classMember nodup_memberNames_searchView box_mem_classMembers).trans value_box]
    decide

end Trellis.Output
