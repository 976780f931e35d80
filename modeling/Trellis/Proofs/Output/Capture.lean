import Trellis.Proofs.Output.PageScope

/-!
# Captured members

The code of a class is written with the locals of the generated function in the place of the members
of `this`. The parameters and variables of its methods keep their names, and nothing keeps the two
apart: a local is captured by the method that binds its name.

* `viewLocal` is the local behind a member, for every component and page; `apply_viewNames` says
  that the code is written with its value.
* `Hygienic` says that a function binds none of the names of the locals that its body is written
  with, and `hygienic_iff` when that is so: if the function binds no member that its body asks for
  by its own name, no input by its variable and no service by its variable.
* `view_capture` says it of the functions of every module that is made from a view.
-/

namespace Trellis.Output

open Trellis.Build
open Trellis.Jsx
open Trellis.Project
open Trellis.Text
open Trellis.TypeScript

/-! ## Modules of views -/

/-- The module that is made from a component or a page, with its template transformed. -/
inductive Generated (env : Environment) (v : View) : Transformed → File → Prop
  | component {template : String} {stylePath helpersImport : Option String} {file : File} :
    serviceReferences v.template v.model.dependencies = .ok template →
    (component env v stylePath helpersImport).value = .ok file →
    Generated env v (transform env false template).value file
  | page {helpersImport : Option String} {file : File} : v.kind = .route →
    (page env v helpersImport).value = .ok file →
    Generated env v (transform env false v.template).value file

/-- The names that the code of a view is written with. -/
def viewNames (v : View) (t : Transformed) : Renaming :=
  if v.isIsland then islandNames v.model t else serverNames v.model

/-- The lines of a view's function that have the code of its getters and methods. -/
def codeLines (v : View) (r : Renaming) : List String :=
  if v.isIsland then
    v.model.getters.map (getterSignal r) ++
      effectLines (lastBody r initMethods v.model) (lastBody r destroyMethods v.model) ++
      (v.model.methods.filter (!·.isLifecycle)).map (islandMethod r)
  else
    v.model.getters.map (plainGetter r) ++
      (v.model.methods.filter (!·.isLifecycle)).map (plainMethod r)

theorem isIsland_of_route {v : View} (h : v.kind = .route) : v.isIsland = false := by
  rw [View.kind] at h
  rw [View.isIsland]
  cases hmetadata : v.metadata with
  | component m =>
    rw [hmetadata] at h
    cases h
  | route m => rfl
  | layout m => rfl

/-- The lines of a component's function end with its code. -/
theorem exists_componentBody_eq (v : View) (t : Transformed) {signals : List Input}
    (h : signals = if v.isIsland then assignedInputs v.model v.inputs else []) :
    ∃ setup, componentBody v t signals = setup ++ codeLines v (viewNames v t) := by
  subst h
  rw [codeLines, viewNames, componentBody]
  cases v.isIsland with
  | true =>
    simp only [if_true, islandBody, ← List.append_assoc]
    exact ⟨_, rfl⟩
  | false =>
    simp only [Bool.false_eq_true, if_false, serverBody, serverMembers, ← List.append_assoc]
    exact ⟨_, rfl⟩

/-- **The module of a view** has a function that ends with the code of the class. -/
theorem content_generated {env : Environment} {v : View} {t : Transformed} {file : File}
    (h : Generated env v t file) :
    ∃ top head setup returned bottom, file.content =
      top ++ functionText head (setup ++ codeLines v (viewNames v t)) returned ++ bottom := by
  cases h with
  | @component template stylePath helpersImport _ htemplate hfile =>
    obtain ⟨template', htemplate', rfl⟩ := component_eq_ok hfile
    obtain rfl : template = template' := Except.ok.inj (htemplate.symm.trans htemplate')
    obtain ⟨interface, hcontent, -⟩ :=
      content_componentModule env v template stylePath helpersImport rfl rfl
    obtain ⟨setup, hsetup⟩ :=
      exists_componentBody_eq v (transform env false template).value rfl
    rw [hsetup] at hcontent
    exact ⟨_, _, _, _, _, hcontent⟩
  | page hroute hfile =>
    obtain ⟨top, hcontent⟩ := content_page hfile
    rw [codeLines, viewNames, isIsland_of_route hroute]
    simp only [Bool.false_eq_true, if_false]
    rw [pageLines, List.append_assoc] at hcontent
    exact ⟨_, _, _, _, _, hcontent⟩

/-! ## Locals behind members -/

/-- The local behind a member. -/
def viewLocal (v : View) (t : Transformed) (member : String) : Local :=
  if v.isIsland then islandLocal v.model t member else serverLocal v.model member

theorem apply_viewNames (v : View) (t : Transformed) (member : String) :
    (viewNames v t).apply member = (viewLocal v t member).value := by
  rw [viewNames, viewLocal]
  split
  · exact apply_islandNames v.model t member
  · exact apply_serverNames v.model member

/-- The member is read as an input: it is one, and in an island nothing else has its name. -/
def ReadsInput (v : View) (t : Transformed) (member : String) : Prop :=
  member ∈ inputNames v.model ∧ (v.isIsland = true → member ∉ hidingNames v.model t)

section

variable {v : View} {t : Transformed} {m : String}

theorem name_viewLocal_of_service {d : Dependency} (h : service? v.model m = some d) :
    (viewLocal v t m).name = Naming.serviceVariable d.type := by
  rw [viewLocal, islandLocal, serverLocal, h]
  split <;> rfl

theorem name_viewLocal_of_input (hservice : service? v.model m = none) (h : ReadsInput v t m) :
    (viewLocal v t m).name = Naming.safeVariable m := by
  obtain ⟨hinput, hfree⟩ := h
  rw [viewLocal]
  split
  · next hisland => rw [name_islandLocal hservice, if_pos ⟨hinput, hfree hisland⟩]
  · rw [name_serverLocal hservice, if_pos hinput]

theorem name_viewLocal_of_other (hservice : service? v.model m = none) (h : ¬ReadsInput v t m) :
    (viewLocal v t m).name = m := by
  rw [viewLocal]
  split
  · rw [name_islandLocal hservice, if_neg fun hboth => h ⟨hboth.1, fun _ => hboth.2⟩]
  · next hserver =>
    rw [name_serverLocal hservice, if_neg fun hinput => h ⟨hinput, fun hisland => ?_⟩]
    exact absurd hisland hserver

end

/-! ## Hygiene -/

/-- The getters and methods in the class of a view. -/
def viewFunctions (v : View) : List Tree := v.getterTrees ++ v.methodTrees

/-- A function binds none of the names of the locals that its body is written with. -/
def Hygienic (v : View) (t : Transformed) (f : Tree) : Prop :=
  ∀ m ∈ v.source.bodyMembers f, (viewLocal v t m).name ∉ v.source.localNames f

/-- A function does not bind the name that a member has in the generated code. -/
structure Unshadowed (v : View) (t : Transformed) (f : Tree) (m : String) : Prop where
  /-- A service has the name of its variable. -/
  service : ∀ d, service? v.model m = some d →
    Naming.serviceVariable d.type ∉ v.source.localNames f
  /-- An input has its own name, if that is no reserved word. -/
  input : service? v.model m = none → ReadsInput v t m →
    Naming.safeVariable m ∉ v.source.localNames f
  /-- Anything else has its own name. -/
  own : service? v.model m = none → ¬ReadsInput v t m → m ∉ v.source.localNames f

theorem unshadowed_iff {v : View} {t : Transformed} {f : Tree} {m : String} :
    (viewLocal v t m).name ∉ v.source.localNames f ↔ Unshadowed v t f m := by
  constructor
  · intro h
    refine ⟨fun d hd => ?_, fun hnone hinput => ?_, fun hnone hother => ?_⟩
    · rwa [name_viewLocal_of_service hd] at h
    · rwa [name_viewLocal_of_input hnone hinput] at h
    · rwa [name_viewLocal_of_other hnone hother] at h
  · intro h
    cases hservice : service? v.model m with
    | some d =>
      rw [name_viewLocal_of_service hservice]
      exact h.service d hservice
    | none =>
      by_cases hinput : ReadsInput v t m
      · rw [name_viewLocal_of_input hservice hinput]
        exact h.input hservice hinput
      · rw [name_viewLocal_of_other hservice hinput]
        exact h.own hservice hinput

/-- **A function is hygienic** exactly if it binds no member that its body asks for. -/
theorem hygienic_iff (v : View) (t : Transformed) (f : Tree) :
    Hygienic v t f ↔ ∀ m ∈ v.source.bodyMembers f, Unshadowed v t f m :=
  forall₂_congr fun _ _ => unshadowed_iff

/-- The code of a method starts with its parameters as they are written. -/
theorem exists_codeLine {v : View} (r : Renaming) {f : Tree} (hf : f ∈ v.methodTrees)
    (hlife : isLifecycle (v.source.memberName f) = false) :
    ∃ body, constant (v.source.memberName f) (methodHead (v.source.methodOf f) ++ body) ∈
      codeLines v r := by
  have hmethod : v.source.methodOf f ∈ v.model.methods.filter (!·.isLifecycle) := by
    rw [v.methods_model]
    exact List.mem_filter.mpr ⟨List.mem_map_of_mem hf, congrArg not hlife⟩
  rw [codeLines]
  split
  · have hline := List.mem_map_of_mem (f := islandMethod r) hmethod
    rw [islandMethod] at hline
    exact ⟨_, List.mem_append_right _ hline⟩
  · have hline := List.mem_map_of_mem (f := plainMethod r) hmethod
    obtain ⟨body, hbody⟩ := exists_plainMethod_eq r (v.source.methodOf f)
    rw [hbody] at hline
    exact ⟨body, List.mem_append_right _ hline⟩

/-- How the code of a view's class is written, and when that is hygienic. -/
structure Rewriting (v : View) (t : Transformed) : Prop where
  getters : v.model.getters = v.getterTrees.map v.source.getterOf
  methods : v.model.methods = v.methodTrees.map v.source.methodOf
  /-- The parameters of a method are kept as they are. -/
  parameters : ∀ f ∈ v.methodTrees, isLifecycle (v.source.memberName f) = false →
    ∃ body, constant (v.source.memberName f) (methodHead (v.source.methodOf f) ++ body) ∈
      codeLines v (viewNames v t)
  /-- A body is written with the values of the locals behind the members that it asks for. -/
  bodies : ∀ f ∈ viewFunctions v, ∀ block, f.child? .block = some block →
    v.source.spellings (viewNames v t).apply block =
      (v.source.bodyMembers f).map fun m => (viewLocal v t m).value
  /-- So is an expression that stands for a whole body. -/
  expressions : ∀ f ∈ viewFunctions v, ∀ e, (v.source.bodyOf f).returned? = some e →
    v.source.spellings (viewNames v t).apply e ⊆
      (v.source.bodyMembers f).map fun m => (viewLocal v t m).value
  /-- No local is captured exactly if the function binds no member that its body asks for. -/
  hygiene : ∀ f ∈ viewFunctions v,
    Hygienic v t f ↔ ∀ m ∈ v.source.bodyMembers f, Unshadowed v t f m

theorem rewriting (v : View) (t : Transformed) : Rewriting v t := by
  have hnames : (viewNames v t).apply = fun m => (viewLocal v t m).value :=
    funext (apply_viewNames v t)
  refine ⟨v.getters_model, v.methods_model, fun f hf hlife => exists_codeLine _ hf hlife,
    fun f _ block hblock => ?_, fun f _ e he => ?_, fun f _ => hygienic_iff v t f⟩
  · rw [← hnames]
    exact v.source.spellings_block hblock
  · rw [← hnames]
    exact v.source.spellings_returned he

/-- **Capture in generated code.** For every component and page that is compiled, the function of
its module ends with the code of its class: parameters are kept, members of `this` become the values
of their locals; and a function captures none of these locals exactly if it binds no name that a
member of its body has in the generated code. -/
theorem view_capture {env : Environment} {v : View} {t : Transformed} {file : File}
    (h : Generated env v t file) :
    (∃ top head setup returned bottom, file.content =
      top ++ functionText head (setup ++ codeLines v (viewNames v t)) returned ++ bottom) ∧
    Rewriting v t :=
  ⟨content_generated h, rewriting v t⟩

/-! ### A method whose parameter is named after a field -/

/-- A template that shows a count. -/
def countTemplate : String := "\x7b\x7b count \x7d\x7d"

/-- A counter: one method takes a step, the other takes the count itself. -/
def counterView : View :=
  ⟨.ofString "counter", "counter", .component { className := "Counter", island := some true },
    .ofString ("@Component(\x7b\x7d)\nexport class Counter \x7b count = 0; " ++
      "add(step) \x7b this.count += step; \x7d set(count) \x7b this.count = count; \x7d \x7d"),
    countTemplate, "mod.ts"⟩

/-- The names, members and bound names of the methods. -/
theorem methods_counterView :
    counterView.methodTrees.map (fun f => (counterView.source.memberName f,
        counterView.source.bodyMembers f, counterView.source.localNames f)) =
      [("add", ["count"], ["step"]), ("set", ["count"], ["count"])] ∧
    counterView.model.dependencies = [] ∧ inputNames counterView.model = [] := by
  decide +kernel

theorem exists_method_counterView {name : String} {members bound : List String}
    (h : (name, members, bound) ∈
      [("add", ["count"], ["step"]), ("set", ["count"], ["count"])]) :
    ∃ f ∈ viewFunctions counterView, counterView.source.memberName f = name ∧
      counterView.source.bodyMembers f = members ∧ counterView.source.localNames f = bound := by
  rw [← methods_counterView.1] at h
  obtain ⟨f, hf, hrow⟩ := List.mem_map.mp h
  cases hrow
  exact ⟨f, List.mem_append_right _ hf, rfl, rfl, rfl⟩

theorem exists_generated_counterView :
    ∃ file, Generated {} counterView (transform {} false countTemplate).value file := by
  have htemplate : serviceReferences counterView.template counterView.model.dependencies =
      .ok countTemplate := by
    rw [methods_counterView.2.1]
    rfl
  have hfile : ∃ file, (component {} counterView).value = .ok file := by
    rw [component, htemplate]
    exact ⟨_, rfl⟩
  exact hfile.imp fun _ => .component htemplate

theorem not_special_counterView (t : Transformed) (m : String) :
    service? counterView.model m = none ∧ ¬ReadsInput counterView t m := by
  obtain ⟨-, hservices, hinputs⟩ := methods_counterView
  rw [service?, ReadsInput, hservices, hinputs]
  exact ⟨rfl, fun h => List.not_mem_nil h.1⟩

/-- The first method is hygienic. -/
theorem view_capture_counterView :
    ∃ file, Generated {} counterView (transform {} false countTemplate).value file ∧
      ∃ f ∈ viewFunctions counterView, counterView.source.memberName f = "add" ∧
        Hygienic counterView (transform {} false countTemplate).value f := by
  obtain ⟨file, hfile⟩ := exists_generated_counterView
  obtain ⟨f, hf, hname, hmembers, hbound⟩ := exists_method_counterView (List.mem_cons_self ..)
  refine ⟨file, hfile, f, hf, hname, ((view_capture hfile).2.hygiene f hf).mpr fun m hm => ?_⟩
  obtain ⟨hservice, hinput⟩ := not_special_counterView (transform {} false countTemplate).value m
  refine ⟨fun d hd => ?_, fun _ h => absurd h hinput, fun _ _ => ?_⟩
  · rw [hservice] at hd
    cases hd
  · rw [hmembers, List.mem_singleton] at hm
    rw [hm, hbound]
    decide

/-- The second one is not: the field that it assigns to is hidden by its parameter. -/
theorem captured_counterView :
    (∃ file, Generated {} counterView (transform {} false countTemplate).value file) ∧
      ∃ f ∈ viewFunctions counterView, counterView.source.memberName f = "set" ∧
        "count" ∈ counterView.source.bodyMembers f ∧
        (viewLocal counterView (transform {} false countTemplate).value "count").name ∈
          counterView.source.localNames f ∧
        ¬Hygienic counterView (transform {} false countTemplate).value f := by
  obtain ⟨f, hf, hname, hmembers, hbound⟩ :=
    exists_method_counterView (List.mem_cons_of_mem _ (List.mem_cons_self ..))
  obtain ⟨hservice, hinput⟩ :=
    not_special_counterView (transform {} false countTemplate).value "count"
  have hmember : "count" ∈ counterView.source.bodyMembers f := by
    rw [hmembers]
    exact List.mem_singleton_self _
  have hcaptured : (viewLocal counterView (transform {} false countTemplate).value "count").name ∈
      counterView.source.localNames f := by
    rw [name_viewLocal_of_other hservice hinput, hbound]
    exact List.mem_singleton_self _
  exact ⟨exists_generated_counterView, f, hf, hname, hmember, hcaptured,
    fun hclean => hclean "count" hmember hcaptured⟩

end Trellis.Output
