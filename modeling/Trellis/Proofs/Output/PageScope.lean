import Trellis.Proofs.Output.Names
import Trellis.Proofs.TypeScript.Functions

/-!
# Scope of a page

The function of a page declares a constant for each input, getter and method of its class. The code
of the class asks `this` for more than that: for fields that are no inputs, and for services. Where
it does, the name that is written is declared only by accident.

* `forall₂_pageLines`: the lines of a page's function declare the names in `pageConstants`, in this
  order, and nothing else.
* `Closed` says that every `this.member` of the code of a page is written as a name that its
  function declares.
* `page_scope`: that is so exactly if the code asks `this` for no field, no service, and in the
  parameters of a method for nothing at all, but for names that are declared for another reason.
-/

namespace Trellis.Output

open Trellis.Jsx
open Trellis.Project
open Trellis.Text
open Trellis.TypeScript

/-! ## Declared names -/

/-- The line declares a constant of the given name. -/
def DeclaredBy (name line : String) : Prop := ∃ value, line = constant name value

/-- The constants of a page's function. -/
def pageConstants (c : ClassModel) : List String :=
  (inputsOf (some c)).map (·.variableName) ++ c.getters.map (·.name) ++
    (c.methods.filter (!·.isLifecycle)).map (·.name)

/-- The parameter of a page's function, if it has one. -/
def pageParameters (c : ClassModel) : List String :=
  if (inputsOf (some c)).isEmpty then [] else ["data"]

/-- The names that a page's function declares. -/
def pageNames (c : ClassModel) : List String := pageParameters c ++ pageConstants c

/-- The lines of a page's function before its template. -/
def pageLines (c : ClassModel) : List String :=
  unpackData (inputsOf (some c)) ++ c.getters.map (plainGetter (serverNames c)) ++
    (c.methods.filter (!·.isLifecycle)).map (plainMethod (serverNames c))

theorem declaredBy_unpackLine (source : String) (i : Input) (default : Option String) :
    DeclaredBy i.variableName (unpackLine source i default) := by
  rw [unpackLine]
  cases default.filter (!·.isEmpty) with
  | none => exact ⟨source ++ "." ++ i.name.text, rfl⟩
  | some d =>
    refine ⟨source ++ "." ++ i.name.text ++ " ?? " ++ d, ?_⟩
    simp only [constant, String.append_assoc]

theorem declaredBy_plainGetter (r : Renaming) (g : Getter) :
    DeclaredBy g.name (plainGetter r g) := by
  rw [plainGetter]
  split
  · exact ⟨_, rfl⟩
  · exact ⟨_, rfl⟩

/-- A method is a constant whose value starts with its parameters as they are written. -/
theorem exists_plainMethod_eq (r : Renaming) (m : Method) :
    ∃ body, plainMethod r m = constant m.name (methodHead m ++ body) := by
  rw [plainMethod]
  split
  · exact ⟨_, rfl⟩
  · split
    · exact ⟨_, rfl⟩
    · exact ⟨_, rfl⟩

theorem declaredBy_plainMethod (r : Renaming) (m : Method) :
    DeclaredBy m.name (plainMethod r m) := by
  obtain ⟨body, hbody⟩ := exists_plainMethod_eq r m
  exact ⟨_, hbody⟩

/-- **The lines of a page's function** declare its constants, in order. -/
theorem forall₂_pageLines (c : ClassModel) :
    List.Forall₂ DeclaredBy (pageConstants c) (pageLines c) := by
  refine List.rel_append (List.rel_append ?_ ?_) ?_
  · exact forall₂_maps (fun i => declaredBy_unpackLine _ i _) _
  · exact forall₂_maps (declaredBy_plainGetter _) _
  · exact forall₂_maps (declaredBy_plainMethod _) _

/-- The text of a page's module. -/
theorem content_page {env : Environment} {v : View} {helpersImport : Option String} {file : File}
    (h : (page env v helpersImport).value = .ok file) :
    ∃ top, file.content = top ++ functionText
      ("function " ++ v.className ++ if v.inputs.isEmpty then "()" else "(\x7b data \x7d)")
      (pageLines v.model) (returnExpression (transform env false v.template).value.jsx) ++
      ");\n" := by
  rw [page] at h
  split at h
  · cases h
  · cases h
    exact ⟨_, rfl⟩

/-! ## Members in the code of a page -/

/-- The methods of a class that a page's function has. -/
def pageMethods (v : View) : List Tree :=
  v.methodTrees.filter fun f => !isLifecycle (v.source.memberName f)

/-- The getters and methods of a class that a page's function has. -/
def pageFunctions (v : View) : List Tree := v.getterTrees ++ pageMethods v

/-- A `this.member` in the code of a page, and the name that is written in its place, if any. -/
structure Use where
  member : String
  written : Option String
  deriving DecidableEq, Repr

/-- The places where the code of a page asks `this` for a member: in the parameters of methods,
which are kept as they are, and in bodies. -/
def pageUses (v : View) : List Use :=
  (pageMethods v).flatMap (fun f => (v.source.parameterMembers f).map fun m => ⟨m, none⟩) ++
    (pageFunctions v).flatMap fun f =>
      (v.source.bodyMembers f).map fun m => ⟨m, some ((serverNames v.model).apply m)⟩

/-- The members of a class that its code can ask for: fields, inputs among them, getters, methods
and services. -/
def declaredMembers (c : ClassModel) : List String :=
  c.properties.map (·.name) ++ c.getters.map (·.name) ++
    (c.methods.filter (!·.isLifecycle)).map (·.name) ++ c.dependencies.map (·.name)

/-- Every declared member that the code of a page asks for is written as a name that the function of
the page declares. -/
def Closed (v : View) : Prop :=
  ∀ u ∈ pageUses v, u.member ∈ declaredMembers v.model →
    ∃ name ∈ pageNames v.model, u.written = some name

theorem service?_eq_none_iff {c : ClassModel} {member : String} :
    service? c member = none ↔ member ∉ c.dependencies.map (·.name) := by
  rw [service?, List.getLast?_eq_none_iff, List.filter_eq_nil_iff]
  simp only [beq_iff_eq, List.mem_map, not_exists, not_and]

/-- There is a declared name for a member although the function of a page declares neither services
nor fields: the variable of its service is declared for another reason, and so is its own name if it
is a field and no input. -/
structure Provided (c : ClassModel) (m : String) : Prop where
  service : ∀ d, service? c m = some d → Naming.serviceVariable d.type ∈ pageNames c
  field : service? c m = none → m ∈ c.properties.map (·.name) → m ∉ inputNames c → m ∈ pageNames c

section

variable {c : ClassModel} {m : String}

theorem apply_of_service {d : Dependency} (h : service? c m = some d) :
    (serverNames c).apply m = Naming.serviceVariable d.type := by
  simp only [apply_serverNames, serverLocal, h, value_plain]

theorem apply_of_input (hservice : service? c m = none) (h : m ∈ inputNames c) :
    (serverNames c).apply m = Naming.safeVariable m := by
  simp only [apply_serverNames, serverLocal, hservice, if_pos h, value_plain]

theorem apply_of_other (hservice : service? c m = none) (h : m ∉ inputNames c) :
    (serverNames c).apply m = m := by
  simp only [apply_serverNames, serverLocal, hservice, if_neg h, value_plain]

/-- Inputs, getters and methods are there, unless a service has their name. -/
theorem apply_mem_pageNames
    (h : m ∈ inputNames c ++ c.getters.map (·.name) ++
      (c.methods.filter (!·.isLifecycle)).map (·.name))
    (hservice : service? c m = none) : (serverNames c).apply m ∈ pageNames c := by
  refine List.mem_append_right _ ?_
  by_cases hinput : m ∈ inputNames c
  · obtain ⟨i, hi, rfl⟩ := List.mem_map.mp hinput
    rw [apply_of_input hservice hinput, pageConstants, List.append_assoc]
    exact List.mem_append_left _ (List.mem_map.mpr ⟨i, hi, rfl⟩)
  · rw [apply_of_other hservice hinput, pageConstants, List.append_assoc]
    rw [List.append_assoc] at h
    exact List.mem_append_right _ ((List.mem_append.mp h).resolve_left hinput)

/-- A declared member is written as a declared name exactly if it is provided. -/
theorem apply_mem_pageNames_iff (h : m ∈ declaredMembers c) :
    (serverNames c).apply m ∈ pageNames c ↔ Provided c m := by
  cases hservice : service? c m with
  | some d =>
    rw [apply_of_service hservice]
    refine ⟨fun hmem => ⟨fun d' hd => ?_, fun hnone => ?_⟩,
      fun hprovided => hprovided.service d hservice⟩
    · rw [hservice] at hd
      cases hd
      exact hmem
    · rw [hservice] at hnone
      cases hnone
  | none =>
    refine ⟨fun hmem => ⟨fun d hd => ?_, fun _ _ hinput => ?_⟩, fun hprovided => ?_⟩
    · rw [hservice] at hd
      cases hd
    · rwa [apply_of_other hservice hinput] at hmem
    by_cases hinput : m ∈ inputNames c
    · refine apply_mem_pageNames ?_ hservice
      exact List.mem_append_left _ (List.mem_append_left _ hinput)
    by_cases hfield : m ∈ c.properties.map (·.name)
    · rw [apply_of_other hservice hinput]
      exact hprovided.field hservice hfield hinput
    · have hrest := (List.mem_append.mp h).resolve_right (service?_eq_none_iff.mp hservice)
      rw [List.append_assoc] at hrest
      refine apply_mem_pageNames ?_ hservice
      rw [List.append_assoc]
      exact List.mem_append_right _ ((List.mem_append.mp hrest).resolve_left hfield)

end

/-! ## Closed pages -/

theorem methods_page (v : View) :
    v.model.methods.filter (!·.isLifecycle) = (pageMethods v).map v.source.methodOf := by
  rw [v.methods_model, List.filter_map]
  rfl

theorem mem_pageUses {v : View} {u : Use} :
    u ∈ pageUses v ↔
      (∃ f ∈ pageMethods v, ∃ m ∈ v.source.parameterMembers f, ⟨m, none⟩ = u) ∨
        ∃ f ∈ pageFunctions v, ∃ m ∈ v.source.bodyMembers f,
          ⟨m, some ((serverNames v.model).apply m)⟩ = u := by
  simp only [pageUses, List.mem_append, List.mem_flatMap, List.mem_map]

theorem provided_of_not_declared {c : ClassModel} {m : String} (h : m ∉ declaredMembers c) :
    Provided c m := by
  simp only [declaredMembers, List.mem_append, not_or] at h
  obtain ⟨⟨⟨hfield, -⟩, -⟩, hservice⟩ := h
  rw [← service?_eq_none_iff] at hservice
  refine ⟨fun d hd => ?_, fun _ hmem => absurd hmem hfield⟩
  rw [hservice] at hd
  cases hd

/-- **A page is closed** exactly if no parameter of a method asks `this` for a declared member, and
each member that a body asks for is provided. -/
theorem closed_iff (v : View) :
    Closed v ↔
      (∀ f ∈ pageMethods v, ∀ m ∈ v.source.parameterMembers f, m ∉ declaredMembers v.model) ∧
        ∀ f ∈ pageFunctions v, ∀ m ∈ v.source.bodyMembers f, Provided v.model m := by
  constructor
  · intro hclosed
    refine ⟨fun f hf m hm hdeclared => ?_, fun f hf m hm => ?_⟩
    · obtain ⟨name, -, hwritten⟩ :=
        hclosed ⟨m, none⟩ (mem_pageUses.mpr (.inl ⟨f, hf, m, hm, rfl⟩)) hdeclared
      cases hwritten
    · by_cases hdeclared : m ∈ declaredMembers v.model
      · obtain ⟨name, hname, hwritten⟩ :=
          hclosed _ (mem_pageUses.mpr (.inr ⟨f, hf, m, hm, rfl⟩)) hdeclared
        cases hwritten
        exact (apply_mem_pageNames_iff hdeclared).mp hname
      · exact provided_of_not_declared hdeclared
  · rintro ⟨hparameters, hbodies⟩ u hu hdeclared
    rcases mem_pageUses.mp hu with ⟨f, hf, m, hm, rfl⟩ | ⟨f, hf, m, hm, rfl⟩
    · exact absurd hdeclared (hparameters f hf m hm)
    · exact ⟨_, (apply_mem_pageNames_iff hdeclared).mpr (hbodies f hf m hm), rfl⟩

/-- What the function of a page declares, how the code of its class is written there, and how the
two fit together. -/
structure PageScope (v : View) : Prop where
  /-- The constants are declared in order, and nothing else is. -/
  declared : List.Forall₂ DeclaredBy (pageConstants v.model) (pageLines v.model)
  getters : v.model.getters = v.getterTrees.map v.source.getterOf
  methods : v.model.methods.filter (!·.isLifecycle) = (pageMethods v).map v.source.methodOf
  /-- A body is written with the names of the members that it asks for. -/
  bodies : ∀ f ∈ pageFunctions v, ∀ block, f.child? .block = some block →
    v.source.spellings (serverNames v.model).apply block =
      (v.source.bodyMembers f).map (serverNames v.model).apply
  /-- So is an expression that stands for a whole body. -/
  expressions : ∀ f ∈ pageFunctions v, ∀ e, (v.source.bodyOf f).returned? = some e →
    v.source.spellings (serverNames v.model).apply e ⊆
      (v.source.bodyMembers f).map (serverNames v.model).apply
  /-- Parameters are kept as they are. -/
  parameters : ∀ f ∈ pageMethods v, ∃ body,
    plainMethod (serverNames v.model) (v.source.methodOf f) =
      constant (v.source.memberName f) (methodHead (v.source.methodOf f) ++ body)
  /-- Inputs, getters and methods are there, unless a service has their name. -/
  reached : ∀ m ∈ inputNames v.model ++ v.model.getters.map (·.name) ++
      (v.model.methods.filter (!·.isLifecycle)).map (·.name),
    service? v.model m = none → (serverNames v.model).apply m ∈ pageNames v.model
  /-- The names of services and of fields that are no inputs are not, but by accident; and
  parameters ask for members that are not there. -/
  closed : Closed v ↔
    (∀ f ∈ pageMethods v, ∀ m ∈ v.source.parameterMembers f, m ∉ declaredMembers v.model) ∧
      ∀ f ∈ pageFunctions v, ∀ m ∈ v.source.bodyMembers f, Provided v.model m

theorem pageScope (v : View) : PageScope v where
  declared := forall₂_pageLines v.model
  getters := v.getters_model
  methods := methods_page v
  bodies _ _ _ hblock := v.source.spellings_block hblock
  expressions _ _ _ he := v.source.spellings_returned he
  parameters f _ := exists_plainMethod_eq _ (v.source.methodOf f)
  reached _ := apply_mem_pageNames
  closed := closed_iff v

/-- **The scope of a page.** The function of every page has the lines of `pageLines` and, if the
page has inputs, the parameter `data`; and every declared member that its code asks for is written
as a name that it declares exactly if the code asks for nothing but inputs, getters and methods, up
to names that are declared by accident. -/
theorem page_scope {env : Environment} {v : View} {helpersImport : Option String} {file : File}
    (hfile : (page env v helpersImport).value = .ok file) :
    (∃ top, file.content = top ++ functionText
      ("function " ++ v.className ++ if v.inputs.isEmpty then "()" else "(\x7b data \x7d)")
      (pageLines v.model) (returnExpression (transform env false v.template).value.jsx) ++
      ");\n") ∧
    PageScope v :=
  ⟨content_page hfile, pageScope v⟩

/-! ### A page with an input, and one with a field and a service -/

/-- A template that shows a title. -/
def titleTemplate : String := "\x7b\x7b title \x7d\x7d"

/-- A page whose code asks for an input. -/
def greetingView : View :=
  ⟨.ofString "greeting", "greeting", .route { className := "Greeting" },
    .ofString ("@Route(\x7b\x7d)\nexport class Greeting " ++
      "\x7b @Input() name = 1; get title() \x7b return this.name; \x7d \x7d"),
    titleTemplate, "mod.ts"⟩

/-- A page whose code asks for a field and a service. -/
def aboutView : View :=
  ⟨.ofString "about", "about", .route { className := "About" },
    .ofString ("@Route(\x7b\x7d)\nexport class About " ++
      "\x7b count = 2; constructor(private api: Store) \x7b\x7d " ++
      "get title() \x7b return this.api.name(this.count); \x7d \x7d"),
    titleTemplate, "mod.ts"⟩

theorem isInteractive_titleTemplate :
    (Template.parseTemplate titleTemplate).document.isInteractive = false := by
  decide +kernel

theorem exists_page_of_title {v : View} (h : v.template = titleTemplate) :
    ∃ file, (page {} v).value = .ok file := by
  have hview : v.isInteractive = false := by
    rw [View.isInteractive, h]
    exact isInteractive_titleTemplate
  rw [page, hview]
  exact ⟨_, rfl⟩

theorem uses_greetingView :
    (pageMethods greetingView).flatMap greetingView.source.parameterMembers = [] ∧
      (pageFunctions greetingView).flatMap greetingView.source.bodyMembers = ["name"] ∧
      service? greetingView.model "name" = none ∧ inputNames greetingView.model = ["name"] := by
  decide +kernel

/-- The page with an input is closed. -/
theorem page_scope_greetingView :
    ∃ file, (page {} greetingView).value = .ok file ∧ Closed greetingView := by
  obtain ⟨file, hfile⟩ := exists_page_of_title (v := greetingView) rfl
  obtain ⟨hparameters, hbodies, hservice, hinputs⟩ := uses_greetingView
  refine ⟨file, hfile, (page_scope hfile).2.closed.mpr ⟨fun f hf m hm => ?_, fun f hf m hm => ?_⟩⟩
  · have hmem : m ∈ (pageMethods greetingView).flatMap greetingView.source.parameterMembers :=
      List.mem_flatMap.mpr ⟨f, hf, hm⟩
    rw [hparameters] at hmem
    cases hmem
  · have hmem : m ∈ (pageFunctions greetingView).flatMap greetingView.source.bodyMembers :=
      List.mem_flatMap.mpr ⟨f, hf, hm⟩
    rw [hbodies, List.mem_singleton] at hmem
    subst hmem
    refine ⟨fun d hd => ?_, fun _ _ hinput => ?_⟩
    · rw [hservice] at hd
      cases hd
    · rw [hinputs] at hinput
      exact absurd (List.mem_singleton_self _) hinput

theorem uses_aboutView :
    pageUses aboutView = [⟨"api", some "store"⟩, ⟨"count", some "count"⟩] ∧
      pageNames aboutView.model = ["title"] ∧
      declaredMembers aboutView.model = ["count", "title", "api"] := by
  decide +kernel

/-- The other page declares neither the field nor the service that its code asks for. -/
theorem not_closed_aboutView :
    (∃ file, (page {} aboutView).value = .ok file) ∧
      (∀ u ∈ pageUses aboutView, u.member ∈ declaredMembers aboutView.model ∧
        ∀ name ∈ pageNames aboutView.model, u.written ≠ some name) ∧
      ¬Closed aboutView := by
  obtain ⟨huses, hnames, hmembers⟩ := uses_aboutView
  have hmissing : ∀ u ∈ pageUses aboutView, u.member ∈ declaredMembers aboutView.model ∧
      ∀ name ∈ pageNames aboutView.model, u.written ≠ some name := by
    rw [huses, hnames, hmembers]
    decide
  refine ⟨exists_page_of_title rfl, hmissing, fun hclosed => ?_⟩
  have huse : ⟨"count", some "count"⟩ ∈ pageUses aboutView := by
    rw [huses]
    decide
  obtain ⟨hmember, hfree⟩ := hmissing _ huse
  obtain ⟨name, hname, hwritten⟩ := hclosed _ huse hmember
  exact hfree name hname hwritten

end Trellis.Output
