import Trellis.Proofs.Build.Isolation

/-!
# What may react to the user

Pages and components that are no islands are rendered once, on the server: an event handler or a
two-way binding in their templates would do nothing. The compiler looks for these in the tree of a
template; here they are found among its tokens, where none can be lost.

* `Reactive` says that a template has such an attribute name, in its source text.
* `isInteractive_iff`: the compiler finds it in the tree exactly then.
* `compile_policy`: a page fails exactly on a reactive template, and no page or server component
  that a run gives comes from one.
-/

namespace Trellis.Build

open Trellis.Text
open Trellis.Template
open Trellis.Output
open Trellis.Project
open Trellis.Jsx

/-! ## Reactive templates -/

/-- An attribute name of the template is that of an event handler or of a two-way binding. -/
def Reactive (template : String) : Prop :=
  ∃ t ∈ (tokenize template).toList, t.kind = .attrName ∧
    ((Binding.classify t.value).1 = .event ∨ (Binding.classify t.value).1 = .twoWay)

/-- The tree shows a reactive template as such. -/
theorem isInteractive_iff (v : View) : v.isInteractive = true ↔ Reactive v.template := by
  rw [View.isInteractive, isInteractive_parseTemplate, List.any_eq_true]
  simp only [Token.isInteractive, Bool.and_eq_true, Bool.or_eq_true, beq_iff_eq, Reactive]

theorem isInteractive_eq_false_iff (v : View) :
    v.isInteractive = false ↔ ¬Reactive v.template := by
  rw [← isInteractive_iff, Bool.not_eq_true]

/-! ## Pages -/

/-- A page with a reactive template fails at once: it gives no file and leaves no log. -/
theorem page_of_reactive (env : Environment) {v : View} (helpersImport : Option String)
    (h : Reactive v.template) : page env v helpersImport = pure (.error ⟨v.relativePath⟩) := by
  rw [page, if_pos ((isInteractive_iff v).mpr h)]

theorem exists_page (env : Environment) {v : View} (helpersImport : Option String)
    (h : ¬Reactive v.template) : ∃ file, (page env v helpersImport).value = .ok file := by
  rw [← isInteractive_iff] at h
  rw [page, if_neg h]
  exact ⟨_, rfl⟩

theorem not_reactive_of_page {env : Environment} {v : View} {helpersImport : Option String}
    {file : File} (h : (page env v helpersImport).value = .ok file) : ¬Reactive v.template := by
  intro hreactive
  rw [page_of_reactive env helpersImport hreactive] at h
  cases h

/-! ## Components -/

/-- The component whose files a file is one of. -/
def Origin.component? : Origin → Option View
  | .component v _ => some v
  | .sheet v => some v
  | _ => none

/-- A component that says nothing about itself and does not run in the browser. -/
theorem not_reactive_of_not_island {v : View} {md : ComponentMetadata}
    (hmd : v.metadata = .component md) (hflag : md.island = none) (hv : v.isIsland = false) :
    ¬Reactive v.template ∧ v.model.dependencies = [] := by
  rw [View.isIsland, hmd] at hv
  simp only [hflag, Bool.or_eq_false_iff, Bool.not_eq_false', List.isEmpty_iff] at hv
  exact ⟨(isInteractive_eq_false_iff v).mp hv.1, hv.2⟩

/-- Without services, the local template is the template. -/
theorem localTemplate_of_no_dependencies {v : View} (h : v.model.dependencies = []) :
    localTemplate v = .ok v.template := by
  rw [localTemplate, h]
  rfl

/-- Modules of islands are elsewhere. -/
theorem isIsland_of_hasStart {v : View} (h : hasStart (componentPath v) "components/" = true) :
    v.isIsland = false := by
  cases hv : v.isIsland with
  | false => rfl
  | true => simp [componentPath, hv, componentFolder, hasStart] at h

theorem path_sheetOf {sheets : SheetCompiler} {tree : FileTree} {v : View} {f : File}
    (h : sheetOf sheets tree v = some f) : f.path = stylePath v.isIsland v.className := by
  rw [sheetOf, sheetFile] at h
  split at h
  · cases h
  · obtain ⟨css, -, rfl⟩ := Option.map_eq_some_iff.mp h
    rfl

theorem not_hasStart_stylePath (isIsland : Bool) (className : String) :
    hasStart (stylePath isIsland className) "components/" = false := by
  simp only [stylePath, hasStart, String.toList_append]
  rfl

/-- What a server component's file under `components/` is: its module, made from the template as it
was written. -/
theorem component_policy {sheets : SheetCompiler} {config : Config} {tree : FileTree} {site : Site}
    {m : Made} (hm : Recorded sheets config tree site m) {v : View} {md : ComponentMetadata}
    (hv : m.origin.component? = some v) (hmd : v.metadata = .component md)
    (hflag : md.island = none) (hpath : hasStart m.file.path "components/" = true) :
    v ∈ site.components ∧
      m = ⟨.component v v.template, moduleOf sheets config tree site v v.template⟩ ∧
      ¬Reactive v.template := by
  cases hm with
  | component hcomponent htemplate =>
    cases hv
    obtain ⟨hquiet, hnone⟩ := not_reactive_of_not_island hmd hflag (isIsland_of_hasStart hpath)
    rw [localTemplate_of_no_dependencies hnone] at htemplate
    cases htemplate
    exact ⟨hcomponent, rfl, hquiet⟩
  | sheet hcomponent htemplate hf =>
    cases hv
    rw [path_sheetOf hf, not_hasStart_stylePath] at hpath
    cases hpath
  | wrapper hf => cases hv
  | page hroute hf => cases hv
  | frame hf => cases hv

/-! ## Runs -/

/-- **What may react to the user.** A page fails exactly if an attribute name among the tokens of
its template is that of an event handler or of a two-way binding; it then gives no file and no log.
In every run that gives a result, no page comes from such a template, nor does a file below
`components/` of a component that does not say whether it is an island. -/
theorem compile_policy :
    (∀ (env : Environment) (v : View) (helpersImport : Option String),
      (Reactive v.template ↔ ∃ e, (page env v helpersImport).value = .error e) ∧
      (Reactive v.template → page env v helpersImport = ⟨.error ⟨v.relativePath⟩, []⟩)) ∧
    ∀ (sheets : SheetCompiler) (config : Config) (tree : FileTree) (site : Site) (r : Result),
      (compile sheets config tree site).outcome = .ok r →
      r.files = (ledger sheets config tree site).map Made.file ∧
      ∀ m ∈ ledger sheets config tree site,
        (∀ v, m.origin = .page v →
          v ∈ site.routes ∧ pageOutput config site v = .ok m.file ∧ ¬Reactive v.template) ∧
        ∀ v md, m.origin.component? = some v → v.metadata = .component md → md.island = none →
          hasStart m.file.path "components/" = true →
          v ∈ site.components ∧ m.file = moduleOf sheets config tree site v v.template ∧
            ¬Reactive v.template := by
  refine ⟨fun env v helpersImport => ⟨⟨fun h => ?_, fun ⟨e, he⟩ => ?_⟩,
    page_of_reactive env helpersImport⟩, fun sheets config tree site r hr =>
    ⟨files_compile hr, fun m hm => ⟨fun v hv => ?_, fun v md hv hmd hflag hpath => ?_⟩⟩⟩
  · rw [page_of_reactive env helpersImport h]
    exact ⟨_, rfl⟩
  · by_contra hquiet
    obtain ⟨file, hfile⟩ := exists_page env helpersImport hquiet
    rw [hfile] at he
    cases he
  · cases mem_ledger.mp hm with
    | page hroute hf =>
      cases hv
      exact ⟨hroute, hf, not_reactive_of_page hf⟩
    | wrapper hf => cases hv
    | component hcomponent htemplate => cases hv
    | sheet hcomponent htemplate hf => cases hv
    | frame hf => cases hv
  · obtain ⟨hcomponent, rfl, hquiet⟩ := component_policy (mem_ledger.mp hm) hv hmd hflag hpath
    exact ⟨hcomponent, rfl, hquiet⟩

theorem compile_policy_shopSite :
    ∃ r, (compile shopSheets (.default {}) shopTree shopSite).outcome = .ok r ∧
      r.files = (ledger shopSheets (.default {}) shopTree shopSite).map Made.file ∧
      ∀ m ∈ ledger shopSheets (.default {}) shopTree shopSite, ∀ v, m.origin = .page v →
        v.relativePath = "about" := by
  obtain ⟨r, hr⟩ := exists_compile_shopSite
  obtain ⟨hfiles, hmade⟩ := compile_policy.2 _ _ _ _ _ hr
  refine ⟨r, hr, hfiles, fun m hm v hv => ?_⟩
  obtain ⟨hroute, -, hquiet⟩ := (hmade m hm).1 v hv
  rcases List.mem_cons.mp hroute with rfl | hroute
  · rw [← isInteractive_iff, isInteractive_bareView] at hquiet
    exact absurd isInteractive_buy hquiet
  · cases List.mem_singleton.mp hroute
    rfl

end Trellis.Build
