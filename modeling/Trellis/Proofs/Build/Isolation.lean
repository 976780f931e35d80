import Trellis.Proofs.Build.Ledger
import Trellis.Proofs.Template.Openings

/-!
# A failing page leaves the rest alone

In a run that is not strict two things can go wrong with a unit. A page that reacts to the user adds
its error and nothing else, so the run is that of the project without these pages, with their
errors. A component with a service whose local name is no replacement text ends the run, and with it
every other unit.

* `join_pages`: the results of all pages are those of the quiet ones, with the errors of the others.
* `ServicesReplaceable` says that a component does not end a run that is not strict.
* `compile_isolates`: there is a result exactly if all components are so, and then only pages fail.
-/

namespace Trellis.Build

open Trellis.Text
open Trellis.Output
open Trellis.Project
open Trellis.TypeScript (Dependency)

/-- The pages that react to the user, in project order. -/
def interactivePages (site : Site) : List View := site.routes.filter (·.isInteractive)

/-- The project without the pages that react to the user. -/
def quietSite (site : Site) : Site :=
  { site with routes := site.routes.filter (!·.isInteractive) }

/-- The error of a page that reacts to the user. -/
def pageError (v : View) : String × InteractivePage := (v.relativePath, ⟨v.relativePath⟩)

/-! ## Pages -/

/-- What a page adds to a run that is not strict. -/
def pageResult (config : Config) (site : Site) (v : View) : Result :=
  part v.relativePath ((pageOutput config site v).map ([·]))

theorem pagePart_lenient {config : Config} (h : config.strict = false) (site : Site) :
    pagePart config site = fun v => .ok (pageResult config site v) :=
  funext fun v => viewPart_lenient h v.relativePath v.template _

theorem pageResult_interactive (config : Config) (site : Site) {v : View}
    (hv : v.isInteractive = true) : pageResult config site v = { errors := [pageError v] } := by
  rw [pageResult, pageOutput, page, if_pos hv]
  rfl

theorem errors_pageResult_quiet (config : Config) (site : Site) {v : View}
    (hv : v.isInteractive = false) : (pageResult config site v).errors = [] := by
  rw [pageResult, pageOutput, page, if_neg (Bool.eq_false_iff.mp hv)]
  rfl

/-- The pages that react to the user add their errors, in order, and nothing else. -/
theorem join_pages (config : Config) (site : Site) (routes : List View) :
    Result.join (routes.map (pageResult config site)) =
      { Result.join ((routes.filter (!·.isInteractive)).map (pageResult config site)) with
        errors := (routes.filter (·.isInteractive)).map pageError } := by
  induction routes with
  | nil => rfl
  | cons v routes ih =>
    rw [List.map_cons, Result.join_cons, ih]
    cases hv : v.isInteractive with
    | true =>
      simp only [pageResult_interactive config site hv, List.filter_cons, hv, Bool.not_true,
        Bool.false_eq_true, if_false, if_true, List.map_cons]
      rfl
    | false =>
      simp only [List.filter_cons, hv, Bool.not_false, Bool.false_eq_true, if_false, if_true,
        List.map_cons, Result.join_cons]
      refine Result.eq_of_fields rfl ?_ rfl
      rw [Result.errors_append, errors_pageResult_quiet config site hv, List.nil_append]

/-! ## Services -/

/-- The local name of every service of the view is a replacement text: it can be put into a
template. -/
def ServicesReplaceable (v : View) : Prop :=
  ∀ d ∈ v.model.dependencies,
    ∃ parts, Replacement.parse (Naming.serviceVariable d.type ++ ".") = .ok parts

/-- Services are put into a template, whatever it is, exactly if their local names are replacement
texts. -/
theorem exists_serviceReferences_iff (template : String) (deps : List Dependency) :
    (∃ t, serviceReferences template deps = .ok t) ↔
      ∀ d ∈ deps, ∃ parts, Replacement.parse (Naming.serviceVariable d.type ++ ".") =
        .ok parts := by
  induction deps generalizing template with
  | nil => simp [serviceReferences, pure, Except.pure]
  | cons d deps ih =>
    rw [List.forall_mem_cons, serviceReferences, List.foldlM_cons, serviceReference]
    cases Replacement.parse (Naming.serviceVariable d.type ++ ".") with
    | error e => simp [bind, Except.bind]
    | ok parts =>
      rw [and_iff_right ⟨parts, rfl⟩]
      exact ih _

theorem exists_localTemplate_iff (v : View) :
    (∃ template, localTemplate v = .ok template) ↔ ServicesReplaceable v :=
  exists_serviceReferences_iff v.template v.model.dependencies

/-! ## Components and the frame -/

theorem errors_componentPart {sheets : SheetCompiler} {config : Config} {tree : FileTree}
    {site : Site} {v : View} {r : Result}
    (h : componentPart sheets config tree site v = .ok r) : r.errors = [] := by
  obtain ⟨p, hp, rfl⟩ := viewPart_eq_ok h
  cases houtput : componentOutput sheets config tree site v with
  | error e =>
    rw [houtput] at hp
    cases hp
  | ok files =>
    rw [houtput] at hp
    cases hp
    rfl

theorem errors_gather_components {sheets : SheetCompiler} {config : Config} {tree : FileTree}
    {site : Site} {views : List View} {r : Result}
    (h : gather (views.map (componentPart sheets config tree site)) = .ok r) : r.errors = [] := by
  obtain ⟨rs, hrs, rfl⟩ := gather_eq_ok h
  refine List.flatMap_eq_nil_iff.mpr fun s hs => ?_
  have hmem : Except.ok s ∈ views.map (componentPart sheets config tree site) := by
    rw [hrs]
    exact List.mem_map_of_mem hs
  obtain ⟨v, -, hv⟩ := List.mem_map.mp hmem
  exact errors_componentPart hv

/-- In a run that is not strict a component fails only by the name of a service. -/
theorem componentPart_eq_error {sheets : SheetCompiler} {config : Config}
    (h : config.strict = false) {tree : FileTree} {site : Site} {v : View} {failure : Failure}
    (hfailure : componentPart sheets config tree site v = .error failure) :
    ∃ e, localTemplate v = .error e ∧ failure = .service e := by
  rw [componentPart, viewPart_lenient h, componentOutput] at hfailure
  cases htemplate : localTemplate v with
  | error e =>
    rw [htemplate] at hfailure
    cases hfailure
    exact ⟨e, rfl, rfl⟩
  | ok template =>
    rw [htemplate] at hfailure
    cases hfailure

theorem exists_componentPart_iff {sheets : SheetCompiler} {config : Config}
    (h : config.strict = false) {tree : FileTree} {site : Site} {v : View} :
    (∃ r, componentPart sheets config tree site v = .ok r) ↔
      ∃ template, localTemplate v = .ok template := by
  rw [componentPart, viewPart_lenient h, componentOutput]
  cases localTemplate v <;> simp [Except.map]

theorem exists_framePart {config : Config} (h : config.strict = false) (tree : FileTree)
    (site : Site) : ∃ f, framePart config tree site = .ok f ∧ f.errors = [] := by
  rw [framePart]
  split
  · exact ⟨{}, rfl, rfl⟩
  · rw [viewPart_lenient h]
    exact ⟨_, rfl, rfl⟩

/-! ## Runs -/

/-- A run that is not strict, its pages and frame gathered: only components can end it. -/
theorem outcome_compile_lenient (sheets : SheetCompiler) {config : Config}
    (h : config.strict = false) {tree : FileTree} (site : Site) {f : Result}
    (hf : framePart config tree site = .ok f) :
    (compile sheets config tree site).outcome =
      (gather (site.components.map (componentPart sheets config tree site))).map fun c =>
        { files := wrappers config site } ++
          (c ++ (Result.join (site.routes.map (pageResult config site)) ++ f)) := by
  have hpages : gather (site.routes.map (pagePart config site)) =
      .ok (Result.join (site.routes.map (pageResult config site))) := by
    rw [pagePart_lenient h, ← gather_map_ok, List.map_map]
    rfl
  rw [outcome_compile, parts, List.append_assoc, gather_append]
  cases gather (site.components.map (componentPart sheets config tree site)) with
  | error e => rfl
  | ok c =>
    change Except.map _ (Except.map _ (gather _)) = _
    rw [gather_append, hpages, hf]
    change Except.ok (_ ++ (c ++ (_ ++ (f ++ {})))) = _
    rw [f.append_empty]
    rfl

/-- A run that is not strict is ended only by a service whose name cannot be put into a template. -/
theorem failure_of_compile {sheets : SheetCompiler} {config : Config} (h : config.strict = false)
    {tree : FileTree} {site : Site} {failure : Failure}
    (hfailure : (compile sheets config tree site).outcome = .error failure) :
    ∃ v ∈ site.components, ∃ e : ReplacementError,
      localTemplate v = .error e ∧ failure = .service e := by
  obtain ⟨f, hf, -⟩ := exists_framePart h tree site
  rw [outcome_compile_lenient sheets h site hf] at hfailure
  cases hgather : gather (site.components.map (componentPart sheets config tree site)) with
  | error e =>
    rw [hgather] at hfailure
    cases hfailure
    obtain ⟨v, hv, hpart⟩ := List.mem_map.mp (mem_of_gather_eq_error hgather)
    exact ⟨v, hv, componentPart_eq_error h hpart⟩
  | ok c =>
    rw [hgather] at hfailure
    cases hfailure

/-- A run that is not strict has a result exactly if the services of all components can be put into
their templates. -/
theorem exists_compile_iff (sheets : SheetCompiler) {config : Config} (h : config.strict = false)
    (tree : FileTree) (site : Site) :
    (∃ r, (compile sheets config tree site).outcome = .ok r) ↔
      ∀ v ∈ site.components, ServicesReplaceable v := by
  obtain ⟨f, hf, -⟩ := exists_framePart h tree site
  have hgather : (∃ r, (compile sheets config tree site).outcome = .ok r) ↔
      ∃ c, gather (site.components.map (componentPart sheets config tree site)) = .ok c := by
    rw [outcome_compile_lenient sheets h site hf]
    cases gather (site.components.map (componentPart sheets config tree site)) <;>
      simp [Except.map]
  rw [hgather, exists_gather_iff]
  simp only [List.forall_mem_map, exists_componentPart_iff h, exists_localTemplate_iff]

/-- **A failing page leaves the rest alone.** A run that is not strict has a result exactly if the
services of all components can be put into their templates. It is the run of the project without the
pages that react to the user, with exactly their errors, in project order. No flaw of a template, no
page and no style sheet can end it: only a service whose local name is no replacement text. -/
theorem compile_isolates (sheets : SheetCompiler) {config : Config} (h : config.strict = false)
    (tree : FileTree) (site : Site) :
    ((∃ r, (compile sheets config tree site).outcome = .ok r) ↔
        ∀ v ∈ site.components, ServicesReplaceable v) ∧
      (compile sheets config tree site).outcome =
        ((compile sheets config tree (quietSite site)).outcome.map fun r =>
          { r with errors := (interactivePages site).map pageError }) ∧
      (∀ r, (compile sheets config tree (quietSite site)).outcome = .ok r → r.errors = []) ∧
      ∀ failure, (compile sheets config tree site).outcome = .error failure →
        ∃ v ∈ site.components, ∃ e : ReplacementError,
          localTemplate v = .error e ∧ failure = .service e := by
  obtain ⟨f, hf, hferrors⟩ := exists_framePart h tree site
  -- Registries, components and frame do not look at the pages: only the joined pages differ.
  have hquiet : (compile sheets config tree (quietSite site)).outcome =
      (gather (site.components.map (componentPart sheets config tree site))).map fun c =>
        { files := wrappers config site } ++ (c ++ (Result.join
          ((site.routes.filter (!·.isInteractive)).map (pageResult config site)) ++ f)) :=
    outcome_compile_lenient sheets h (quietSite site) hf
  have hnone : (Result.join ((site.routes.filter (!·.isInteractive)).map
      (pageResult config site))).errors = [] := by
    refine List.flatMap_eq_nil_iff.mpr fun s hs => ?_
    obtain ⟨v, hv, rfl⟩ := List.mem_map.mp hs
    exact errors_pageResult_quiet config site (by simpa using (List.mem_filter.mp hv).2)
  refine ⟨exists_compile_iff sheets h tree site, ?_, ?_, fun failure => failure_of_compile h⟩
  · rw [outcome_compile_lenient sheets h site hf, hquiet, join_pages]
    cases hgather : gather (site.components.map (componentPart sheets config tree site)) with
    | error e => rfl
    | ok c =>
      refine congrArg Except.ok (Result.eq_of_fields rfl ?_ rfl)
      change [] ++ (c.errors ++ (_ ++ f.errors)) = _
      rw [errors_gather_components hgather, hferrors, List.append_nil]
      rfl
  · intro r hr
    rw [hquiet] at hr
    cases hgather : gather (site.components.map (componentPart sheets config tree site)) with
    | error e =>
      rw [hgather] at hr
      cases hr
    | ok c =>
      rw [hgather] at hr
      cases hr
      change [] ++ (c.errors ++ (Result.errors _ ++ f.errors)) = _
      rw [errors_gather_components hgather, hferrors, hnone]
      rfl

/-! ## A small project -/

/-- A view at a path, with a template and an empty class. -/
def bareView (path : String) (metadata : ViewMetadata) (template : String) : View :=
  ⟨.ofString path, path, metadata, .ofString "", template, "mod.ts"⟩

/-- A compiler that knows the sheet of the shop. -/
def shopSheets : SheetCompiler :=
  ⟨fun _ _ _ text =>
    if text = "p \x7b color: red; \x7d" then some "p\x7bcolor:red\x7d\n" else none⟩

/-- The sheet of the shop. -/
def shopTree : FileTree :=
  ⟨[(.ofString "card.scss", .file "p \x7b color: red; \x7d".toUTF8)]⟩

/-- A component with the sheet. -/
def shopCard : View :=
  bareView "card" (.component { className := "Card", styles := some ⟨"card.scss", false⟩ }) "<p>"

/-- A project with this component, a page that shows it, a page that reacts to the user, a directive
and a pipe. -/
def shopSite : Site where
  components := [shopCard]
  routes := [bareView "buy" (.route { className := "Buy" }) "<b (click)>",
    bareView "about" (.route { className := "About" }) "<card/>"]
  directives := [⟨.ofString "tip.ts", "tip", "tip.ts", ⟨⟨"*tip", false⟩, "Tip"⟩⟩]
  pipes := [⟨.ofString "short.ts", "short", "short.ts",
    { name := ⟨"short", false⟩, className := "Short" }⟩]

theorem isInteractive_bareView (path : String) (metadata : ViewMetadata) (template : String) :
    (bareView path metadata template).isInteractive =
      (Template.tokenize template).toList.any Template.Token.isInteractive :=
  Template.isInteractive_parseTemplate template

theorem servicesReplaceable_shopSite {v : View} (hv : v ∈ shopSite.components) :
    ServicesReplaceable v := by
  cases List.mem_singleton.mp hv
  exact (exists_localTemplate_iff _).mp ⟨_, rfl⟩

theorem exists_compile_shopSite :
    ∃ r, (compile shopSheets (.default {}) shopTree shopSite).outcome = .ok r :=
  (exists_compile_iff shopSheets rfl shopTree shopSite).mpr fun _ hv =>
    servicesReplaceable_shopSite hv

theorem isInteractive_buy :
    (Template.tokenize "<b (click)>").toList.any Template.Token.isInteractive = true := by
  decide +kernel

theorem interactivePages_shopSite :
    (interactivePages shopSite).map pageError = [("buy", ⟨"buy"⟩)] := by
  have habout : (Template.tokenize "<card/>").toList.any Template.Token.isInteractive = false := by
    decide +kernel
  simp only [interactivePages, shopSite, List.filter, isInteractive_bareView, isInteractive_buy,
    habout]
  rfl

theorem compile_isolates_shopSite :
    ∃ r, (compile shopSheets (.default {}) shopTree shopSite).outcome = .ok r ∧
      r.errors = [("buy", ⟨"buy"⟩)] ∧
      (compile shopSheets (.default {}) shopTree (quietSite shopSite)).outcome =
        .ok { r with errors := [] } := by
  have hstrict : (Config.default {}).strict = false := rfl
  obtain ⟨hresult, hrun, hquiet, -⟩ := compile_isolates shopSheets hstrict shopTree shopSite
  obtain ⟨r, hr⟩ := hresult.mpr fun _ hv => servicesReplaceable_shopSite hv
  cases hoff : (compile shopSheets (.default {}) shopTree (quietSite shopSite)).outcome with
  | error failure =>
    rw [hoff, hr] at hrun
    cases hrun
  | ok q =>
    rw [hoff, interactivePages_shopSite] at hrun
    exact ⟨_, hrun, rfl, congrArg Except.ok (Result.eq_of_fields rfl (hquiet q hoff) rfl)⟩

/-! ## A component that ends a run -/

/-- A component without flaws. -/
def cardView : View := bareView "card" (.component { className := "Card" }) "<p/>"

/-- A component that asks for a service whose name is no replacement text. -/
def escapedView : View :=
  ⟨.ofString "alpha", "alpha", .component { className := "Alpha" },
    .ofString ("@Component(\x7b\x7d)\nexport class Alpha \x7b " ++
      "constructor(private s: Svc<\"\\d\">) \x7b\x7d \x7d"), "<p/>", "mod.ts"⟩

theorem dependencies_escapedView :
    escapedView.model.dependencies = [⟨"private", "s", "Svc<\"\\d\">"⟩] := by
  decide +kernel

theorem localTemplate_escapedView : ∃ e, localTemplate escapedView = .error e := by
  have hparse : Replacement.parse (Naming.serviceVariable "Svc<\"\\d\">" ++ ".") =
      .error ⟨.badEscape "\\d", 5, "svc<\"\\d\">.".toList⟩ := by
    decide +kernel
  unfold localTemplate serviceReferences
  rw [dependencies_escapedView, List.foldlM_cons]
  unfold serviceReference
  rw [hparse]
  exact ⟨_, rfl⟩

/-- A run that is not strict and gives nothing of a component without flaws, because of another
one. -/
theorem not_isolated_escapedView :
    (∀ r, (compile shopSheets (.default {}) {} { components := [escapedView, cardView] }).outcome ≠
        .ok r) ∧
      ∃ r, (compile shopSheets (.default {}) {} { components := [cardView] }).outcome = .ok r := by
  constructor
  · intro r hr
    have hreplaceable := (exists_compile_iff shopSheets rfl {}
      { components := [escapedView, cardView] }).mp ⟨r, hr⟩ escapedView List.mem_cons_self
    obtain ⟨template, htemplate⟩ := (exists_localTemplate_iff escapedView).mpr hreplaceable
    obtain ⟨e, he⟩ := localTemplate_escapedView
    rw [he] at htemplate
    cases htemplate
  · refine (exists_compile_iff shopSheets rfl {} { components := [cardView] }).mpr fun v hv => ?_
    cases List.mem_singleton.mp hv
    exact (exists_localTemplate_iff _).mp ⟨_, rfl⟩

end Trellis.Build
