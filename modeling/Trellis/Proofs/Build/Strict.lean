import Trellis.Proofs.Build.Isolation

/-!
# Strict runs

A run takes the templates of a project one after the other: those of its components, of its pages,
and of its frame. Two things can end it there. A template has flaws and the run is strict, or a
component asks for a service whose name cannot be put into its template. The first of these decides.

* `TemplateUnit` is a template with its path and such a service; `units` are those of a project.
* `outcome_compile_error_iff`: a run fails as the first unit does that stops it.
* `compile_eq_lenient`: without flaws a strict run does what any run does, its log included.
* `compile_strict`: what ends a strict run, and what it gives otherwise.
-/

namespace Trellis.Build

open Trellis.Text (ReplacementError)
open Trellis.Output
open Trellis.Project

/-! ## Units -/

/-- A template that a run comes to: its path, its text, and why the services of its class cannot be
put into it, if so. -/
structure TemplateUnit where
  path : String
  template : String
  unusable : Option ReplacementError := none

namespace TemplateUnit

/-- The flaws of the template, all of them. -/
def flaws (u : TemplateUnit) : List Template.ParseError :=
  (Template.parseTemplate u.template).errors

/-- The template of a component, before its services are put into it. -/
def ofComponent (v : View) : TemplateUnit where
  path := v.relativePath
  template := v.template
  unusable :=
    match localTemplate v with
    | .ok _ => none
    | .error e => some e

/-- The template of a page. -/
def ofPage (v : View) : TemplateUnit := { path := v.relativePath, template := v.template }

/-- Why a run ends at the unit, if it does. -/
def stop (config : Config) (u : TemplateUnit) : Option Failure :=
  if blocks config u.template then some (.template ⟨u.path, u.flaws⟩)
  else u.unusable.map .service

end TemplateUnit

/-- The template of the frame: that of the first class that is one, else the file, if there is one
that can be read. -/
def frameUnit (config : Config) (tree : FileTree) (site : Site) : Option TemplateUnit :=
  (frameOf config tree site).value.map fun (_, path, template) => { path, template }

/-- The templates that a run comes to, in order. -/
def units (config : Config) (tree : FileTree) (site : Site) : List TemplateUnit :=
  site.components.map .ofComponent ++ site.routes.map .ofPage ++
    (frameUnit config tree site).toList

/-! ## What ends a run -/

/-- What went wrong, if something did. -/
def failure? {α : Type} : Except Failure α → Option Failure
  | .ok _ => none
  | .error e => some e

/-- Parts fail as the first of them that does. -/
theorem gather_eq_error_iff {parts : List (Except Failure Result)} {e : Failure} :
    gather parts = .error e ↔ parts.findSome? failure? = some e := by
  induction parts with
  | nil => simp [gather]
  | cons part parts ih =>
    cases part with
    | error e' => simp [gather, List.findSome?_cons, failure?]
    | ok r =>
      have hrest : gather (.ok r :: parts) = .error e ↔ gather parts = .error e := by
        rw [gather]
        cases gather parts <;> simp [Except.map]
      exact hrest.trans ih

/-- A view fails by its template, or as making its files does. -/
theorem failure?_viewPart (config : Config) (path template : String)
    (produced : Except Failure (Except InteractivePage (List File))) :
    failure? (viewPart config path template produced) =
      if blocks config template then
        some (.template ⟨path, (Template.parseTemplate template).errors⟩)
      else failure? produced := by
  unfold viewPart
  split
  · rfl
  · cases produced <;> rfl

theorem failure?_componentPart (sheets : SheetCompiler) (config : Config) (tree : FileTree)
    (site : Site) (v : View) :
    failure? (componentPart sheets config tree site v) =
      (TemplateUnit.ofComponent v).stop config := by
  have hproduced : failure? ((componentOutput sheets config tree site v).map
      (.ok : List File → Except InteractivePage (List File))) =
        (TemplateUnit.ofComponent v).unusable.map .service := by
    unfold componentOutput TemplateUnit.ofComponent
    cases localTemplate v <;> rfl
  unfold componentPart
  rw [failure?_viewPart, hproduced]
  rfl

theorem failure?_pagePart (config : Config) (site : Site) (v : View) :
    failure? (pagePart config site v) = (TemplateUnit.ofPage v).stop config :=
  failure?_viewPart config v.relativePath v.template _

theorem failure?_framePart (config : Config) (tree : FileTree) (site : Site) :
    failure? (framePart config tree site) = (frameUnit config tree site).bind (·.stop config) := by
  unfold framePart frameUnit
  cases (frameOf config tree site).value with
  | none => rfl
  | some named => exact failure?_viewPart config named.2.1 named.2.2 _

/-- The parts of a run fail where its units stop it. -/
theorem failure?_parts (sheets : SheetCompiler) (config : Config) (tree : FileTree) (site : Site) :
    (parts sheets config tree site).findSome? failure? =
      (units config tree site).findSome? (·.stop config) := by
  have hcomponents : failure? ∘ componentPart sheets config tree site =
      (·.stop config) ∘ TemplateUnit.ofComponent :=
    funext (failure?_componentPart sheets config tree site)
  have hpages : failure? ∘ pagePart config site = (·.stop config) ∘ TemplateUnit.ofPage :=
    funext (failure?_pagePart config site)
  have hframe : [framePart config tree site].findSome? failure? =
      (frameUnit config tree site).toList.findSome? (·.stop config) := by
    rw [List.findSome?_singleton, failure?_framePart]
    cases frameUnit config tree site <;> simp
  unfold parts units
  simp only [List.findSome?_append, List.findSome?_map, hcomponents, hpages, hframe]

/-- **A run fails as the first unit that stops it.** -/
theorem outcome_compile_error_iff {sheets : SheetCompiler} {config : Config} {tree : FileTree}
    {site : Site} {e : Failure} :
    (compile sheets config tree site).outcome = .error e ↔
      (units config tree site).findSome? (·.stop config) = some e := by
  rw [← failure?_parts, ← gather_eq_error_iff, outcome_compile]
  cases gather (parts sheets config tree site) <;> simp [Except.map]

/-! ## Runs without flaws -/

/-- The configuration of a run that is not strict. -/
def lenient (config : Config) : Config := { config with strict := false }

/-- A step that follows a logging one depends on its value only. -/
theorem bind_lift_congr {α β : Type} {x : Logged α} {f g : α → Run β} (h : f x.value = g x.value) :
    (liftM x >>= f) = (liftM x >>= g) := by
  change (⟨(ExceptT.run (f x.value)).value, _ ++ (ExceptT.run (f x.value)).log⟩ : Logged _) =
    ⟨(ExceptT.run (g x.value)).value, _ ++ (ExceptT.run (g x.value)).log⟩
  rw [h]

theorem foldlM_congr {step step' : Result → View → Run Result} {views : List View}
    (h : ∀ v ∈ views, ∀ r, step r v = step' r v) (r : Result) :
    views.foldlM step r = views.foldlM step' r := by
  induction views generalizing r with
  | nil => rfl
  | cons v views ih =>
    rw [List.foldlM_cons, List.foldlM_cons, h v List.mem_cons_self r]
    exact congrArg _ (funext fun r => ih (fun w hw => h w (List.mem_cons_of_mem v hw)) r)

/-- A view without flaws does not see whether the run is strict. -/
theorem addView_lenient {config : Config} {template : String}
    (h : (Template.parseTemplate template).errors = []) (path : String)
    (produce : Run (Except InteractivePage (List File))) (r : Result) :
    addView config path template produce r =
      addView (lenient config) path template produce r := by
  unfold addView
  rw [h]
  rfl

theorem addFrame_lenient {config : Config} {tree : FileTree} {site : Site}
    (h : ∀ u ∈ frameUnit config tree site, u.flaws = []) (env : Jsx.Environment) (r : Result) :
    addFrame config env tree site r = addFrame (lenient config) env tree site r := by
  unfold addFrame
  refine bind_lift_congr ?_
  unfold frameUnit at h
  cases hvalue : (frameOf config tree site).value with
  | none => rfl
  | some named =>
    rw [hvalue] at h
    exact addView_lenient (h _ rfl) named.2.1 _ r

/-- **Without flaws a strict run does what any run does.** -/
theorem compile_eq_lenient {sheets : SheetCompiler} {config : Config} {tree : FileTree}
    {site : Site}
    (h : ∀ u ∈ units config tree site, u.flaws = []) :
    compile sheets config tree site = compile sheets (lenient config) tree site := by
  have hcomponents : ∀ v ∈ site.components, (Template.parseTemplate v.template).errors = [] :=
    fun v hv => h (.ofComponent v) (List.mem_append_left _ (List.mem_append_left _
      (List.mem_map_of_mem hv)))
  have hpages : ∀ v ∈ site.routes, (Template.parseTemplate v.template).errors = [] :=
    fun v hv => h (.ofPage v) (List.mem_append_left _ (List.mem_append_right _
      (List.mem_map_of_mem hv)))
  have hframe : ∀ u ∈ frameUnit config tree site, u.flaws = [] :=
    fun u hu => h u (List.mem_append_right _ (Option.mem_toList.mpr hu))
  unfold compile
  dsimp only
  refine congrArg₂ (· >>= ·) ?_ (funext fun r => congrArg₂ (· >>= ·) ?_ (funext fun r =>
    congrArg₂ (· >>= ·) ?_ rfl))
  · exact foldlM_congr (fun v hv r => addView_lenient (hcomponents v hv) _ _ r) _
  · exact foldlM_congr (fun v hv r => addView_lenient (hpages v hv) _ _ r) _
  · exact addFrame_lenient hframe _ r

/-! ## Strict runs -/

/-- Where a strict run goes on. -/
theorem stop_eq_none_iff {config : Config} (h : config.strict = true) {u : TemplateUnit} :
    u.stop config = none ↔ u.flaws = [] ∧ u.unusable = none := by
  unfold TemplateUnit.stop blocks TemplateUnit.flaws
  rw [h, Bool.and_true]
  cases (Template.parseTemplate u.template).errors <;> simp

/-- Where a strict run ends by flaws. -/
theorem stop_eq_template_iff {config : Config} (h : config.strict = true) {u : TemplateUnit}
    {e : FlawedTemplate} :
    u.stop config = some (.template e) ↔ u.flaws ≠ [] ∧ e = ⟨u.path, u.flaws⟩ := by
  unfold TemplateUnit.stop blocks TemplateUnit.flaws
  rw [h, Bool.and_true]
  cases (Template.parseTemplate u.template).errors <;> simp [eq_comm]

/-- A unit whose services can be used stops a run by its flaws only. -/
theorem eq_template_of_stop {config : Config} {u : TemplateUnit} (h : u.unusable = none)
    {failure : Failure} (hstop : u.stop config = some failure) :
    ∃ e, failure = .template e := by
  unfold TemplateUnit.stop at hstop
  rw [h] at hstop
  split at hstop
  · cases hstop
    exact ⟨_, rfl⟩
  · cases hstop

/-- **Strict runs.** A strict run ends by the flaws of a template exactly if no template before it,
in the order of components, pages and frame, has flaws or a service that cannot be put into it, and
its error has the path of this template and all of its flaws. If no template has flaws it does what
a run that is not strict does. If all services can be used, it ends so if and only if some template
has flaws, and gives a result otherwise. -/
theorem compile_strict (sheets : SheetCompiler) {config : Config} (hstrict : config.strict = true)
    (tree : FileTree) (site : Site) :
    (∀ e, (compile sheets config tree site).outcome = .error (.template e) ↔
        ∃ before u after, units config tree site = before ++ u :: after ∧
          (∀ w ∈ before, w.flaws = [] ∧ w.unusable = none) ∧ u.flaws ≠ [] ∧
          e = ⟨u.path, u.flaws⟩) ∧
      ((∀ u ∈ units config tree site, u.flaws = []) →
        compile sheets config tree site = compile sheets (lenient config) tree site) ∧
      ((∀ u ∈ units config tree site, u.unusable = none) →
        ((∃ e, (compile sheets config tree site).outcome = .error (.template e)) ↔
            ∃ u ∈ units config tree site, u.flaws ≠ []) ∧
          ((∀ u ∈ units config tree site, u.flaws = []) →
            ∃ r, (compile sheets config tree site).outcome = .ok r)) := by
  have hends : ∀ e, (compile sheets config tree site).outcome = .error (.template e) ↔
      ∃ before u after, units config tree site = before ++ u :: after ∧
        (∀ w ∈ before, w.flaws = [] ∧ w.unusable = none) ∧ u.flaws ≠ [] ∧
        e = ⟨u.path, u.flaws⟩ := by
    intro e
    rw [outcome_compile_error_iff, List.findSome?_eq_some_iff]
    simp only [stop_eq_none_iff hstrict, stop_eq_template_iff hstrict]
    constructor
    · rintro ⟨before, u, after, hunits, ⟨hflaws, he⟩, hbefore⟩
      exact ⟨before, u, after, hunits, hbefore, hflaws, he⟩
    · rintro ⟨before, u, after, hunits, hbefore, hflaws, he⟩
      exact ⟨before, u, after, hunits, ⟨hflaws, he⟩, hbefore⟩
  refine ⟨hends, compile_eq_lenient, fun husable => ⟨⟨?_, ?_⟩, fun hclean => ?_⟩⟩
  · rintro ⟨e, he⟩
    obtain ⟨before, u, after, hunits, -, hflaws, -⟩ := (hends e).mp he
    exact ⟨u, hunits ▸ List.mem_append_right _ List.mem_cons_self, hflaws⟩
  · rintro ⟨u, hu, hflaws⟩
    cases hfirst : (units config tree site).findSome? (·.stop config) with
    | none =>
      have hstop := List.findSome?_eq_none_iff.mp hfirst u hu
      exact absurd ((stop_eq_none_iff hstrict).mp hstop).1 hflaws
    | some failure =>
      obtain ⟨w, hw, hstop⟩ := List.exists_of_findSome?_eq_some hfirst
      obtain ⟨e, rfl⟩ := eq_template_of_stop (husable w hw) hstop
      exact ⟨e, outcome_compile_error_iff.mpr hfirst⟩
  · cases houtcome : (compile sheets config tree site).outcome with
    | ok r => exact ⟨r, rfl⟩
    | error e =>
      rw [outcome_compile_error_iff] at houtcome
      obtain ⟨u, hu, hstop⟩ := List.exists_of_findSome?_eq_some houtcome
      rw [(stop_eq_none_iff hstrict).mpr ⟨hclean u hu, husable u hu⟩] at hstop
      cases hstop

/-! ## A strict run -/

/-- The default configuration, but strict. -/
def strictConfig : Config := { Config.default {} with strict := true }

/-- A component with an attribute that has no value. -/
def brokenView : View := bareView "broken" (.component { className := "Broken" }) "<br a=>"

/-- The flaw of the attribute. -/
def noValue : Template.ParseError := ⟨.missingValue "a", ⟨1, 5, 4, 5⟩⟩

theorem errors_card : (Template.parseTemplate "<p/>").errors = [] := by
  decide +kernel

theorem errors_broken : (Template.parseTemplate "<br a=>").errors = [noValue] := by
  decide +kernel

/-- Without pages and a frame only components are left. -/
theorem units_components (views : List View) :
    units strictConfig {} { components := views } = views.map .ofComponent := by
  have hframe : frameUnit strictConfig {} { components := views } = none := by
    rfl
  unfold units
  rw [hframe]
  simp

theorem compile_strict_broken :
    (compile shopSheets strictConfig {} { components := [cardView, brokenView] }).outcome =
        .error (.template ⟨"broken", [noValue]⟩) ∧
      compile shopSheets strictConfig {} { components := [cardView] } =
        compile shopSheets (lenient strictConfig) {} { components := [cardView] } ∧
      ∃ r, (compile shopSheets strictConfig {} { components := [cardView] }).outcome = .ok r := by
  have husable : (TemplateUnit.ofComponent cardView).unusable = none := rfl
  have hbroken : (TemplateUnit.ofComponent brokenView).flaws = [noValue] := errors_broken
  have hstrict : strictConfig.strict = true := rfl
  obtain ⟨hends, -, -⟩ := compile_strict shopSheets hstrict {}
    { components := [cardView, brokenView] }
  obtain ⟨-, hlenient, hresult⟩ := compile_strict shopSheets hstrict {}
    { components := [cardView] }
  rw [units_components] at hends hlenient hresult
  have hclean : ∀ u ∈ [cardView].map TemplateUnit.ofComponent, u.flaws = [] := by
    rintro u hu
    cases List.mem_singleton.mp hu
    exact errors_card
  refine ⟨(hends _).mpr ⟨[.ofComponent cardView], .ofComponent brokenView, [], rfl, ?_, ?_, ?_⟩,
    hlenient hclean, (hresult ?_).2 hclean⟩
  · rintro w hw
    cases List.mem_singleton.mp hw
    exact ⟨errors_card, husable⟩
  · rw [hbroken]
    exact List.cons_ne_nil _ _
  · rw [hbroken]
    rfl
  · rintro u hu
    cases List.mem_singleton.mp hu
    exact husable

/-- A strict run with a template that has flaws, ended before it comes to them. -/
theorem not_template_escapedView :
    (∃ u ∈ units strictConfig {} { components := [escapedView, brokenView] }, u.flaws ≠ []) ∧
      ¬∃ e, (compile shopSheets strictConfig {}
        { components := [escapedView, brokenView] }).outcome = .error (.template e) := by
  have hbroken : (TemplateUnit.ofComponent brokenView).flaws = [noValue] := errors_broken
  obtain ⟨e, he⟩ := localTemplate_escapedView
  have hstop : (TemplateUnit.ofComponent escapedView).stop strictConfig = some (.service e) := by
    have hclean : blocks strictConfig (TemplateUnit.ofComponent escapedView).template = false := by
      unfold blocks
      rw [show (TemplateUnit.ofComponent escapedView).template = "<p/>" from rfl, errors_card]
      rfl
    unfold TemplateUnit.stop
    rw [hclean, if_neg Bool.false_ne_true]
    unfold TemplateUnit.ofComponent
    rw [he]
    rfl
  constructor
  · refine ⟨.ofComponent brokenView, ?_, ?_⟩
    · rw [units_components]
      exact List.mem_cons_of_mem _ List.mem_cons_self
    · rw [hbroken]
      exact List.cons_ne_nil _ _
  · rintro ⟨flawed, houtcome⟩
    rw [outcome_compile_error_iff, units_components, List.map_cons, List.findSome?_cons,
      hstop] at houtcome
    cases houtcome

end Trellis.Build
