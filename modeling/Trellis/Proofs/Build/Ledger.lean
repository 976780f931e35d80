import Trellis.Build.Compile

/-!
# The ledger of a run

A run goes through the views of a project with one growing result. This module takes it apart: what
a view adds does not depend on what was there before, so a run is the list of what its views add,
joined up to the first failure.

* `Run.outcome` is what a step gives, without its log.
* `componentPart`, `pagePart` and `framePart` are what one view adds; `gather` joins parts.
* `outcome_compile`: the outcome of a run is the wrappers and its parts, gathered.
* `ledger` says of every file which unit of the project it is made from; `files_compile`: the files
  of a run are those of the ledger, in order.
-/

namespace Trellis.Build

open Trellis.Text (ReplacementError)
open Trellis.Output
open Trellis.Project
open Trellis.Jsx

/-! ## Outcomes of steps -/

/-- What a step gives, without its log. -/
def Run.outcome {α : Type} (x : Run α) : Except Failure α := (ExceptT.run x).value

section Steps

variable {α β : Type}

theorem outcome_pure (a : α) : Run.outcome (pure a) = .ok a := rfl

/-- A step that only logs cannot fail. -/
theorem outcome_bind_lift (x : Logged α) (f : α → Run β) :
    Run.outcome (liftM x >>= f) = Run.outcome (f x.value) := rfl

theorem outcome_bind_ok {x : Run α} {a : α} (h : x.outcome = .ok a) (f : α → Run β) :
    Run.outcome (x >>= f) = Run.outcome (f a) := by
  change (ExceptT.bindCont f x.outcome).value = _
  rw [h]
  rfl

theorem outcome_bind_error {x : Run α} {e : Failure} (h : x.outcome = .error e) (f : α → Run β) :
    Run.outcome (x >>= f) = .error e := by
  change (ExceptT.bindCont f x.outcome).value = _
  rw [h]
  rfl

end Steps

/-! ## Joining results -/

namespace Result

instance : Append Result where
  append a b := ⟨a.files ++ b.files, a.errors ++ b.errors, a.warnings ++ b.warnings⟩

@[simp] theorem files_append (a b : Result) : (a ++ b).files = a.files ++ b.files := rfl

@[simp] theorem errors_append (a b : Result) : (a ++ b).errors = a.errors ++ b.errors := rfl

@[simp] theorem warnings_append (a b : Result) : (a ++ b).warnings = a.warnings ++ b.warnings := rfl

/-- Results are told apart by their files, errors and warnings. -/
theorem eq_of_fields {a b : Result} (hfiles : a.files = b.files) (herrors : a.errors = b.errors)
    (hwarnings : a.warnings = b.warnings) : a = b := by
  cases a
  cases b
  cases hfiles
  cases herrors
  cases hwarnings
  rfl

theorem append_assoc (a b c : Result) : a ++ b ++ c = a ++ (b ++ c) :=
  eq_of_fields (List.append_assoc ..) (List.append_assoc ..) (List.append_assoc ..)

theorem append_empty (a : Result) : a ++ {} = a :=
  eq_of_fields (List.append_nil _) (List.append_nil _) (List.append_nil _)

/-- All results, one after the other. -/
def join (rs : List Result) : Result :=
  ⟨rs.flatMap files, rs.flatMap errors, rs.flatMap warnings⟩

theorem join_cons (r : Result) (rs : List Result) : join (r :: rs) = r ++ join rs := rfl

theorem join_append (rs ss : List Result) : join (rs ++ ss) = join rs ++ join ss :=
  eq_of_fields List.flatMap_append List.flatMap_append List.flatMap_append

theorem addFiles_eq (r : Result) (path : String) (files : List File) :
    r.addFiles path files = r ++ ({} : Result).addFiles path files :=
  eq_of_fields rfl (List.append_nil _).symm rfl

end Result

/-- The results of parts, joined up to the first failure. -/
def gather : List (Except Failure Result) → Except Failure Result
  | [] => .ok {}
  | .error e :: _ => .error e
  | .ok r :: parts => (gather parts).map (r ++ ·)

theorem gather_map_ok (rs : List Result) : gather (rs.map .ok) = .ok (Result.join rs) := by
  induction rs with
  | nil => rfl
  | cons r rs ih =>
    rw [List.map_cons, gather, ih, Result.join_cons]
    rfl

theorem gather_append (parts later : List (Except Failure Result)) :
    gather (parts ++ later) =
      (gather parts).bind fun r => (gather later).map (r ++ ·) := by
  induction parts with
  | nil =>
    rw [List.nil_append, gather]
    cases gather later <;> rfl
  | cons part parts ih =>
    cases part with
    | error e => rfl
    | ok r =>
      rw [List.cons_append, gather, gather, ih]
      cases gather parts with
      | error e => rfl
      | ok s =>
        cases gather later with
        | error e => rfl
        | ok t => exact congrArg Except.ok (Result.append_assoc r s t).symm

/-- Parts give a result exactly if every part does. -/
theorem gather_eq_ok {parts : List (Except Failure Result)} {r : Result}
    (h : gather parts = .ok r) : ∃ rs : List Result, parts = rs.map .ok ∧ r = .join rs := by
  induction parts generalizing r with
  | nil =>
    cases h
    exact ⟨[], rfl, rfl⟩
  | cons part parts ih =>
    cases part with
    | error e => cases h
    | ok s =>
      rw [gather] at h
      cases hrest : gather parts with
      | error e =>
        rw [hrest] at h
        cases h
      | ok t =>
        rw [hrest] at h
        cases h
        obtain ⟨rs, rfl, rfl⟩ := ih hrest
        exact ⟨s :: rs, rfl, rfl⟩

/-- A failure is that of some part. -/
theorem mem_of_gather_eq_error {parts : List (Except Failure Result)} {e : Failure}
    (h : gather parts = .error e) : .error e ∈ parts := by
  induction parts with
  | nil => cases h
  | cons part parts ih =>
    cases part with
    | error e' =>
      cases h
      exact List.mem_cons_self
    | ok s =>
      rw [gather] at h
      cases hrest : gather parts with
      | error e' =>
        rw [hrest] at h
        cases h
        exact List.mem_cons_of_mem _ (ih hrest)
      | ok t =>
        rw [hrest] at h
        cases h

/-- Parts give a result if every part does. -/
theorem exists_gather_iff {parts : List (Except Failure Result)} :
    (∃ r, gather parts = .ok r) ↔ ∀ part ∈ parts, ∃ r, part = .ok r := by
  constructor
  · rintro ⟨r, hr⟩ part hpart
    obtain ⟨rs, rfl, -⟩ := gather_eq_ok hr
    obtain ⟨s, -, rfl⟩ := List.mem_map.mp hpart
    exact ⟨s, rfl⟩
  · intro h
    cases hgather : gather parts with
    | ok r => exact ⟨r, rfl⟩
    | error e =>
      obtain ⟨r, hr⟩ := h _ (mem_of_gather_eq_error hgather)
      cases hr

/-! ## What a view adds -/

/-- What the files of a view, or the error in their place, add to a result. -/
def part (path : String) : Except InteractivePage (List File) → Result
  | .ok files => ({} : Result).addFiles path files
  | .error e => { errors := [(path, e)] }

/-- The flaws of a template end the run. -/
def blocks (config : Config) (template : String) : Bool :=
  !(Template.parseTemplate template).errors.isEmpty && config.strict

/-- What a view adds, if its template does not end the run. -/
def viewPart (config : Config) (path template : String)
    (produced : Except Failure (Except InteractivePage (List File))) : Except Failure Result :=
  if blocks config template then
    .error (.template ⟨path, (Template.parseTemplate template).errors⟩)
  else produced.map (part path)

theorem viewPart_lenient {config : Config} (h : config.strict = false) (path template : String)
    (produced : Except Failure (Except InteractivePage (List File))) :
    viewPart config path template produced = produced.map (part path) := by
  rw [viewPart, blocks, h, Bool.and_false, if_neg Bool.false_ne_true]

/-- A view adds the same to every result. -/
theorem outcome_addView (config : Config) (path template : String)
    (produce : Run (Except InteractivePage (List File))) (r : Result) :
    (addView config path template produce r).outcome =
      (viewPart config path template produce.outcome).map (r ++ ·) := by
  rw [addView, viewPart, blocks]
  split
  · rfl
  · rw [outcome_bind_lift]
    cases hproduced : produce.outcome with
    | error e => exact outcome_bind_error hproduced _
    | ok produced =>
      rw [outcome_bind_ok hproduced]
      cases produced with
      | error e =>
        refine congrArg Except.ok (Result.eq_of_fields ?_ rfl ?_)
        · exact (List.append_nil _).symm
        · exact (List.append_nil _).symm
      | ok files => exact congrArg Except.ok (r.addFiles_eq path files)

/-- Going through views one after the other gathers what they add. -/
theorem outcome_foldlM {step : Result → View → Run Result} {add : View → Except Failure Result}
    (hstep : ∀ r v, (step r v).outcome = (add v).map (r ++ ·)) (views : List View) (r : Result) :
    Run.outcome (views.foldlM step r) = (gather (views.map add)).map (r ++ ·) := by
  induction views generalizing r with
  | nil => exact congrArg Except.ok r.append_empty.symm
  | cons v views ih =>
    have hfirst := hstep r v
    rw [List.foldlM_cons, List.map_cons]
    cases hadd : add v with
    | error e =>
      rw [hadd] at hfirst
      exact outcome_bind_error hfirst _
    | ok s =>
      rw [hadd] at hfirst
      rw [outcome_bind_ok hfirst, ih, gather]
      cases gather (views.map add) with
      | error e => rfl
      | ok t => exact congrArg Except.ok (r.append_assoc s t)

/-- The style sheet of a component, if it has a usable one. -/
def sheetOf (sheets : SheetCompiler) (tree : FileTree) (v : View) : Option File :=
  (sheetFile sheets tree v.path v.styles v.isIsland v.className).value

/-- The template of a component with its services called by their local names. -/
def localTemplate (v : View) : Except ReplacementError String :=
  serviceReferences v.template v.model.dependencies

/-- The module of a component, made from its local template. -/
def moduleOf (sheets : SheetCompiler) (config : Config) (tree : FileTree) (site : Site) (v : View)
    (template : String) : File :=
  (componentModule (environment config site) v template ((sheetOf sheets tree v).map styleImport)
    (some (helpersImport config))).value

/-- The files of a component, or why there are none. -/
def componentOutput (sheets : SheetCompiler) (config : Config) (tree : FileTree) (site : Site)
    (v : View) : Except Failure (List File) :=
  match localTemplate v with
  | .ok template =>
    .ok (moduleOf sheets config tree site v template :: (sheetOf sheets tree v).toList)
  | .error e => .error (.service e)

/-- What a component adds. -/
def componentPart (sheets : SheetCompiler) (config : Config) (tree : FileTree) (site : Site)
    (v : View) : Except Failure Result :=
  viewPart config v.relativePath v.template ((componentOutput sheets config tree site v).map .ok)

/-- The module of a page, or the error in its place. -/
def pageOutput (config : Config) (site : Site) (v : View) : Except InteractivePage File :=
  (page (environment config site) v (some (helpersImport config))).value

/-- What a page adds. -/
def pagePart (config : Config) (site : Site) (v : View) : Except Failure Result :=
  viewPart config v.relativePath v.template (.ok ((pageOutput config site v).map ([·])))

/-- The module of the frame. -/
def frameFile (config : Config) (site : Site) (name template : String) : File :=
  (frame (environment config site) template name (some (helpersImport config))).value

/-- What the frame adds. -/
def framePart (config : Config) (tree : FileTree) (site : Site) : Except Failure Result :=
  match (frameOf config tree site).value with
  | none => .ok {}
  | some (name, path, template) =>
    viewPart config path template (.ok (.ok [frameFile config site name template]))

theorem outcome_componentFiles (sheets : SheetCompiler) (config : Config) (tree : FileTree)
    (site : Site) (v : View) :
    (componentFiles sheets config (environment config site) tree v).outcome =
      componentOutput sheets config tree site v := by
  rw [componentFiles, outcome_bind_lift, outcome_bind_lift, component, componentOutput,
    localTemplate]
  cases serviceReferences v.template v.model.dependencies <;> rfl

theorem outcome_addComponent (sheets : SheetCompiler) (config : Config) (tree : FileTree)
    (site : Site) (r : Result) (v : View) :
    (addView config v.relativePath v.template
      (do pure (.ok (← componentFiles sheets config (environment config site) tree v))) r).outcome =
      (componentPart sheets config tree site v).map (r ++ ·) := by
  have hfiles := outcome_componentFiles sheets config tree site v
  rw [outcome_addView, componentPart]
  cases houtput : componentOutput sheets config tree site v with
  | error e =>
    rw [houtput] at hfiles
    rw [outcome_bind_error hfiles]
    rfl
  | ok files =>
    rw [houtput] at hfiles
    rw [outcome_bind_ok hfiles]
    rfl

theorem outcome_addPage (config : Config) (site : Site) (r : Result) (v : View) :
    (addView config v.relativePath v.template
      (do pure ((← page (environment config site) v (some (helpersImport config))).map ([·])))
        r).outcome = (pagePart config site v).map (r ++ ·) := by
  rw [outcome_addView, outcome_bind_lift]
  rfl

theorem outcome_addFrame (config : Config) (tree : FileTree) (site : Site) (r : Result) :
    (addFrame config (environment config site) tree site r).outcome =
      (framePart config tree site).map (r ++ ·) := by
  rw [addFrame, outcome_bind_lift, framePart]
  cases (frameOf config tree site).value with
  | none => exact congrArg Except.ok r.append_empty.symm
  | some named =>
    obtain ⟨name, path, template⟩ := named
    exact outcome_addView config path template _ r

/-- The parts of a run, in order. -/
def parts (sheets : SheetCompiler) (config : Config) (tree : FileTree) (site : Site) :
    List (Except Failure Result) :=
  site.components.map (componentPart sheets config tree site) ++
    site.routes.map (pagePart config site) ++ [framePart config tree site]

/-- **A run gathers its parts after the wrappers.** -/
theorem outcome_compile (sheets : SheetCompiler) (config : Config) (tree : FileTree)
    (site : Site) :
    (compile sheets config tree site).outcome =
      (gather (parts sheets config tree site)).map
        (({ files := wrappers config site } : Result) ++ ·) := by
  have hcomponents := outcome_foldlM (outcome_addComponent sheets config tree site) site.components
    { files := wrappers config site }
  rw [compile, parts, List.append_assoc, gather_append]
  -- Components, pages, frame: each stage ends the run or hands its result on to the next.
  cases hc : gather (site.components.map (componentPart sheets config tree site)) with
  | error e =>
    rw [hc] at hcomponents
    exact outcome_bind_error hcomponents _
  | ok c =>
    rw [hc] at hcomponents
    have hpages := outcome_foldlM (outcome_addPage config site) site.routes
      ({ files := wrappers config site } ++ c)
    refine (outcome_bind_ok hcomponents _).trans ?_
    change _ = (Except.map _ (gather _)).map _
    rw [gather_append]
    cases hp : gather (site.routes.map (pagePart config site)) with
    | error e =>
      rw [hp] at hpages
      exact outcome_bind_error hpages _
    | ok p =>
      rw [hp] at hpages
      have hframe := outcome_addFrame config tree site ({ files := wrappers config site } ++ c ++ p)
      refine (outcome_bind_ok hpages _).trans ?_
      cases hf : framePart config tree site with
      | error e =>
        rw [hf] at hframe
        exact outcome_bind_error hframe _
      | ok f =>
        rw [hf] at hframe
        refine (outcome_bind_ok hframe _).trans ?_
        rw [outcome_bind_lift, outcome_pure]
        refine congrArg Except.ok ?_
        change _ ++ c ++ p ++ f = _ ++ (c ++ (p ++ (f ++ {})))
        rw [f.append_empty, Result.append_assoc, Result.append_assoc]

/-! ## The ledger -/

/-- What a file is made from. -/
inductive Origin where
  | wrapper
  /-- The module of a component, made from its local template. -/
  | component (v : View) (template : String)
  /-- The style sheet of a component. -/
  | sheet (v : View)
  | page (v : View)
  | frame (template : String)

/-- A file and what it is made from. -/
structure Made where
  origin : Origin
  file : File

/-- What is made from a component. -/
def componentMade (sheets : SheetCompiler) (config : Config) (tree : FileTree) (site : Site)
    (v : View) : List Made :=
  match localTemplate v with
  | .ok template => ⟨.component v template, moduleOf sheets config tree site v template⟩ ::
      (sheetOf sheets tree v).toList.map (⟨.sheet v, ·⟩)
  | .error _ => []

/-- What is made from a page. -/
def pageMade (config : Config) (site : Site) (v : View) : List Made :=
  match pageOutput config site v with
  | .ok file => [⟨.page v, file⟩]
  | .error _ => []

/-- What is made from the frame. -/
def frameMade (config : Config) (tree : FileTree) (site : Site) : List Made :=
  match (frameOf config tree site).value with
  | none => []
  | some (name, _, template) => [⟨.frame template, frameFile config site name template⟩]

/-- All files of a run in order, each with what it is made from. -/
def ledger (sheets : SheetCompiler) (config : Config) (tree : FileTree) (site : Site) :
    List Made :=
  (wrappers config site).map (⟨.wrapper, ·⟩) ++
    site.components.flatMap (componentMade sheets config tree site) ++
    site.routes.flatMap (pageMade config site) ++ frameMade config tree site

/-- How a file gets into the ledger. -/
inductive Recorded (sheets : SheetCompiler) (config : Config) (tree : FileTree) (site : Site) :
    Made → Prop where
  | wrapper {f : File} (hf : f ∈ wrappers config site) :
      Recorded sheets config tree site ⟨.wrapper, f⟩
  | component {v : View} {template : String} (hv : v ∈ site.components)
      (ht : localTemplate v = .ok template) :
      Recorded sheets config tree site
        ⟨.component v template, moduleOf sheets config tree site v template⟩
  | sheet {v : View} {template : String} {f : File} (hv : v ∈ site.components)
      (ht : localTemplate v = .ok template) (hf : sheetOf sheets tree v = some f) :
      Recorded sheets config tree site ⟨.sheet v, f⟩
  | page {v : View} {f : File} (hv : v ∈ site.routes) (hf : pageOutput config site v = .ok f) :
      Recorded sheets config tree site ⟨.page v, f⟩
  | frame {name path template : String}
      (hf : (frameOf config tree site).value = some (name, path, template)) :
      Recorded sheets config tree site ⟨.frame template, frameFile config site name template⟩

theorem mem_componentMade {sheets : SheetCompiler} {config : Config} {tree : FileTree}
    {site : Site} {v : View} {m : Made} :
    m ∈ componentMade sheets config tree site v ↔ ∃ template, localTemplate v = .ok template ∧
      (m = ⟨.component v template, moduleOf sheets config tree site v template⟩ ∨
        ∃ f, sheetOf sheets tree v = some f ∧ m = ⟨.sheet v, f⟩) := by
  rw [componentMade]
  cases localTemplate v with
  | error e => simp
  | ok template => simp [Option.mem_toList, eq_comm]

theorem mem_pageMade {config : Config} {site : Site} {v : View} {m : Made} :
    m ∈ pageMade config site v ↔ ∃ f, pageOutput config site v = .ok f ∧ m = ⟨.page v, f⟩ := by
  rw [pageMade]
  cases pageOutput config site v <;> simp

theorem mem_frameMade {config : Config} {tree : FileTree} {site : Site} {m : Made} :
    m ∈ frameMade config tree site ↔ ∃ name path template,
      (frameOf config tree site).value = some (name, path, template) ∧
        m = ⟨.frame template, frameFile config site name template⟩ := by
  rw [frameMade]
  cases (frameOf config tree site).value with
  | none => simp
  | some named =>
    obtain ⟨name, path, template⟩ := named
    refine List.mem_singleton.trans ⟨?_, ?_⟩
    · rintro rfl
      exact ⟨name, path, template, rfl, rfl⟩
    · rintro ⟨_, _, _, h, rfl⟩
      cases h
      rfl

/-- The ledger holds what gets into it. -/
theorem mem_ledger {sheets : SheetCompiler} {config : Config} {tree : FileTree} {site : Site}
    {m : Made} :
    m ∈ ledger sheets config tree site ↔ Recorded sheets config tree site m := by
  simp only [ledger, List.mem_append, List.mem_map, List.mem_flatMap, mem_componentMade,
    mem_pageMade, mem_frameMade]
  constructor
  · rintro (((⟨f, hf, rfl⟩ | ⟨v, hv, template, ht, rfl | ⟨f, hf, rfl⟩⟩) | ⟨v, hv, f, hf, rfl⟩) |
      ⟨name, path, template, hf, rfl⟩)
    · exact .wrapper hf
    · exact .component hv ht
    · exact .sheet hv ht hf
    · exact .page hv hf
    · exact .frame hf
  · rintro (hf | ⟨hv, ht⟩ | ⟨hv, ht, hf⟩ | ⟨hv, hf⟩ | hf)
    · exact .inl (.inl (.inl ⟨_, hf, rfl⟩))
    · exact .inl (.inl (.inr ⟨_, hv, _, ht, .inl rfl⟩))
    · exact .inl (.inl (.inr ⟨_, hv, _, ht, .inr ⟨_, hf, rfl⟩⟩))
    · exact .inl (.inr ⟨_, hv, _, hf, rfl⟩)
    · exact .inr ⟨_, _, _, hf, rfl⟩

/-! ## Files of runs -/

theorem viewPart_eq_ok {config : Config} {path template : String}
    {produced : Except Failure (Except InteractivePage (List File))} {r : Result}
    (h : viewPart config path template produced = .ok r) :
    ∃ p, produced = .ok p ∧ r = part path p := by
  rw [viewPart] at h
  split at h
  · cases h
  · cases produced with
    | error e => cases h
    | ok p =>
      cases h
      exact ⟨p, rfl, rfl⟩

theorem files_part_ok (path : String) (files : List File) : (part path (.ok files)).files = files :=
  rfl

theorem componentPart_eq_ok {sheets : SheetCompiler} {config : Config} {tree : FileTree}
    {site : Site} {v : View} {r : Result} (h : componentPart sheets config tree site v = .ok r) :
    (∃ template, localTemplate v = .ok template) ∧
      r.files = (componentMade sheets config tree site v).map Made.file := by
  obtain ⟨p, hp, rfl⟩ := viewPart_eq_ok h
  rw [componentOutput] at hp
  rw [componentMade]
  cases htemplate : localTemplate v with
  | error e =>
    rw [htemplate] at hp
    cases hp
  | ok template =>
    rw [htemplate] at hp
    cases hp
    refine ⟨⟨template, rfl⟩, ?_⟩
    rw [files_part_ok, List.map_cons, List.map_map]
    exact congrArg _ (List.map_id _).symm

theorem pagePart_eq_ok {config : Config} {site : Site} {v : View} {r : Result}
    (h : pagePart config site v = .ok r) : r.files = (pageMade config site v).map Made.file := by
  obtain ⟨p, hp, rfl⟩ := viewPart_eq_ok h
  cases hp
  rw [pageMade]
  cases pageOutput config site v <;> rfl

theorem framePart_eq_ok {config : Config} {tree : FileTree} {site : Site} {r : Result}
    (h : framePart config tree site = .ok r) :
    r.files = (frameMade config tree site).map Made.file := by
  rw [framePart] at h
  rw [frameMade]
  split at h
  · cases h
    rfl
  · obtain ⟨p, hp, rfl⟩ := viewPart_eq_ok h
    cases hp
    rfl

/-- The files of parts that all give results. -/
theorem files_join {views : List View} {add : View → Except Failure Result}
    {made : View → List Made}
    (hadd : ∀ v ∈ views, ∀ r, add v = .ok r → r.files = (made v).map Made.file) {rs : List Result}
    (h : views.map add = rs.map .ok) :
    (Result.join rs).files = (views.flatMap made).map Made.file := by
  induction views generalizing rs with
  | nil =>
    cases rs with
    | nil => rfl
    | cons r rs => cases h
  | cons v views ih =>
    cases rs with
    | nil => cases h
    | cons r rs =>
      rw [List.map_cons, List.map_cons] at h
      obtain ⟨hr, hrs⟩ := List.cons.inj h
      rw [Result.join_cons, Result.files_append, List.flatMap_cons, List.map_append,
        hadd v List.mem_cons_self r hr, ih (fun w hw => hadd w (List.mem_cons_of_mem v hw)) hrs]

/-- A run that gives a result takes every component apart and joins all parts. -/
theorem parts_of_compile {sheets : SheetCompiler} {config : Config} {tree : FileTree}
    {site : Site} {r : Result} (h : (compile sheets config tree site).outcome = .ok r) :
    ∃ (cs ps : List Result) (f : Result),
      site.components.map (componentPart sheets config tree site) = cs.map .ok ∧
      site.routes.map (pagePart config site) = ps.map .ok ∧ framePart config tree site = .ok f ∧
      r = ({ files := wrappers config site } : Result) ++ (.join cs ++ (.join ps ++ f)) := by
  rw [outcome_compile] at h
  cases hgather : gather (parts sheets config tree site) with
  | error e =>
    rw [hgather] at h
    cases h
  | ok total =>
    rw [hgather] at h
    cases h
    obtain ⟨rs, hparts, rfl⟩ := gather_eq_ok hgather
    rw [parts, List.append_assoc] at hparts
    obtain ⟨cs, later, rfl, hcs, hlater⟩ := List.append_eq_map_iff.mp hparts
    obtain ⟨ps, fs, rfl, hps, hfs⟩ := List.append_eq_map_iff.mp hlater.symm
    obtain ⟨f, rfl, hf⟩ : ∃ f, fs = [f] ∧ .ok f = framePart config tree site := by
      simpa using hfs
    refine ⟨cs, ps, f, hcs.symm, hps.symm, hf.symm, ?_⟩
    rw [Result.join_append, Result.join_append]
    exact congrArg _ (congrArg _ (congrArg _ f.append_empty))

/-- Every component of a run that gives a result has a local template. -/
theorem localTemplate_of_compile {sheets : SheetCompiler} {config : Config} {tree : FileTree}
    {site : Site} {r : Result}
    (h : (compile sheets config tree site).outcome = .ok r) {v : View} (hv : v ∈ site.components) :
    ∃ template, localTemplate v = .ok template := by
  obtain ⟨cs, -, -, hcs, -⟩ := parts_of_compile h
  have hmem := List.mem_map_of_mem (f := componentPart sheets config tree site) hv
  rw [hcs] at hmem
  obtain ⟨c, -, hc⟩ := List.mem_map.mp hmem
  exact (componentPart_eq_ok hc.symm).1

/-- **The files of a run are those of its ledger**, in order. -/
theorem files_compile {sheets : SheetCompiler} {config : Config} {tree : FileTree} {site : Site}
    {r : Result} (h : (compile sheets config tree site).outcome = .ok r) :
    r.files = (ledger sheets config tree site).map Made.file := by
  obtain ⟨cs, ps, f, hcs, hps, hf, rfl⟩ := parts_of_compile h
  have hwrappers : (wrappers config site).map (Made.file ∘ (⟨.wrapper, ·⟩)) =
      wrappers config site := List.map_id _
  rw [ledger, List.map_append, List.map_append, List.map_append, List.map_map, hwrappers,
    ← files_join (fun v _ r hr => (componentPart_eq_ok hr).2) hcs,
    ← files_join (fun v _ r hr => pagePart_eq_ok hr) hps, ← framePart_eq_ok hf]
  simp only [Result.files_append, List.append_assoc]

end Trellis.Build
