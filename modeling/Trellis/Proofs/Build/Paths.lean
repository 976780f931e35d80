import Mathlib.Data.List.Nodup
import Trellis.Proofs.Build.Policy
import Trellis.Proofs.Output.Address

/-!
# Where the files of a run go

A run writes every file to its path, and a later file replaces an earlier one of the same path. The
kinds of files have folders of their own, in which wrappers and components go by their names. Pages
go by their addresses, which do not tell all places apart.

* `topFolder` is the first folder of a path; paths with different ones differ (`ne_of_folder`).
* `paths_compile`: the paths of a run, kind by kind.
* `nodup_wrapperPaths`, `nodup_componentPaths`: when wrappers and components keep apart.
* `compile_paths`: all files of a run go to places of their own exactly if no wrapper is called like
  an index, and pages show addresses of their own, none of them that of the frame.
-/

namespace Trellis.Build

open Trellis.Output
open Trellis.Project
open Trellis.Jsx

/-! ## Folders -/

/-- The characters of a path before its first slash. -/
def topFolder (path : String) : List Char := path.toList.takeWhile (· != '/')

theorem topFolder_eq {folder : String} (h : folder.toList.all (· != '/') = true) (rest : String) :
    topFolder (folder ++ "/" ++ rest) = folder.toList := by
  unfold topFolder
  rw [String.toList_append, String.toList_append, List.append_assoc,
    List.takeWhile_append_of_pos (List.all_eq_true.mp h)]
  simp

/-- Paths below different folders differ. -/
theorem ne_of_folder {p q : String} (h : topFolder p ≠ topFolder q) : p ≠ q :=
  fun hpq => h (congrArg topFolder hpq)

/-- The folder of a component does not depend on its name. -/
theorem topFolder_component (isIsland : Bool) (rest : String) :
    topFolder (componentFolder isIsland ++ "/" ++ rest) = (componentFolder isIsland).toList :=
  topFolder_eq (by cases isIsland <;> decide) rest

/-! ## Paths of a run -/

/-- The names of directives in templates. -/
def directiveNames (site : Site) : List String := site.directives.map (·.metadata.bareSelector.text)

/-- The names of pipes in templates. -/
def pipeNames (site : Site) : List String := site.pipes.map (·.metadata.name.text)

/-- The paths of wrappers, with those of the modules beside them. -/
def wrapperPaths (site : Site) : List String :=
  (directiveNames site ++ ["mod"]).map (fun name => "directives/" ++ name ++ ".ts") ++
    (pipeNames site ++ ["mod", "helpers"]).map (fun name => "pipes/" ++ name ++ ".ts") ++
    (if site.services.isEmpty then [] else ["services/container.ts"])

/-- The paths of a component: of its module, and of its style sheet if it has one. -/
def componentPaths (sheets : SheetCompiler) (tree : FileTree) (v : View) : List String :=
  componentPath v :: ((sheetOf sheets tree v).map fun _ => stylePath v.isIsland v.className).toList

/-- The pages that get a module. -/
def quietPages (site : Site) : List View := site.routes.filter (!·.isInteractive)

/-- The path of the frame, if there is one. -/
def framePaths (config : Config) (tree : FileTree) (site : Site) : List String :=
  if (frameOf config tree site).value.isSome then [framePath] else []

theorem paths_wrappers {config : Config} (hdirectives : config.directivesDir = "directives")
    (hpipes : config.pipesDir = "pipes") (site : Site) :
    (wrappers config site).map (·.path) = wrapperPaths site := by
  unfold wrappers wrapperPaths directiveNames pipeNames
  rw [hdirectives, hpipes]
  cases hservices : site.services with
  | nil =>
    simp only [List.map_append, List.map_map, List.append_assoc]
    rfl
  | cons first others =>
    simp only [List.map_append, List.map_map, List.append_assoc]
    rfl

theorem paths_componentMade {sheets : SheetCompiler} {config : Config} {tree : FileTree}
    {site : Site} {v : View} {template : String} (h : localTemplate v = .ok template) :
    (componentMade sheets config tree site v).map (·.file.path) = componentPaths sheets tree v := by
  unfold componentMade componentPaths
  rw [h]
  cases hsheet : sheetOf sheets tree v with
  | none => rfl
  | some f =>
    have hpath := path_sheetOf hsheet
    dsimp only [Option.toList, Option.map, List.map]
    rw [hpath]
    rfl

theorem paths_pageMade (config : Config) (site : Site) (v : View) :
    (pageMade config site v).map (·.file.path) =
      if v.isInteractive then [] else [pagePath v.relativePath v.filename v.explicitPath] := by
  unfold pageMade pageOutput page
  by_cases h : v.isInteractive = true
  · rw [if_pos h, if_pos h]
    rfl
  · rw [if_neg h, if_neg h]
    rfl

theorem paths_frameMade (config : Config) (tree : FileTree) (site : Site) :
    (frameMade config tree site).map (·.file.path) = framePaths config tree site := by
  unfold frameMade framePaths
  cases (frameOf config tree site).value with
  | none => rfl
  | some named => rfl

/-- **The paths of a run**, kind by kind. -/
theorem paths_compile {sheets : SheetCompiler} {config : Config}
    (hdirectives : config.directivesDir = "directives") (hpipes : config.pipesDir = "pipes")
    {tree : FileTree} {site : Site} {r : Result}
    (h : (compile sheets config tree site).outcome = .ok r) :
    r.files.map (·.path) =
      wrapperPaths site ++ site.components.flatMap (componentPaths sheets tree) ++
        (quietPages site).map (fun v => pagePath v.relativePath v.filename v.explicitPath) ++
        framePaths config tree site := by
  have hcomponents : site.components.flatMap (fun v =>
      (componentMade sheets config tree site v).map (·.file.path)) =
        site.components.flatMap (componentPaths sheets tree) := by
    refine List.flatMap_congr fun v hv => ?_
    obtain ⟨template, htemplate⟩ := localTemplate_of_compile h hv
    exact paths_componentMade htemplate
  have hpages : site.routes.flatMap (fun v => (pageMade config site v).map (·.file.path)) =
      (quietPages site).map fun v => pagePath v.relativePath v.filename v.explicitPath := by
    unfold quietPages
    induction site.routes with
    | nil => rfl
    | cons v routes ih =>
      rw [List.flatMap_cons, ih, paths_pageMade]
      cases hv : v.isInteractive <;> simp [hv]
  rw [← paths_wrappers hdirectives hpipes, ← hcomponents, ← hpages,
    ← paths_frameMade config tree site, files_compile h]
  unfold ledger
  simp only [List.map_append, List.map_map, List.map_flatMap, Function.comp_def]

/-! ## Names -/

/-- The modules of a folder keep apart if their names do. -/
theorem nodup_named {names : List String} (before after : String) :
    (names.map fun name => before ++ name ++ after).Nodup ↔ names.Nodup := by
  refine List.nodup_map_iff fun x y hxy => ?_
  have hfront : before ++ x = before ++ y := (String.append_left_inj after).mp hxy
  exact (String.append_right_inj before).mp hfront

theorem topFolder_named {folder : String} (h : folder.toList.all (· != '/') = true)
    (name after : String) : topFolder (folder ++ "/" ++ name ++ after) = folder.toList := by
  rw [String.append_assoc]
  exact topFolder_eq h _

/-- Paths of different folders keep apart, so each group of them counts alone. -/
theorem nodup_append_of_folders {paths others : List String}
    (h : ∀ p ∈ paths, ∀ q ∈ others, topFolder p ≠ topFolder q) :
    (paths ++ others).Nodup ↔ paths.Nodup ∧ others.Nodup := by
  rw [List.nodup_append]
  exact ⟨fun ⟨hpaths, hothers, _⟩ => ⟨hpaths, hothers⟩, fun ⟨hpaths, hothers⟩ =>
    ⟨hpaths, hothers, fun p hp q hq => ne_of_folder (h p hp q hq)⟩⟩

/-! ## Wrappers -/

theorem topFolder_directive (name : String) :
    topFolder ("directives/" ++ name ++ ".ts") = "directives".toList :=
  @topFolder_named "directives" (by decide) name ".ts"

theorem topFolder_pipe (name : String) :
    topFolder ("pipes/" ++ name ++ ".ts") = "pipes".toList :=
  @topFolder_named "pipes" (by decide) name ".ts"

/-- The folders of wrappers. -/
def wrapperFolders : List (List Char) := ["directives".toList, "pipes".toList, "services".toList]

theorem topFolder_wrapper {site : Site} {p : String} (hp : p ∈ wrapperPaths site) :
    topFolder p ∈ wrapperFolders := by
  unfold wrapperPaths at hp
  rcases List.mem_append.mp hp with hp | hp
  · rcases List.mem_append.mp hp with hp | hp
    · obtain ⟨name, -, rfl⟩ := List.mem_map.mp hp
      rw [topFolder_directive]
      decide
    · obtain ⟨name, -, rfl⟩ := List.mem_map.mp hp
      rw [topFolder_pipe]
      decide
  · split at hp
    · cases hp
    · cases List.mem_singleton.mp hp
      decide

/-- Wrappers keep apart if the names in each folder do. -/
theorem nodup_wrapperPaths (site : Site) :
    (wrapperPaths site).Nodup ↔
      (directiveNames site ++ ["mod"]).Nodup ∧ (pipeNames site ++ ["mod", "helpers"]).Nodup := by
  have hservices : ∀ p ∈ (if site.services.isEmpty then [] else ["services/container.ts"]),
      topFolder p = "services".toList := by
    intro p hp
    split at hp
    · cases hp
    · cases List.mem_singleton.mp hp
      decide
  have hcontainer : (if site.services.isEmpty then [] else ["services/container.ts"]).Nodup := by
    split
    · exact List.nodup_nil
    · exact List.nodup_singleton _
  unfold wrapperPaths
  rw [nodup_append_of_folders, nodup_append_of_folders, nodup_named, nodup_named,
    and_iff_left hcontainer]
  · intro p hp q hq
    obtain ⟨directive, -, rfl⟩ := List.mem_map.mp hp
    obtain ⟨pipe, -, rfl⟩ := List.mem_map.mp hq
    rw [topFolder_directive, topFolder_pipe]
    decide
  · intro p hp q hq
    rw [hservices q hq]
    rcases List.mem_append.mp hp with hp | hp
    · obtain ⟨name, -, rfl⟩ := List.mem_map.mp hp
      rw [topFolder_directive]
      decide
    · obtain ⟨name, -, rfl⟩ := List.mem_map.mp hp
      rw [topFolder_pipe]
      decide

/-! ## Components -/

/-- A file in the folder of a component that goes by the component's name. -/
theorem className_of_place {isIsland isIsland' : Bool} {name name' after : String}
    (h : componentFolder isIsland ++ "/" ++ name ++ after =
      componentFolder isIsland' ++ "/" ++ name' ++ after) : name = name' := by
  have hfront := (String.append_left_inj after).mp h
  have hfolder : (componentFolder isIsland).toList = (componentFolder isIsland').toList := by
    rw [← topFolder_component isIsland name, ← topFolder_component isIsland' name', hfront]
  rw [String.toList_inj.mp hfolder] at hfront
  exact (String.append_right_inj _).mp hfront

theorem className_of_componentPath {v w : View} (h : componentPath v = componentPath w) :
    v.className = w.className :=
  className_of_place h

theorem className_of_stylePath {isIsland isIsland' : Bool} {name name' : String}
    (h : stylePath isIsland name = stylePath isIsland' name') : name = name' := by
  unfold stylePath at h
  simp only [String.append_assoc] at h
  have hplace := (String.append_right_inj _).mp h
  simp only [← String.append_assoc] at hplace
  exact className_of_place hplace

theorem topFolder_componentPath (v : View) :
    topFolder (componentPath v) = (componentFolder v.isIsland).toList :=
  topFolder_named (by cases v.isIsland <;> decide) _ _

theorem topFolder_stylePath (isIsland : Bool) (name : String) :
    topFolder (stylePath isIsland name) = "static".toList := by
  have hpath : stylePath isIsland name =
      "static" ++ "/" ++ ("css/" ++ componentFolder isIsland ++ "/" ++ name ++ ".css") := by
    unfold stylePath
    simp only [← String.append_assoc]
    rfl
  rw [hpath]
  exact topFolder_eq (by decide) _

/-- What the path of a component's file is. -/
theorem mem_componentPaths {sheets : SheetCompiler} {tree : FileTree} {v : View} {p : String}
    (h : p ∈ componentPaths sheets tree v) :
    p = componentPath v ∨ p = stylePath v.isIsland v.className := by
  unfold componentPaths at h
  rcases List.mem_cons.mp h with h | h
  · exact .inl h
  · cases hsheet : sheetOf sheets tree v with
    | none => simp [hsheet] at h
    | some f => exact .inr (by simpa [hsheet] using h)

/-- Modules and style sheets are in different folders. -/
theorem componentPath_ne_stylePath (v : View) (isIsland : Bool) (name : String) :
    componentPath v ≠ stylePath isIsland name := by
  refine ne_of_folder ?_
  rw [topFolder_componentPath, topFolder_stylePath]
  cases v.isIsland <;> decide

/-- Components of different names keep apart. -/
theorem className_of_componentPaths {sheets : SheetCompiler} {tree : FileTree} {v w : View}
    {p : String}
    (hv : p ∈ componentPaths sheets tree v) (hw : p ∈ componentPaths sheets tree w) :
    v.className = w.className := by
  rcases mem_componentPaths hv with rfl | rfl
  · rcases mem_componentPaths hw with h | h
    · exact className_of_componentPath h
    · exact absurd h (componentPath_ne_stylePath v _ _)
  · rcases mem_componentPaths hw with h | h
    · exact absurd h.symm (componentPath_ne_stylePath w _ _)
    · exact className_of_stylePath h

theorem nodup_componentPaths {sheets : SheetCompiler} {tree : FileTree} {components : List View}
    (h : (components.map (·.className)).Nodup) :
    (components.flatMap (componentPaths sheets tree)).Nodup := by
  rw [List.nodup_flatMap]
  constructor
  · intro v hv
    unfold componentPaths
    cases sheetOf sheets tree v with
    | none => simp
    | some f => simpa using componentPath_ne_stylePath v v.isIsland v.className
  · refine (List.pairwise_map.mp h).imp fun hne p hv hw => ?_
    exact hne (className_of_componentPaths hv hw)

/-- The folders of components and of their style sheets. -/
def componentFolders : List (List Char) := ["components".toList, "islands".toList, "static".toList]

theorem topFolder_componentPaths {sheets : SheetCompiler} {tree : FileTree} {v : View} {p : String}
    (hp : p ∈ componentPaths sheets tree v) : topFolder p ∈ componentFolders := by
  rcases mem_componentPaths hp with rfl | rfl
  · rw [topFolder_componentPath]
    cases v.isIsland <;> decide
  · rw [topFolder_stylePath]
    decide

/-! ## Pages and the frame -/

/-- The addresses below `routes` that are taken: those that pages show, and that of the frame. -/
def takenAddresses (config : Config) (tree : FileTree) (site : Site) : List String :=
  (quietPages site).map (fun v => shownAddress v.relativePath v.filename) ++
    if (frameOf config tree site).value.isSome then ["/_layout"] else []

/-- The file at an address. -/
def placeOf (address : String) : String := "routes" ++ address ++ ".tsx"

theorem nodup_places {addresses : List String} :
    (addresses.map placeOf).Nodup ↔ addresses.Nodup :=
  nodup_named "routes" ".tsx"

/-- Pages that ask for no address, and the frame, go to the taken addresses. -/
theorem paths_taken (config : Config) (tree : FileTree) {site : Site}
    (hplain : ∀ v ∈ site.routes, v.explicitPath = none) :
    (quietPages site).map (fun v => pagePath v.relativePath v.filename v.explicitPath) ++
        framePaths config tree site =
      (takenAddresses config tree site).map placeOf := by
  unfold takenAddresses framePaths
  rw [List.map_append, List.map_map]
  congr 1
  · refine List.map_congr_left fun v hv => ?_
    rw [hplain v (List.mem_filter.mp hv).1]
    exact pagePath_eq v.relativePath v.filename
  · split <;> rfl

/-- A taken address begins with a slash. -/
theorem exists_taken {config : Config} {tree : FileTree} {site : Site} {address : String}
    (h : address ∈ takenAddresses config tree site) : ∃ rest, address = "/" ++ rest := by
  rcases List.mem_append.mp h with h | h
  · obtain ⟨v, -, rfl⟩ := List.mem_map.mp h
    exact exists_shownAddress v.relativePath v.filename
  · split at h
    · cases List.mem_singleton.mp h
      exact ⟨"_layout", rfl⟩
    · cases h

theorem topFolder_taken {config : Config} {tree : FileTree} {site : Site} {p : String}
    (hp : p ∈ (takenAddresses config tree site).map placeOf) : topFolder p = "routes".toList := by
  obtain ⟨address, haddress, rfl⟩ := List.mem_map.mp hp
  obtain ⟨rest, rfl⟩ := exists_taken haddress
  unfold placeOf
  rw [← String.append_assoc]
  exact topFolder_named (by decide) rest ".tsx"

/-! ## Runs -/

/-- The names and places in a project tell its units apart, and no page asks for an address. -/
structure Distinct (site : Site) : Prop where
  classes : (site.components.map (·.className)).Nodup
  directives : (directiveNames site).Nodup
  pipes : (pipeNames site).Nodup
  places : (site.routes.map fun v => (v.relativePath, v.filename)).Nodup
  plain : ∀ v ∈ site.routes, v.explicitPath = none

section

variable {sheets : SheetCompiler} {config : Config} {tree : FileTree} {site : Site} {r : Result}

/-- Only wrappers among themselves, and pages and the frame among themselves, can meet. -/
theorem nodup_paths (hdirectives : config.directivesDir = "directives")
    (hpipes : config.pipesDir = "pipes") (hsite : Distinct site)
    (hr : (compile sheets config tree site).outcome = .ok r) :
    (r.files.map (·.path)).Nodup ↔
      (wrapperPaths site).Nodup ∧ (takenAddresses config tree site).Nodup := by
  have hcomponent : ∀ p ∈ site.components.flatMap (componentPaths sheets tree),
      topFolder p ∈ componentFolders := by
    intro p hp
    obtain ⟨v, -, hp⟩ := List.mem_flatMap.mp hp
    exact topFolder_componentPaths hp
  have hkinds : ∀ p ∈ wrapperPaths site, ∀ q ∈ site.components.flatMap (componentPaths sheets tree),
      topFolder p ≠ topFolder q := by
    intro p hp q hq hpq
    have hapart : ∀ folder ∈ wrapperFolders, folder ∉ componentFolders := by decide
    exact hapart _ (topFolder_wrapper hp) (hpq ▸ hcomponent q hq)
  have hbelow : ∀ p ∈ wrapperPaths site ++ site.components.flatMap (componentPaths sheets tree),
      ∀ q ∈ (takenAddresses config tree site).map placeOf, topFolder p ≠ topFolder q := by
    intro p hp q hq
    rw [topFolder_taken hq]
    rcases List.mem_append.mp hp with hp | hp
    · exact ne_of_mem_of_not_mem (topFolder_wrapper hp) (by decide)
    · exact ne_of_mem_of_not_mem (hcomponent p hp) (by decide)
  rw [paths_compile hdirectives hpipes hr, List.append_assoc, paths_taken config tree hsite.plain,
    nodup_append_of_folders hbelow, nodup_append_of_folders hkinds,
    nodup_places]
  exact ⟨fun h => ⟨h.1.1, h.2⟩, fun h => ⟨⟨h.1, nodup_componentPaths hsite.classes⟩, h.2⟩⟩

/-- **Where the files of a run go.** In a project whose names and places tell its units apart,
compiled to the usual folders, all files of a run go to places of their own exactly if no wrapper
has the name of a file that is always in its folder, and pages show addresses of their own, none of
them that of the frame. Style sheets do not matter, whatever their compiler makes of them. -/
theorem compile_paths (hdirectives : config.directivesDir = "directives")
    (hpipes : config.pipesDir = "pipes") (hsite : Distinct site)
    (hr : (compile sheets config tree site).outcome = .ok r) :
    (r.files.map (·.path)).Nodup ↔
      "mod" ∉ directiveNames site ∧ "mod" ∉ pipeNames site ∧ "helpers" ∉ pipeNames site ∧
        (takenAddresses config tree site).Nodup := by
  have hindex : (directiveNames site ++ ["mod"]).Nodup ↔ "mod" ∉ directiveNames site := by
    simp [List.nodup_append', hsite.directives]
  have hfixed : (pipeNames site ++ ["mod", "helpers"]).Nodup ↔
      "mod" ∉ pipeNames site ∧ "helpers" ∉ pipeNames site := by
    simp [List.nodup_append', hsite.pipes]
  rw [nodup_paths hdirectives hpipes hsite hr, nodup_wrapperPaths, hindex, hfixed]
  simp only [and_assoc]

theorem distinct_shopSite : Distinct shopSite where
  classes := by decide
  directives := by decide
  pipes := by decide
  places := by decide
  plain := by decide

theorem compile_paths_shopSite :
    ∃ r, (compile shopSheets (.default {}) shopTree shopSite).outcome = .ok r ∧
      (r.files.map (·.path)).Nodup := by
  obtain ⟨r, hr⟩ := exists_compile_shopSite
  have hframe : (frameOf (.default {}) shopTree shopSite).value.isSome = false := by decide
  have hroutes : (shopSite.routes.map fun v => shownAddress v.relativePath v.filename).Nodup := by
    decide
  have haddresses : (takenAddresses (.default {}) shopTree shopSite).Nodup := by
    unfold takenAddresses
    rw [hframe, if_neg Bool.false_ne_true, List.append_nil]
    exact (List.filter_sublist.map _).nodup hroutes
  exact ⟨r, hr, (compile_paths rfl rfl distinct_shopSite hr).mpr
    ⟨by decide, by decide, by decide, haddresses⟩⟩

/-- A project whose two pages show the address `/faq`, one by a folder that does not show. -/
def faqSite : Site where
  routes := [bareView "faq" (.route { className := "Faq" }) "<p/>",
    bareView "home/faq" (.route { className := "HomeFaq" }) "<b/>"]

theorem quietPages_faqSite : quietPages faqSite = faqSite.routes := by
  have hfaq : (Template.tokenize "<p/>").toList.any Template.Token.isInteractive = false := by
    decide +kernel
  have hhome : (Template.tokenize "<b/>").toList.any Template.Token.isInteractive = false := by
    decide +kernel
  simp only [quietPages, faqSite, List.filter, isInteractive_bareView, hfaq, hhome]
  rfl

/-- Units of a project that overwrite each other, though their names and places tell them apart. -/
theorem not_nodup_paths_faqSite :
    Distinct faqSite ∧ ∃ r, (compile shopSheets (.default {}) {} faqSite).outcome = .ok r ∧
      ¬(r.files.map (·.path)).Nodup := by
  have hdistinct : Distinct faqSite :=
    ⟨by decide, by decide, by decide, by decide, by decide⟩
  refine ⟨hdistinct, ?_⟩
  cases hrun : (compile shopSheets (.default {}) {} faqSite).outcome with
  | error failure =>
    obtain ⟨v, hv, -⟩ := failure_of_compile rfl hrun
    cases hv
  | ok r =>
    refine ⟨r, rfl, fun hnodup => ?_⟩
    have hsame : shownAddress "faq" "mod.ts" = shownAddress "home/faq" "mod.ts" := by decide
    have htaken := ((nodup_paths rfl rfl hdistinct hrun).mp hnodup).2
    unfold takenAddresses at htaken
    rw [quietPages_faqSite] at htaken
    have hpages := (List.nodup_append.mp htaken).1
    simp [faqSite, bareView, hsame] at hpages

end

end Trellis.Build
