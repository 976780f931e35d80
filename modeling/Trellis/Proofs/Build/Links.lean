import Trellis.Proofs.Build.Isolation
import Trellis.Proofs.Jsx.Gathered
import Trellis.Proofs.Registry

/-!
# Imports of generated modules

A generated module imports runtime helpers, pipes, directives, components and its style sheet. The
paths and names in these lines come from the registries and from the tags of its template; the files
they mean are made elsewhere, from the units of the project. They agree.

* `Link` is an import, `Link.Resolves` says that there is a file for it that exports its names.
* `content_of_recorded`: the links of a module stand at its top, after the imports of its own.
* `compile_links`: in every run that gives a result, all links of all modules resolve.
-/

namespace Trellis.Build

open Trellis.Text
open Trellis.Output
open Trellis.Project
open Trellis.Jsx

/-! ## Links -/

/-- An import of what the project makes. -/
inductive Link where
  /-- Functions, by their names. -/
  | named (names : List String) (module : String)
  /-- The function that a module is about. -/
  | whole (name module : String)
  | sheet (module : String)

/-- The import as a line of code. -/
def Link.line : Link → String
  | .named names module => importNames names module
  | .whole name module => "import " ++ name ++ " from \"" ++ module ++ "\";"
  | .sheet module => "import \"" ++ module ++ "\";"

/-- What comes after the text starts a line. -/
def StartsLine (before : String) : Prop := before = "" ∨ ∃ earlier, before = earlier ++ "\n"

/-- A function of the name is declared, after the given words, at the start of a line; its
parameters follow. -/
def Declares (content words name : String) : Prop :=
  ∃ before params rest, content = before ++ (words ++ name ++ params ++ rest) ∧
    StartsLine before ∧ (params = "(" ∨ params = "<T>(")

/-- The file exports a function of the name. -/
def Exports (f : File) (name : String) : Prop := Declares f.content "export function " name

/-- The function that the file is about has the name. -/
def ExportsDefault (f : File) (name : String) : Prop :=
  Declares f.content "export default function " name

/-- One of the files is what the link points at, and it exports what the link asks for. -/
def Link.Resolves (aliasName : String) (files : List File) : Link → Prop
  | .named names module =>
    ∃ f ∈ files, module = aliasName ++ "/" ++ f.path ∧ ∀ name ∈ names, Exports f name
  | .whole name module =>
    ∃ f ∈ files, module = aliasName ++ "/" ++ f.path ∧ ExportsDefault f name
  | .sheet module => ∃ f ∈ files, module = "/" ++ f.path

/-! ## Declarations in texts -/

theorem StartsLine.append {a b : String} (ha : StartsLine a) (hb : StartsLine b) :
    StartsLine (a ++ b) := by
  rcases hb with rfl | ⟨earlier, rfl⟩
  · rw [String.append_empty]
    exact ha
  · exact .inr ⟨a ++ earlier, (String.append_assoc ..).symm⟩

theorem startsLine_gap (text : String) : StartsLine (text ++ "\n\n") := by
  refine .inr ⟨text ++ "\n", ?_⟩
  rw [String.append_assoc]
  rfl

theorem declares_prepend {before content words name : String} (hbefore : StartsLine before)
    (h : Declares content words name) : Declares (before ++ content) words name := by
  obtain ⟨inner, params, rest, rfl, hinner, hparams⟩ := h
  exact ⟨before ++ inner, params, rest, (String.append_assoc ..).symm, hbefore.append hinner,
    hparams⟩

theorem declares_append {content words name : String} (h : Declares content words name)
    (more : String) : Declares (content ++ more) words name := by
  obtain ⟨before, params, rest, rfl, hbefore, hparams⟩ := h
  exact ⟨before, params, rest ++ more, by simp only [String.append_assoc], hbefore, hparams⟩

theorem declares_self (words name rest : String) {params : String}
    (h : params = "(" ∨ params = "<T>(") : Declares (words ++ name ++ params ++ rest) words name :=
  ⟨"", params, rest, (String.empty_append ..).symm, .inl rfl, h⟩

/-- A declaration that is a line of a text. -/
theorem declares_lines {ls : List String} {line words name : String} (hline : line ∈ ls)
    (h : Declares line words name) : Declares (lines ls) words name := by
  induction ls with
  | nil => cases hline
  | cons first ls ih =>
    rcases List.mem_cons.mp hline with rfl | hline
    · cases ls with
      | nil =>
        rw [lines, String.intercalate_singleton]
        exact h
      | cons second ls =>
        rw [lines, String.intercalate_cons_cons, String.append_assoc]
        exact declares_append h _
    · rw [lines, String.intercalate_cons_of_ne_nil (List.ne_nil_of_mem hline)]
      exact declares_prepend (.inr ⟨first, rfl⟩) (ih hline)

/-! ## Files that export -/

theorem exports_pipeWrapper (w : Wrapped) (folder aliasName : String) :
    Exports (pipeWrapper w folder aliasName) w.name := by
  simp only [Exports, pipeWrapper]
  apply declares_lines
  · apply List.mem_append_right
    exact List.mem_cons_self
  · have hparams : "(value: unknown, ...args: unknown[]): unknown \x7b" =
        "(" ++ "value: unknown, ...args: unknown[]): unknown \x7b" := rfl
    rw [hparams, ← String.append_assoc]
    exact declares_self "export function " w.name _ (.inl rfl)

theorem exports_directiveWrapper (w : Wrapped) (folder aliasName : String) :
    Exports (directiveWrapper w folder aliasName) ("apply" ++ w.className) := by
  simp only [Exports, directiveWrapper]
  apply declares_lines
  · apply List.mem_append_right
    exact List.mem_cons_self
  · have hline : "export function apply" ++ w.className ++ "(" =
        "export function " ++ ("apply" ++ w.className) ++ "(" ++ "" := by
      simp [← String.toList_inj]
    rw [hline]
    exact declares_self "export function " _ "" (.inl rfl)

theorem exports_helpersFile (folder : String) {name : String} (h : name ∈ runtimeHelpers) :
    Exports (helpersFile folder) name := by
  simp only [runtimeHelpers, List.mem_cons, List.not_mem_nil, or_false] at h
  simp only [Exports, helpersFile]
  -- Every fourth line declares a helper.
  rcases h with rfl | rfl | rfl | rfl | rfl | rfl
  · apply declares_lines (List.mem_of_getElem? (i := 4) rfl)
    exact ⟨"", "(", "value: unknown): string \x7b", rfl, .inl rfl, .inl rfl⟩
  · apply declares_lines (List.mem_of_getElem? (i := 8) rfl)
    exact ⟨"", "(", "value: unknown, currency = \"USD\"): string \x7b", rfl, .inl rfl, .inl rfl⟩
  · apply declares_lines (List.mem_of_getElem? (i := 12) rfl)
    exact ⟨"", "(", "value: unknown, format?: Intl.DateTimeFormatOptions): string \x7b", rfl,
      .inl rfl, .inl rfl⟩
  · apply declares_lines (List.mem_of_getElem? (i := 16) rfl)
    exact ⟨"", "(", "value: unknown, digits: number): string \x7b", rfl, .inl rfl, .inl rfl⟩
  · apply declares_lines (List.mem_of_getElem? (i := 20) rfl)
    exact ⟨"", "(", "value: unknown): string \x7b", rfl, .inl rfl, .inl rfl⟩
  · apply declares_lines (List.mem_of_getElem? (i := 24) rfl)
    exact ⟨"", "<T>(", "value: Promise<T> | T): T | undefined \x7b", rfl, .inl rfl, .inr rfl⟩

/-- The import lines at the top of a component's module. -/
def header (imports : List String) : String :=
  if imports.isEmpty then "" else lines imports ++ "\n\n"

theorem startsLine_header (imports : List String) : StartsLine (header imports) := by
  rw [header]
  split
  · exact .inl rfl
  · exact startsLine_gap _

/-- A function whose head has the name and its parameters. -/
theorem declares_functionText (words name rest : String) (body : List String) (returned : String) :
    Declares (functionText (words ++ name ++ ("(" ++ rest)) body returned) words name := by
  have hhead : Declares (words ++ name ++ ("(" ++ rest)) words name := by
    rw [← String.append_assoc]
    exact declares_self words name rest (.inl rfl)
  rw [functionText]
  exact declares_append (declares_append (declares_append (declares_append (declares_append hhead _)
    _) _) _) _

/-- The parameters of a component's function: there is one only if the component has properties. -/
def parameterText (v : View) (t : Transformed) : String :=
  if !v.inputs.isEmpty || t.hasSlots then "(props: " ++ v.className ++ "Props)" else "()"

theorem exists_parameterText_eq (v : View) (t : Transformed) :
    ∃ rest, parameterText v t = "(" ++ rest := by
  rw [parameterText]
  split
  · exact ⟨"props: " ++ (v.className ++ "Props)"), by simp [← String.toList_inj]⟩
  · exact ⟨")", rfl⟩

/-- The parts of a component's module: its imports, the interface of its properties, and the
function that it is about. -/
theorem content_componentModule (env : Environment) (v : View) (template : String)
    (stylePath helpersImport : Option String) {t : Transformed} {signals : List Input}
    (ht : t = (transform env false template).value)
    (hsignals : signals = if v.isIsland then assignedInputs v.model v.inputs else []) :
    ∃ interface, (componentModule env v template stylePath helpersImport).value.content =
        header (componentImports v t signals env.aliasName stylePath helpersImport) ++ interface ++
        functionText ("export default function " ++ v.className ++ parameterText v t)
          (componentBody v t signals) (returnExpression
            (if v.isIsland then signalReferences t.jsx (signalNames v.model signals) else t.jsx)) ++
        "\n" ∧
      StartsLine interface := by
  subst ht hsignals
  refine ⟨_, rfl, ?_⟩
  split
  · exact startsLine_gap _
  · exact .inl rfl

/-- A component's module is made from its template with the services called by local names. -/
theorem component_eq_ok {env : Environment} {v : View} {stylePath helpersImport : Option String}
    {file : File} (h : (component env v stylePath helpersImport).value = .ok file) :
    ∃ template, serviceReferences v.template v.model.dependencies = .ok template ∧
      file = (componentModule env v template stylePath helpersImport).value := by
  rw [component] at h
  cases htemplate : serviceReferences v.template v.model.dependencies with
  | error e =>
    rw [htemplate] at h
    cases h
  | ok template =>
    rw [htemplate] at h
    cases h
    exact ⟨template, rfl, rfl⟩

theorem content_moduleOf (sheets : SheetCompiler) (config : Config) (tree : FileTree) (site : Site)
    (v : View) (template : String) :
    ∃ interface params body returned,
      (moduleOf sheets config tree site v template).content =
        header (componentImports v (transform (environment config site) false template).value
          (if v.isIsland then assignedInputs v.model v.inputs else []) config.aliasName
          ((sheetOf sheets tree v).map styleImport) (some (helpersImport config))) ++
        interface ++ functionText ("export default function " ++ v.className ++ params) body
          returned ++ "\n" ∧
      StartsLine interface ∧ ∃ rest, params = "(" ++ rest := by
  obtain ⟨interface, hcontent, hinterface⟩ :=
    content_componentModule (environment config site) v template
      ((sheetOf sheets tree v).map styleImport) (some (helpersImport config)) rfl rfl
  exact ⟨interface, _, _, _, hcontent, hinterface, exists_parameterText_eq v _⟩

/-- Every component module exports its component. -/
theorem exportsDefault_moduleOf (sheets : SheetCompiler) (config : Config) (tree : FileTree)
    (site : Site) (v : View) (template : String) :
    ExportsDefault (moduleOf sheets config tree site v template) v.className := by
  obtain ⟨interface, params, body, returned, hcontent, hinterface, rest, rfl⟩ :=
    content_moduleOf sheets config tree site v template
  rw [ExportsDefault, hcontent]
  refine declares_append (declares_prepend ((startsLine_header _).append hinterface) ?_) _
  exact declares_functionText _ _ rest body returned

/-! ## What registries hold -/

theorem mem_pipes_transform {config : Config} {site : Site} {inLayout : Bool} {template : String}
    {entry : PipeEntry}
    (h : entry ∈ (transform (environment config site) inLayout template).value.pipes) :
    ∃ d ∈ site.pipes, entry = .make d.metadata.name.text d.metadata.className config.pipesDir
      config.aliasName (some d.path) d.metadata.pure := by
  obtain ⟨name, hrow⟩ := mem_of_mem_lookUpAll h
  simp only [List.map_map, List.mem_map, Function.comp_apply, Prod.mk.injEq] at hrow
  obtain ⟨d, hd, -, rfl⟩ := hrow
  exact ⟨d, hd, rfl⟩

theorem mem_directives_transform {config : Config} {site : Site} {inLayout : Bool}
    {template : String} {entry : DirectiveEntry}
    (h : entry ∈ (transform (environment config site) inLayout template).value.directives) :
    ∃ d ∈ site.directives, entry = .make d.metadata.selector.text d.metadata.className
      config.directivesDir config.aliasName (some d.path) := by
  obtain ⟨name, hrow⟩ := mem_of_mem_lookUpAll h
  simp only [List.map_map, List.mem_map, Function.comp_apply, Prod.mk.injEq] at hrow
  obtain ⟨d, hd, -, rfl⟩ := hrow
  exact ⟨d, hd, rfl⟩

theorem mem_imports_transform {config : Config} {site : Site} {inLayout : Bool} {template : String}
    {i : TagImport}
    (h : i ∈ (transform (environment config site) inLayout template).value.imports) :
    ∃ v ∈ site.components, i.componentName = v.className ∧
      i.importPath = config.aliasName ++ "/" ++ componentPath v := by
  rw [imports_transform] at h
  obtain ⟨tag, -, htag⟩ := List.mem_filterMap.mp h
  obtain ⟨-, c, hc, -, rfl⟩ := resolve_eq_some htag
  obtain ⟨v, hv, rfl⟩ := List.mem_map.mp hc
  exact ⟨v, hv, rfl, by simp only [componentPath, environment, String.append_assoc]⟩

/-! ## The top of a module -/

/-- The import lines of a module for the runtime of the site and for services. -/
def ownImports (config : Config) (site : Site) : Origin → List String
  | .component v template =>
    let t := (transform (environment config site) false template).value
    (if t.hasSlots then ["import type \x7b ComponentChildren \x7d from \"preact\";"] else []) ++
      (if v.isIsland then islandImports v.model
        (if v.isIsland then assignedInputs v.model v.inputs else []) t.refs else []) ++
      importSome (v.model.dependencies.map fun d => serviceGetter d.type)
        (config.aliasName ++ "/services/container.ts")
  | .page _ | .frame _ => [importNames ["define"] (config.aliasName ++ "/utils.ts")]
  | .wrapper | .sheet _ => []

/-- The import lines of a module for its style sheet and for what its template uses. -/
def linksOf (sheets : SheetCompiler) (config : Config) (tree : FileTree) (site : Site) :
    Origin → List String
  | .component v template =>
    ((sheetOf sheets tree v).map fun f => (Link.sheet (styleImport f)).line).toList ++
      (transform (environment config site) false template).value.importLines
        (some (helpersImport config))
  | .page v =>
    (transform (environment config site) false v.template).value.importLines
      (some (helpersImport config))
  | .frame template =>
    (transform (environment config site) true template).value.importLines
      (some (helpersImport config))
  | .wrapper | .sheet _ => []

theorem helpersImport_eq (config : Config) :
    helpersImport config = config.aliasName ++ "/" ++ (helpersFile config.pipesDir).path := by
  simp only [helpersImport, Config.aliasPath, helpersFile, String.intercalate_cons_cons,
    String.intercalate_singleton, String.append_assoc]
  rfl

theorem helpersModule_eq (config : Config) :
    helpersModule (some (helpersImport config)) config.aliasName = helpersImport config := by
  have hfull : (helpersImport config).isEmpty = false := by
    simp [helpersImport_eq]
  simp [helpersModule, Option.filter, hfull]

theorem componentImports_eq (sheets : SheetCompiler) (config : Config) (tree : FileTree)
    (site : Site) (v : View) (template : String) :
    componentImports v (transform (environment config site) false template).value
        (if v.isIsland then assignedInputs v.model v.inputs else []) config.aliasName
        ((sheetOf sheets tree v).map styleImport) (some (helpersImport config)) =
      ownImports config site (.component v template) ++
        linksOf sheets config tree site (.component v template) := by
  have hsheet : ((((sheetOf sheets tree v).map styleImport).filter (!·.isEmpty)).map fun p =>
      "import \"" ++ p ++ "\";") =
      (sheetOf sheets tree v).map fun f => (Link.sheet (styleImport f)).line := by
    cases sheetOf sheets tree v with
    | none => rfl
    | some f => simp [Option.filter, styleImport, Link.line]
  simp only [componentImports, ownImports, linksOf, helpersModule_eq, hsheet, List.append_assoc]

theorem pageImports_eq (config : Config) (t : Transformed) :
    pageImports t config.aliasName (some (helpersImport config)) =
      importNames ["define"] (config.aliasName ++ "/utils.ts") ::
        t.importLines (some (helpersImport config)) := by
  rw [pageImports, helpersModule_eq]

theorem exists_header_eq (imports : List String) :
    ∃ gap, header imports = lines imports ++ gap ∧ StartsLine gap := by
  rw [header]
  split
  · next hnone =>
    rw [List.isEmpty_iff.mp hnone]
    exact ⟨"", rfl, .inl rfl⟩
  · exact ⟨_, rfl, .inr ⟨"\n", rfl⟩⟩

theorem content_pageOutput {config : Config} {site : Site} {v : View} {f : File}
    (h : pageOutput config site v = .ok f) :
    ∃ rest, f.content =
      lines (pageImports (transform (environment config site) false v.template).value
        config.aliasName (some (helpersImport config))) ++ rest := by
  rw [pageOutput, page] at h
  split at h
  · cases h
  · cases h
    change ∃ rest, lines _ ++ _ ++ _ ++ _ = _ ++ rest
    simp only [String.append_assoc]
    exact ⟨_, rfl⟩

theorem content_frameFile (config : Config) (site : Site) (name template : String) :
    ∃ rest, (frameFile config site name template).content =
      lines (pageImports (transform (environment config site) true template).value
        config.aliasName (some (helpersImport config))) ++ rest := by
  change ∃ rest, lines _ ++ _ ++ _ ++ _ ++ _ ++ _ ++ _ = _ ++ rest
  simp only [String.append_assoc]
  exact ⟨_, rfl⟩

/-- **The links of a module stand at its top**, after the imports of its own. -/
theorem content_of_recorded {sheets : SheetCompiler} {config : Config} {tree : FileTree}
    {site : Site} {m : Made} (hm : Recorded sheets config tree site m) :
    ∃ rest, m.file.content =
      lines (ownImports config site m.origin ++ linksOf sheets config tree site m.origin) ++
        rest := by
  cases hm with
  | wrapper hf => exact ⟨_, (String.empty_append ..).symm⟩
  | sheet hv ht hf => exact ⟨_, (String.empty_append ..).symm⟩
  | component hv ht =>
    obtain ⟨interface, params, body, returned, hcontent, -, -⟩ :=
      content_moduleOf sheets config tree site _ _
    obtain ⟨gap, hgap, -⟩ := exists_header_eq _
    rw [hcontent, componentImports_eq, hgap]
    simp only [String.append_assoc]
    exact ⟨_, rfl⟩
  | page hv hf =>
    obtain ⟨rest, hrest⟩ := content_pageOutput hf
    exact ⟨rest, by rw [hrest, pageImports_eq]; rfl⟩
  | @frame name path template hf =>
    obtain ⟨rest, hrest⟩ := content_frameFile config site name template
    exact ⟨rest, by rw [hrest, pageImports_eq]; rfl⟩

/-! ## Runs -/

section

variable {sheets : SheetCompiler} {config : Config} {tree : FileTree} {site : Site} {r : Result}

theorem mem_files (h : (compile sheets config tree site).outcome = .ok r) {m : Made}
    (hm : Recorded sheets config tree site m) : m.file ∈ r.files := by
  rw [files_compile h]
  exact List.mem_map_of_mem (mem_ledger.mpr hm)

theorem importNames_singleton (name module : String) :
    importNames [name] module = importLine name module := by
  rw [importNames, String.intercalate_singleton, importLine]

theorem resolves_helpers (h : (compile sheets config tree site).outcome = .ok r)
    {names : List String} (hnames : names ⊆ runtimeHelpers) :
    (Link.named names (helpersImport config)).Resolves config.aliasName r.files := by
  have hfile : helpersFile config.pipesDir ∈ wrappers config site := by simp [wrappers]
  exact ⟨_, mem_files h (.wrapper hfile), helpersImport_eq config, fun name hname =>
    exports_helpersFile _ (hnames hname)⟩

theorem resolves_pipe (h : (compile sheets config tree site).outcome = .ok r)
    {d : Found PipeMetadata} (hd : d ∈ site.pipes) {entry : PipeEntry}
    (hentry : entry = .make d.metadata.name.text d.metadata.className config.pipesDir
      config.aliasName (some d.path) d.metadata.pure) :
    (Link.named [entry.functionName] entry.importPath).Resolves config.aliasName r.files := by
  subst hentry
  have hfile : pipeWrapper ⟨d.metadata.name.text, d.metadata.className,
      sourceLabel d.relativeSource d.path⟩ config.pipesDir config.aliasName ∈
      wrappers config site := by
    simp only [wrappers, List.mem_append, List.mem_map]
    exact .inl (.inl (.inr ⟨_, ⟨d, hd, rfl⟩, rfl⟩))
  refine ⟨_, mem_files h (.wrapper hfile), ?_, fun name hname => ?_⟩
  · simp only [PipeEntry.make, pipeWrapper, String.append_assoc]
  · rw [List.mem_singleton.mp hname]
    exact exports_pipeWrapper _ _ _

theorem resolves_directive (h : (compile sheets config tree site).outcome = .ok r)
    {d : Found DirectiveMetadata} (hd : d ∈ site.directives) {entry : DirectiveEntry}
    (hentry : entry = .make d.metadata.selector.text d.metadata.className config.directivesDir
      config.aliasName (some d.path)) :
    (Link.named [entry.applyName] entry.importPath).Resolves config.aliasName r.files := by
  subst hentry
  have hfile : directiveWrapper ⟨d.metadata.bareSelector.text, d.metadata.className,
      sourceLabel d.relativeSource d.path⟩ config.directivesDir config.aliasName ∈
      wrappers config site := by
    simp only [wrappers, List.mem_append, List.mem_map]
    exact .inl (.inl (.inl (.inl ⟨_, ⟨d, hd, rfl⟩, rfl⟩)))
  refine ⟨_, mem_files h (.wrapper hfile), ?_, fun name hname => ?_⟩
  · simp only [DirectiveEntry.make, directiveWrapper, DirectiveMetadata.bareSelector,
      String.append_assoc]
  · rw [List.mem_singleton.mp hname]
    exact exports_directiveWrapper _ _ _

theorem resolves_component (h : (compile sheets config tree site).outcome = .ok r) {v : View}
    (hv : v ∈ site.components) :
    (Link.whole v.className (config.aliasName ++ "/" ++ componentPath v)).Resolves config.aliasName
      r.files := by
  obtain ⟨template, htemplate⟩ := localTemplate_of_compile h hv
  exact ⟨_, mem_files h (.component hv htemplate), rfl,
    exportsDefault_moduleOf sheets config tree site v _⟩

/-- What a template uses is made by the run that compiles it. -/
theorem resolves_importLines (h : (compile sheets config tree site).outcome = .ok r)
    {inLayout : Bool} {template line : String}
    (hline : line ∈ (transform (environment config site) inLayout template).value.importLines
      (some (helpersImport config))) :
    ∃ link : Link, link.line = line ∧ link.Resolves config.aliasName r.files := by
  simp only [Transformed.importLines, List.mem_append, List.mem_map] at hline
  -- Helpers, pipes, directives and components, in the order of the lines.
  rcases hline with ((hline | ⟨entry, hentry, rfl⟩) | ⟨entry, hentry, rfl⟩) | ⟨i, hi, rfl⟩
  · split at hline
    · cases hline
    · rw [List.mem_singleton.mp hline]
      exact ⟨_, rfl, resolves_helpers h (helpers_transform _ inLayout template)⟩
  · obtain ⟨d, hd, hmake⟩ := mem_pipes_transform hentry
    exact ⟨.named [entry.functionName] entry.importPath, importNames_singleton _ _,
      resolves_pipe h hd hmake⟩
  · obtain ⟨d, hd, hmake⟩ := mem_directives_transform hentry
    exact ⟨.named [entry.applyName] entry.importPath, importNames_singleton _ _,
      resolves_directive h hd hmake⟩
  · obtain ⟨v, hv, hname, hpath⟩ := mem_imports_transform hi
    refine ⟨_, ?_, resolves_component h hv⟩
    rw [Link.line, ← hname, ← hpath]
    rfl

theorem resolves_linksOf (h : (compile sheets config tree site).outcome = .ok r) {m : Made}
    (hm : Recorded sheets config tree site m) {line : String}
    (hline : line ∈ linksOf sheets config tree site m.origin) :
    ∃ link : Link, link.line = line ∧ link.Resolves config.aliasName r.files := by
  cases hm with
  | wrapper hf => cases hline
  | sheet hv ht hf => cases hline
  | page hv hf => exact resolves_importLines h hline
  | frame hf => exact resolves_importLines h hline
  | component hv ht =>
    rcases List.mem_append.mp hline with hline | hline
    · obtain ⟨f, hf, rfl⟩ := Option.map_eq_some_iff.mp (Option.mem_toList.mp hline)
      exact ⟨_, rfl, f, mem_files h (.sheet hv ht hf), rfl⟩
    · exact resolves_importLines h hline

/-- **All links of a site resolve.** In every run that gives a result, whatever the settings and the
compiler of style sheets are, each module starts with the imports of its own and then its links; and
each link, be it of runtime helpers, a pipe, a directive, a component or a style sheet, points at a
file of the run that exports the names it asks for. -/
theorem compile_links (h : (compile sheets config tree site).outcome = .ok r) :
    r.files = (ledger sheets config tree site).map Made.file ∧
      ∀ m ∈ ledger sheets config tree site,
        (∃ rest, m.file.content =
          lines (ownImports config site m.origin ++ linksOf sheets config tree site m.origin) ++
            rest) ∧
        ∀ line ∈ linksOf sheets config tree site m.origin,
          ∃ link : Link, link.line = line ∧ link.Resolves config.aliasName r.files :=
  ⟨files_compile h, fun _ hm => ⟨content_of_recorded (mem_ledger.mp hm),
    fun _ hline => resolves_linksOf h (mem_ledger.mp hm) hline⟩⟩

end

theorem isIsland_shopCard : shopCard.isIsland = false := by
  have hquiet : (Template.tokenize "<p>").toList.any Template.Token.isInteractive = false := by
    decide +kernel
  change (shopCard.isInteractive || !shopCard.model.dependencies.isEmpty) = false
  rw [shopCard, isInteractive_bareView, hquiet]
  rfl

theorem sheetOf_shopCard :
    sheetOf shopSheets shopTree shopCard =
      some ⟨"static/css/components/Card.css", "p\x7bcolor:red\x7d\n", []⟩ := by
  unfold sheetOf
  rw [isIsland_shopCard]
  rfl

theorem compile_links_shopSite :
    ∃ r, (compile shopSheets (.default {}) shopTree shopSite).outcome = .ok r ∧
      r.files = (ledger shopSheets (.default {}) shopTree shopSite).map Made.file ∧
      (∀ m ∈ ledger shopSheets (.default {}) shopTree shopSite,
        ∀ line ∈ linksOf shopSheets (.default {}) shopTree shopSite m.origin,
          ∃ link : Link, link.line = line ∧ link.Resolves "@" r.files) ∧
      (Link.sheet "/static/css/components/Card.css").line ∈
        linksOf shopSheets (.default {}) shopTree shopSite (.component shopCard "<p>") := by
  obtain ⟨r, hr⟩ := exists_compile_shopSite
  obtain ⟨hfiles, hlinks⟩ := compile_links hr
  refine ⟨r, hr, hfiles, fun m hm => (hlinks m hm).2, ?_⟩
  simp only [linksOf, sheetOf_shopCard]
  exact List.mem_cons_self

end Trellis.Build
