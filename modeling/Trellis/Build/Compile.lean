import Trellis.Output.Component
import Trellis.Output.Page
import Trellis.Output.Style
import Trellis.Output.Wrapper
import Trellis.Project.Config
import Trellis.Project.Discover

/-!
# Compiling a site

A run discovers the units of a project, registers its directives and pipes, and then compiles every
template against the same closed registries: wrappers first, then components, pages and the frame.

* A flaw in a template is a warning, or, in a strict run, the end of the run.
* A page that reacts to the user is an error of the result; the run goes on without it.
* A run is given the compiler of style sheets (`SheetCompiler`).
-/

namespace Trellis.Build

open Trellis.Text
open Trellis.Jsx
open Trellis.Output
open Trellis.Project

/-! ## Results -/

/-- What a run gives: files in the order they were made, and what is to be said about the units,
each by its path. -/
structure Result where
  files : List File := []
  errors : List (String × InteractivePage) := []
  warnings : List (String × Warning) := []

/-- There is no error. -/
def Result.ok (r : Result) : Bool := r.errors.isEmpty

/-- The first file made for an output path. -/
def Result.get? (r : Result) (path : String) : Option File := r.files.find? (·.path == path)

/-- The result with the files of a unit. -/
def Result.addFiles (r : Result) (path : String) (files : List File) : Result :=
  { r with
    files := r.files ++ files
    warnings := r.warnings ++ files.flatMap fun f => f.warnings.map fun w => (path, w) }

/-- A template with flaws, which ends a strict run. -/
structure FlawedTemplate where
  path : String
  errors : List Template.ParseError
  deriving DecidableEq, Repr

/-- The error in words. -/
def FlawedTemplate.message (e : FlawedTemplate) : String :=
  "Template for '" ++ e.path ++ "' has " ++ toString e.errors.length ++ " parse error(s):\n" ++
    "\n".intercalate (e.errors.map fun error => "  " ++ error.text)

/-- Why a run ends without a result. -/
inductive Failure where
  | template (error : FlawedTemplate)
  /-- The name of a service cannot be put into a template. -/
  | service (error : ReplacementError)
  | output (error : WriteError)

/-- A step of a run. -/
abbrev Run := ExceptT Failure Logged

/-- Lines of the log about the run. -/
def report (level : Log.Level) (messages : List String) : Logged Unit :=
  Logged.tellAll (messages.map (Log.entry level "build"))

/-! ## Registries -/

/-- The registered directives and pipes of a project, closed. -/
structure Registries where
  directives : DirectiveRegistry
  pipes : PipeRegistry

/-- Registers the directives and pipes of a project. -/
def Registries.ofSite (config : Config) (site : Site) : Registries :=
  let directives := site.directives.map fun d => DirectiveEntry.make d.metadata.selector.text
    d.metadata.className config.directivesDir config.aliasName (some d.path)
  let pipes := site.pipes.map fun d => PipeEntry.make d.metadata.name.text d.metadata.className
    config.pipesDir config.aliasName (some d.path) d.metadata.pure
  ⟨Registry.closed .directive (directives.map fun e => (e.selector, e)),
    Registry.closed .pipe (pipes.map fun e => (e.name, e))⟩

/-- What the templates of a project are compiled against. -/
def environment (config : Config) (site : Site) : Environment :=
  let registries := Registries.ofSite config site
  { known := site.components.map fun v => ⟨v.className, v.isIsland⟩
    directives := some registries.directives
    pipes := some registries.pipes
    aliasName := config.aliasName }

/-! ## Wrappers -/

/-- The wrapper modules of a project. -/
def wrappers (config : Config) (site : Site) : List File :=
  let directives := site.directives.map fun d =>
    (⟨d.metadata.bareSelector.text, d.metadata.className, sourceLabel d.relativeSource d.path⟩ :
      Wrapped)
  let pipes := site.pipes.map fun d =>
    (⟨d.metadata.name.text, d.metadata.className, sourceLabel d.relativeSource d.path⟩ : Wrapped)
  let services := site.services.map fun d =>
    (⟨d.metadata.className, d.metadata.scope.text, d.metadata.onStartup.map (·.text),
      sourceLabel d.relativeSource d.path⟩ : WrappedService)
  directives.map (directiveWrapper · config.directivesDir config.aliasName) ++
    [directiveIndex directives config.directivesDir] ++
    pipes.map (pipeWrapper · config.pipesDir config.aliasName) ++
    [pipeIndex pipes config.pipesDir, helpersFile config.pipesDir] ++
    (if services.isEmpty then [] else [serviceContainer services config.aliasName])

/-! ## Views -/

/-- The module of the pipes' runtime helpers. -/
def helpersImport (config : Config) : String := config.aliasPath [config.pipesDir, "helpers.ts"]

/-- The files of a component: its module, and its style sheet if it has a usable one. -/
def componentFiles (sheets : SheetCompiler) (config : Config) (env : Environment) (tree : FileTree)
    (v : View) : Run (List File) := do
  let style ← sheetFile sheets tree v.path v.styles v.isIsland v.className
  match ← component env v (style.map styleImport) (some (helpersImport config)) with
  | .ok module => pure (module :: style.toList)
  | .error e => throw (.service e)

/-- Adds the files of a view to a result. Flaws of its template are logged, or end a strict run. -/
def addView (config : Config) (path template : String)
    (produce : Run (Except InteractivePage (List File))) (r : Result) : Run Result := do
  let flaws := (Template.parseTemplate template).errors
  if !flaws.isEmpty && config.strict then throw (.template ⟨path, flaws⟩)
  else
    report .warning (flaws.map fun flaw => path ++ ": " ++ flaw.text)
    match ← produce with
    | .ok files => pure (r.addFiles path files)
    | .error e => pure { r with errors := r.errors ++ [(path, e)] }

/-- The file in the source folder that is the frame if no class is. -/
def bootstrapTemplate : String := "bootstrap.html"

/-- The name, path and template of the frame: the first class that is one, else the file. -/
def frameOf (config : Config) (tree : FileTree) (site : Site) :
    Logged (Option (String × String × String)) := do
  match site.layouts with
  | first :: others =>
    report .warning (others.map fun other =>
      "Ignoring additional @Layout " ++ other.className ++ "; " ++ first.className ++
        " is the root layout")
    pure (some (first.className, first.relativePath, first.template))
  | [] =>
    let file := config.sourceDir.child bootstrapTemplate
    match tree.readText file with
    | .ok template => pure (some ("RootLayout", bootstrapTemplate, template))
    | .error .missing => pure none
    | .error _ =>
      report .warning ["Could not read " ++ file.toString]
      pure none

/-- Adds the frame to a result. -/
def addFrame (config : Config) (env : Environment) (tree : FileTree) (site : Site) (r : Result) :
    Run Result := do
  match ← frameOf config tree site with
  | none => pure r
  | some (name, path, template) =>
    let produce : Run (Except InteractivePage (List File)) := do
      let file ← frame env template name (some (helpersImport config))
      pure (.ok [file])
    addView config path template produce r

/-! ## Runs -/

/-- Compiles a project. -/
def compile (sheets : SheetCompiler) (config : Config) (tree : FileTree) (site : Site) :
    Run Result := do
  let env := environment config site
  let r : Result := { files := wrappers config site }
  let r ← site.components.foldlM (fun r v =>
    addView config v.relativePath v.template
      (do pure (.ok (← componentFiles sheets config env tree v))) r) r
  let r ← site.routes.foldlM (fun r v =>
    addView config v.relativePath v.template
      (do pure ((← page env v (some (helpersImport config))).map ([·]))) r) r
  let r ← addFrame config env tree site r
  report .error (r.errors.map fun (path, error) => path ++ ": " ++ error.message)
  pure r

/-- Discovers and compiles the project of a configuration. -/
def compileProject (sheets : SheetCompiler) (config : Config) (tree : FileTree) :
    Logged (Except Failure Result) := do
  let site ← discover tree config.sourceDir
  (compile sheets config tree site).run

/-- Writes files below a folder. A file that cannot be written ends the writing. -/
def write (folder : Path) : List File → FileTree → FileTree × Option WriteError
  | [], tree => (tree, none)
  | file :: files, tree =>
    match tree.writeText (folder.child file.path) file.content with
    | .ok tree => write folder files tree
    | .error e => (tree, some e)

/-- A finished build: the tree as it is then, and the result. -/
structure Outcome where
  tree : FileTree
  result : Except Failure Result

/-- Discovers and compiles the project of a configuration, and writes the files. -/
def buildProject (sheets : SheetCompiler) (config : Config) (tree : FileTree) :
    Logged Outcome := do
  match ← compileProject sheets config tree with
  | .error e => pure ⟨tree, .error e⟩
  | .ok r =>
    match write config.outputDir r.files tree with
    | (tree, some e) => pure ⟨tree, .error (.output e)⟩
    | (tree, none) =>
      report .info
        ["Wrote " ++ toString r.files.length ++ " files to " ++ config.outputDir.toString]
      pure ⟨tree, .ok r⟩

end Trellis.Build
