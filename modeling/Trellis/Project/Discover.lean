import Trellis.Diagnostic
import Trellis.FileTree
import Trellis.Project.View

/-!
# Discovering a project

Every decorated class below the source folder is a unit of the project: a directive, a pipe, a
service, or a view. A source file holds one unit at most.

* `load` decides what a source file holds: directives count before pipes, pipes before services, and
  services before views.
* `discover` goes through the source folder, the files of a folder before its subfolders, by name.
-/

namespace Trellis.Project

open Trellis.Text
open Trellis.TypeScript

/-- A class without a template, and where it was found. -/
structure Found (μ : Type) where
  path : Path
  relativePath : String
  relativeSource : String
  metadata : μ

/-- A unit of a project. -/
inductive ProjectUnit where
  | directive (found : Found DirectiveMetadata)
  | pipe (found : Found PipeMetadata)
  | service (found : Found ServiceMetadata)
  | view (view : View)

/-- A site in sources: the units of a project, by kind. -/
structure Site where
  components : List View := []
  routes : List View := []
  layouts : List View := []
  directives : List (Found DirectiveMetadata) := []
  pipes : List (Found PipeMetadata) := []
  services : List (Found ServiceMetadata) := []

/-- The site with one more unit. -/
def Site.add (s : Site) : ProjectUnit → Site
  | .directive found => { s with directives := s.directives ++ [found] }
  | .pipe found => { s with pipes := s.pipes ++ [found] }
  | .service found => { s with services := s.services ++ [found] }
  | .view v =>
    match v.kind with
    | .component => { s with components := s.components ++ [v] }
    | .route => { s with routes := s.routes ++ [v] }
    | .layout => { s with layouts := s.layouts ++ [v] }

/-! ## Loading a source file -/

/-- A line of the log about loading. -/
def report (level : Log.Level) (message : String) : Logged Unit :=
  Logged.tell level "project" message

/-- Where a source file is below the source folder; its name if it is elsewhere. -/
def relativeSourceOf (path sourceDir : Path) : String :=
  ((path.relativeTo? sourceDir).map Path.toString).getD path.name

/-- What a source file is called in messages and output paths: its folder for a main file or one
named in brackets, else its place without the extension. -/
def relativePathOf (path sourceDir : Path) : String :=
  let relative := Path.ofString (relativeSourceOf path sourceDir)
  if path.name == "mod.ts" || (dynamicSegment? path.name).isSome then relative.parent.toString
  else relative.withoutExtension.toString

/-- The template of the view at `path`; empty if it cannot be read. -/
def readTemplate (tree : FileTree) (path : Path) (template : String) : Logged String := do
  let place := (path.parent.child template).resolve
  match tree.readText place with
  | .ok text => pure text
  | .error _ =>
    report .warning
      ("Could not read template " ++ place.toString ++ " for " ++ path.toString)
    pure ""

/-- The directive in a source. -/
def loadDirective (found : {μ : Type} → μ → Found μ) (path : Path) (s : Source) :
    Logged (Option ProjectUnit) := do
  match readDirective s with
  | none =>
    report .warning ("@Directive in " ++ path.toString ++ " has no selector; skipped")
    pure none
  | some m =>
    if !hasStart m.selector.text "*" then
      report .warning ("Directive selector '" ++ m.selector.text ++ "' in " ++ path.toString ++
        " should start with '*'")
    pure (some (.directive (found m)))

/-- The pipe in a source. -/
def loadPipe (found : {μ : Type} → μ → Found μ) (path : Path) (s : Source) :
    Logged (Option ProjectUnit) := do
  match readPipe s with
  | none =>
    report .warning ("@Pipe in " ++ path.toString ++ " has no name; skipped")
    pure none
  | some m => pure (some (.pipe (found m)))

/-- The view in a source; pages count before frames, and frames before components. -/
def loadView (tree : FileTree) (path : Path) (relativePath : String) (s : Source) :
    Logged (Option ProjectUnit) := do
  match [ViewKind.route, .layout, .component].findSome? (ViewMetadata.read · s) with
  | none =>
    report .debug ("No sprig decorator in " ++ path.toString)
    pure none
  | some metadata =>
    let template ← readTemplate tree path metadata.template.text
    pure (some (.view ⟨path, relativePath, metadata, s, template, path.name⟩))

/-- The unit in a source file. -/
def load (tree : FileTree) (sourceDir path : Path) : Logged (Option ProjectUnit) := do
  match tree.readText path with
  | .error _ =>
    report .warning ("Could not read " ++ path.toString ++ "; skipped")
    pure none
  | .ok text =>
    let s := Source.ofString text
    let relativePath := relativePathOf path sourceDir
    let found {μ : Type} (m : μ) : Found μ :=
      ⟨path, relativePath, relativeSourceOf path sourceDir, m⟩
    if (s.findClass "Directive").isSome then loadDirective found path s
    else if (s.findClass "Pipe").isSome then loadPipe found path s
    else
      match readService s with
      | some m => pure (some (.service (found m)))
      | none => loadView tree path relativePath s

/-! ## Going through the sources -/

/-- Folders that hold no sources. -/
def isSkipped (folder : String) : Bool := folder == "node_modules" || hasStart folder "."

/-- A file that can hold a unit: neither declarations nor tests. -/
def isSourceName (name : String) : Bool :=
  hasEnd name ".ts" && !hasEnd name ".d.ts" && !hasEnd name "_test.ts"

/-- The source files below a folder; `fuel` bounds the depth. -/
def sourcesBelow (tree : FileTree) : Nat → Path → List Path
  | 0, _ => []
  | fuel + 1, folder =>
    let entries := tree.entries folder
    let files := entries.filterMap fun (name, node) =>
      match node with
      | .file _ => if isSourceName name then some (folder.child name) else none
      | .folder => none
    let folders := entries.filterMap fun (name, node) =>
      match node with
      | .folder => if isSkipped name then none else some (folder.child name)
      | .file _ => none
    files ++ folders.flatMap (sourcesBelow tree fuel)

/-- The line of the log that counts the units. -/
def Site.census (s : Site) : String :=
  let count {α : Type} (units : List α) (kind : String) : String :=
    toString units.length ++ " " ++ kind
  "Discovered " ++ ", ".intercalate
    [count s.components "components", count s.routes "routes", count s.directives "directives",
      count s.pipes "pipes", count s.services "services"]

/-- The units below the source folder. -/
def discover (tree : FileTree) (sourceDir : Path) : Logged Site := do
  let paths := sourcesBelow tree (tree.nodes.length + 1) sourceDir
  let units ← paths.mapM (load tree sourceDir)
  let site := (units.filterMap id).foldl Site.add {}
  Logged.tell .info "build" site.census
  pure site

end Trellis.Project
