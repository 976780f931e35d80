import Trellis.Path
import Trellis.Project.Input
import Trellis.Project.Metadata
import Trellis.Template.Parser

/-!
# Views

A view is a decorated class with a template: a component, a page, or the frame around all pages.

* `View.isIsland` decides whether a component runs in the browser: as its decorator says, and
  otherwise if its template reacts to the user or its class asks for a service.
-/

namespace Trellis.Project

open Trellis.Text
open Trellis.TypeScript

/-- The three kinds of views. -/
inductive ViewKind where
  | component
  | route
  | layout
  deriving DecidableEq, Repr

/-- The name of a kind. -/
def ViewKind.label : ViewKind → String
  | .component => "component"
  | .route => "route"
  | .layout => "layout"

/-- The decorator that marks a kind. -/
def ViewKind.decorator : ViewKind → String
  | .component => "Component"
  | .route => "Route"
  | .layout => "Layout"

/-- What the decorator of a view says. -/
inductive ViewMetadata where
  | component (m : ComponentMetadata)
  | route (m : RouteMetadata)
  | layout (m : LayoutMetadata)

namespace ViewMetadata

/-- The kind of view. -/
def kind : ViewMetadata → ViewKind
  | .component _ => .component
  | .route _ => .route
  | .layout _ => .layout

/-- The name of the class. -/
def className : ViewMetadata → String
  | .component m => m.className
  | .route m => m.className
  | .layout m => m.className

/-- Where the template is. -/
def template : ViewMetadata → OptionText
  | .component m => m.template
  | .route m => m.template
  | .layout m => m.template

/-- Reads the decorator of a kind. -/
def read (kind : ViewKind) (s : Source) : Option ViewMetadata :=
  match kind with
  | .component => (readComponent s).map .component
  | .route => (readRoute s).map .route
  | .layout => (readLayout s).map .layout

end ViewMetadata

/-- The name between brackets in a file name such as `[id].ts`. -/
def dynamicSegment? (filename : String) : Option String :=
  match beforeFinalBreak filename.toList with
  | '[' :: cs =>
    let segment := cs.takeWhile (· != ']')
    if segment.isEmpty || cs.drop segment.length != "].ts".toList then none
    else some (String.ofList segment)
  | _ => none

/-- A view with its template. `relativePath` names it in messages and in output paths. -/
structure View where
  path : Path
  relativePath : String
  metadata : ViewMetadata
  source : Source
  template : String
  filename : String := "mod.ts"

/-- A source that lacks the decorator of the wanted kind. -/
structure MissingDecorator where
  kind : ViewKind
  relativePath : String
  deriving DecidableEq, Repr

/-- The error in words. -/
def MissingDecorator.message (e : MissingDecorator) : String :=
  "No @" ++ e.kind.decorator ++ " decorator found in " ++ e.relativePath

namespace View

/-- The view of a kind in a source. -/
def ofSource (kind : ViewKind) (source : Source) (template relativePath filename : String) :
    Except MissingDecorator View :=
  match ViewMetadata.read kind source with
  | some metadata =>
    .ok ⟨Path.ofString relativePath, relativePath, metadata, source, template, filename⟩
  | none => .error ⟨kind, relativePath⟩

/-- The kind of the view. -/
def kind (v : View) : ViewKind := v.metadata.kind

/-- The name of the class. -/
def className (v : View) : String := v.metadata.className

/-- The class of the view. -/
def model (v : View) : ClassModel :=
  (v.source.classModel (some v.kind.decorator)).getD { name := none }

/-- The inputs of the view. -/
def inputs (v : View) : List Input := inputsOf (some v.model)

/-- The template reacts to the user. -/
def isInteractive (v : View) : Bool := (Template.parseTemplate v.template).document.isInteractive

/-- The view is a component that runs in the browser. -/
def isIsland (v : View) : Bool :=
  match v.metadata with
  | .component m =>
    match m.island with
    | some flag => flag
    | none => v.isInteractive || !v.model.dependencies.isEmpty
  | _ => false

/-- The variable part of the address of a page. -/
def dynamicSegment (v : View) : Option String := dynamicSegment? v.filename

/-- Where the style sheet of a component is. -/
def styles (v : View) : Option String :=
  match v.metadata with
  | .component m => m.styles.map (·.text)
  | _ => none

/-- The address that a page asks for. -/
def explicitPath (v : View) : Option String :=
  match v.metadata with
  | .route m => m.path.map (·.text)
  | _ => none

end View

end Trellis.Project
