import Trellis.Registry
import Trellis.TypeScript.Decorator

/-!
# What decorators say

The metadata of the six kinds of decorated classes. A decorator that is absent, or that lacks an
option it cannot do without, gives nothing.
-/

namespace Trellis.Project

open Trellis.TypeScript

/-- The template of a class that names none. -/
def defaultTemplate : OptionText := ⟨"./mod.html", false⟩

/-- The scope of a service that names none: one instance for all users. -/
def defaultScope : OptionText := ⟨"singleton", false⟩

/-- A pipe: the name it is used by and its class. -/
structure PipeMetadata where
  name : OptionText
  className : String
  pure : Bool := true
  deriving DecidableEq, Repr

/-- A directive: its selector and its class. -/
structure DirectiveMetadata where
  selector : OptionText
  className : String
  deriving DecidableEq, Repr

/-- The selector without its star. -/
def DirectiveMetadata.bareSelector (m : DirectiveMetadata) : OptionText :=
  { m.selector with text := Trellis.bareSelector m.selector.text }

/-- A component. `island` counts only if it was given. -/
structure ComponentMetadata where
  className : String
  template : OptionText := defaultTemplate
  island : Option Bool := none
  styles : Option OptionText := none
  deriving DecidableEq, Repr

/-- A page. -/
structure RouteMetadata where
  className : String
  template : OptionText := defaultTemplate
  path : Option OptionText := none
  layout : Option String := none
  deriving DecidableEq, Repr

/-- The frame around all pages. -/
structure LayoutMetadata where
  className : String
  template : OptionText := defaultTemplate
  deriving DecidableEq, Repr

/-- A service, and the methods to call when the site starts. -/
structure ServiceMetadata where
  className : String
  scope : OptionText := defaultScope
  onStartup : List OptionText := []
  deriving DecidableEq, Repr

/-- The options of a decorator and the name of the class that carries it. -/
def decorated (s : Source) (decorator fallback : String) : Option (Options × String) := do
  let declared ← s.findClass decorator
  let found ← findDecorator decorator declared.decorators
  let name := declared.name.filter (!·.isEmpty)
  pure (found.options, (name.orElse fun _ => s.exportedClass).getD fallback)

/-- The template that options name. -/
def templateOf (options : Options) : OptionText :=
  (options.string? ["template"]).getD defaultTemplate

/-- Reads `@Pipe`; a pipe needs a name. -/
def readPipe (s : Source) : Option PipeMetadata := do
  let (options, className) ← decorated s "Pipe" "UnknownPipe"
  let name ← options.string? ["name"]
  pure ⟨name, className, (options.bool? "pure").getD true⟩

/-- Reads `@Directive`; a directive needs a selector. -/
def readDirective (s : Source) : Option DirectiveMetadata := do
  let (options, className) ← decorated s "Directive" "UnknownDirective"
  let selector ← options.string? ["selector"]
  pure ⟨selector, className⟩

/-- Reads `@Component`. -/
def readComponent (s : Source) : Option ComponentMetadata := do
  let (options, className) ← decorated s "Component" "UnknownComponent"
  pure ⟨className, templateOf options, options.bool? "island",
    options.string? ["styles", "styling"]⟩

/-- Reads `@Route`. -/
def readRoute (s : Source) : Option RouteMetadata := do
  let (options, className) ← decorated s "Route" "UnknownRoute"
  let layout := ((options.get? "layout").filter (!·.isFalsy)).map (·.display)
  pure ⟨className, templateOf options, options.string? ["path"], layout⟩

/-- Reads `@Layout`. -/
def readLayout (s : Source) : Option LayoutMetadata := do
  let (options, className) ← decorated s "Layout" "UnknownLayout"
  pure ⟨className, templateOf options⟩

/-- Reads `@Service`. -/
def readService (s : Source) : Option ServiceMetadata := do
  let (options, className) ← decorated s "Service" "UnknownService"
  let startup :=
    match options.get? "onStartup" with
    | some (.list items) => items.filterMap OptionValue.string?
    | _ => []
  pure ⟨className, (options.string? ["scope"]).getD defaultScope, startup⟩

end Trellis.Project
