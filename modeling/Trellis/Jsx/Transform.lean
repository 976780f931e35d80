import Trellis.Jsx.Emit
import Trellis.Template.Parser

/-!
# Compiling templates

`transform` reads a template, emits it as JSX, and gathers everything its module has to import.
The flaws of the markup end up among the warnings.
-/

namespace Trellis.Jsx

open Trellis.Template

/-- What templates of a project are compiled against. -/
structure Environment where
  known : List KnownComponent := []
  directives : Option DirectiveRegistry := none
  pipes : Option PipeRegistry := none
  aliasName : String := "@"

/-- The scope of a template, in a layout or not. -/
def Environment.scope (env : Environment) (inLayout : Bool) : Scope :=
  ⟨env.directives, env.pipes, inLayout⟩

/-- A compiled template. -/
structure Transformed where
  jsx : String
  imports : List TagImport
  pipes : List PipeEntry
  directives : List DirectiveEntry
  warnings : List Warning
  errors : List ParseError
  helpers : List String
  refs : List String
  slots : List String
  hasOutlet : Bool
  hasDefaultSlot : Bool

/-- The template has a place for projected content. -/
def Transformed.hasSlots (t : Transformed) : Bool := t.hasDefaultSlot || !t.slots.isEmpty

/-- The entries that a registry has for names. -/
def lookUpAll {ε : Type} (registry : Option (Registry ε)) (names : List String) : List ε :=
  names.filterMap fun name => registry.bind (·.get? name)

/-- Compiles a template. -/
def transform (env : Environment) (inLayout : Bool) (template : String) : Logged Transformed := do
  let parsed := parseTemplate template
  let (jsx, e) := (emitDocument (env.scope inLayout) parsed.document).run {}
  Logged.tellAll (e.warnings.map Warning.logEntry)
  let imports ← (customTags parsed.document).mapM (resolve env.known env.aliasName)
  let flaws := parsed.errors.map ParseError.warning
  Logged.tellAll (flaws.map Warning.logEntry)
  pure {
    jsx
    imports := imports.filterMap id
    pipes := lookUpAll env.pipes e.usedPipes
    directives := lookUpAll env.directives e.usedDirectives
    warnings := e.warnings ++ flaws
    errors := parsed.errors
    helpers := e.helpers
    refs := e.refs
    slots := e.slots
    hasOutlet := e.hasOutlet
    hasDefaultSlot := e.hasDefaultSlot }

/-- The import lines of a compiled template: runtime helpers, pipes, directives, components. -/
def Transformed.importLines (t : Transformed) (helpersImport : Option String) : List String :=
  let helpers :=
    match helpersImport with
    | some path =>
      if t.helpers.isEmpty || path.isEmpty then []
      else [importLine (", ".intercalate t.helpers) path]
    | none => []
  helpers ++ t.pipes.map PipeEntry.importLine ++ t.directives.map DirectiveEntry.importLine ++
    t.imports.map TagImport.statement

end Trellis.Jsx
