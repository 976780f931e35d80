import Trellis.Text.Blank
import Trellis.Text.Cut
import Trellis.Path
import Trellis.Table

/-!
# Registries of directives and pipes

A registry is filled before any template is compiled, then frozen, and only read afterwards. It
keeps its entries in the order of their first registration; registering a name again replaces the
entry in its place.

* `Registry.register` fails exactly on a frozen registry.
* `DirectiveEntry.make` and `PipeEntry.make` derive from a class what its users import.
-/

namespace Trellis

open Trellis.Text

/-- What a registry holds. -/
inductive RegistryKind where
  | directive
  | pipe
  deriving DecidableEq, Repr

/-- The word for an entry of a registry. -/
def RegistryKind.label : RegistryKind → String
  | .directive => "directive"
  | .pipe => "pipe"

/-- A registration came after the registry was frozen. -/
structure RegistryFrozen where
  kind : RegistryKind
  key : String
  deriving DecidableEq, Repr

/-- The error in words. -/
def RegistryFrozen.message (e : RegistryFrozen) : String :=
  "Cannot register " ++ e.kind.label ++ " '" ++ e.key ++ "' after transformation started"

/-- Entries by name, and whether more may be added. -/
structure Registry (ε : Type) where
  kind : RegistryKind
  entries : Table ε := {}
  frozen : Bool := false

namespace Registry

variable {ε : Type}

/-- The registry, closed to further registrations. -/
def freeze (r : Registry ε) : Registry ε := { r with frozen := true }

/-- Adds an entry under a name. -/
def register (r : Registry ε) (key : String) (entry : ε) : Except RegistryFrozen (Registry ε) :=
  if r.frozen then .error ⟨r.kind, key⟩ else .ok { r with entries := r.entries.put key entry }

/-- The registry after registering entries under their names, in order, and closing it. -/
def closed (kind : RegistryKind) (rows : List (String × ε)) : Registry ε :=
  { kind, entries := Table.ofList rows, frozen := true }

/-- The entry of a name. -/
def get? (r : Registry ε) (key : String) : Option ε := r.entries.get? key

/-- The name has an entry. -/
def has (r : Registry ε) (key : String) : Bool := r.entries.contains key

/-- The entries in order. -/
def all (r : Registry ε) : List ε := r.entries.values

/-- The number of entries. -/
def size (r : Registry ε) : Nat := r.entries.size

end Registry

/-- An import of one name. -/
def importLine (name path : String) : String :=
  "import \x7b " ++ name ++ " \x7d from \"" ++ path ++ "\";"

/-- The name of a directive: its selector without one leading asterisk. -/
def bareSelector (selector : String) : String :=
  match selector.toList with
  | '*' :: cs => String.ofList cs
  | _ => selector

/-- A directive and the function that applies it. -/
structure DirectiveEntry where
  selector : String
  className : String
  applyName : String
  importPath : String
  sourcePath : Option String
  deriving DecidableEq, Repr

/-- The entry of a directive class, whose wrapper module stands in `outputDir`. -/
def DirectiveEntry.make (selector className outputDir aliasName : String)
    (source : Option Path) : DirectiveEntry :=
  let bare := bareSelector selector
  ⟨bare, className, "apply" ++ className, aliasName ++ "/" ++ outputDir ++ "/" ++ bare ++ ".ts",
    source.map Path.toString⟩

/-- The line that imports the directive's function. -/
def DirectiveEntry.importLine (e : DirectiveEntry) : String :=
  Trellis.importLine e.applyName e.importPath

/-- A pipe and the function that runs it. -/
structure PipeEntry where
  name : String
  className : String
  functionName : String
  importPath : String
  sourcePath : Option String
  pure : Bool
  deriving DecidableEq, Repr

/-- The entry of a pipe class, whose wrapper module stands in `outputDir`. -/
def PipeEntry.make (name className outputDir aliasName : String) (source : Option Path)
    (pure : Bool) : PipeEntry :=
  ⟨name, className, name, aliasName ++ "/" ++ outputDir ++ "/" ++ name ++ ".ts",
    source.map Path.toString, pure⟩

/-- The line that imports the pipe's function. -/
def PipeEntry.importLine (e : PipeEntry) : String :=
  Trellis.importLine e.functionName e.importPath

/-- The registry of directives. -/
abbrev DirectiveRegistry := Registry DirectiveEntry

/-- The registry of pipes. -/
abbrev PipeRegistry := Registry PipeEntry

/-- Registers a directive class. -/
def DirectiveRegistry.add (r : DirectiveRegistry) (selector className : String)
    (outputDir : String := "directives") (aliasName : String := "@")
    (source : Option Path := none) : Except RegistryFrozen (DirectiveEntry × DirectiveRegistry) :=
  let entry := DirectiveEntry.make selector className outputDir aliasName source
  (r.register entry.selector entry).map fun r => (entry, r)

/-- Registers a pipe class. -/
def PipeRegistry.add (r : PipeRegistry) (name className : String) (outputDir : String := "pipes")
    (aliasName : String := "@") (source : Option Path := none) (pure : Bool := true) :
    Except RegistryFrozen (PipeEntry × PipeRegistry) :=
  let entry := PipeEntry.make name className outputDir aliasName source pure
  (r.register entry.name entry).map fun r => (entry, r)

/-- The spread that applies a registered directive to an element; nothing for an unknown name. -/
def applyDirective (registry : Option DirectiveRegistry) (name : String)
    (expression : Option String) : Option String :=
  (registry.bind (·.get? name)).map fun entry =>
    let value := strip (expression.getD "")
    let argument := if value.isEmpty then "undefined" else value
    "\x7b..." ++ entry.applyName ++ "(\x7b\x7d, " ++ argument ++ ")\x7d"

end Trellis
