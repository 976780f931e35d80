import Trellis.Jsx.Transform
import Trellis.Output.Island
import Trellis.Output.References
import Trellis.Project.View

/-!
# Component modules

A component becomes a function of its properties: it takes its services and inputs, sets up its
state, and returns the template. An island keeps its state in signals; any other component runs
once, on the server.
-/

namespace Trellis.Output

open Trellis.Text
open Trellis.TypeScript
open Trellis.Project
open Trellis.Jsx

/-- Where the module of a component goes. -/
def componentPath (v : View) : String := componentFolder v.isIsland ++ "/" ++ v.className ++ ".tsx"

/-- The properties through which content is projected: that of the unnamed slot first. -/
def slotProps (t : Transformed) : List String :=
  (if t.hasDefaultSlot then ["children"] else []) ++ t.slots

/-- The line that imports names, if there are any. -/
def importSome (names : List String) (module : String) : List String :=
  if names.isEmpty then [] else [importNames names module]

/-- The runtime functions that an island uses. -/
def islandImports (c : ClassModel) (signals : List Input) (refs : List String) : List String :=
  let state :=
    (if c.state.isEmpty && signals.isEmpty then [] else ["useSignal"]) ++
      (if c.getters.isEmpty then [] else ["computed"])
  let hooks :=
    (if c.methods.any (·.isLifecycle) then ["useEffect"] else []) ++
      (if refs.isEmpty then [] else ["useRef"])
  importSome state "@preact/signals" ++ importSome hooks "preact/hooks"

/-- The function that gives a service. -/
def serviceGetter (type : String) : String := "get" ++ type

/-- The import lines of a component. -/
def componentImports (v : View) (t : Transformed) (signals : List Input) (aliasName : String)
    (stylePath helpersImport : Option String) : List String :=
  let c := v.model
  (if t.hasSlots then ["import type \x7b ComponentChildren \x7d from \"preact\";"] else []) ++
    (if v.isIsland then islandImports c signals t.refs else []) ++
    importSome (c.dependencies.map fun d => serviceGetter d.type)
      (aliasName ++ "/services/container.ts") ++
    ((stylePath.filter (!·.isEmpty)).map fun p => "import \"" ++ p ++ "\";").toList ++
    t.importLines (some (helpersModule helpersImport aliasName))

/-- The field of a class as a local. -/
def stateConstant (p : Property) : String := constant p.name (p.initial.getD "undefined")

/-- The lines of a server component's function that come from its class. -/
def serverBody (c : ClassModel) (inputs : List Input) : List String :=
  let (getters, methods) := serverMembers (serverRenaming inputs c.dependencies) c
  c.state.map stateConstant ++ getters ++ methods

/-- The lines of a component's function before its template. -/
def componentBody (v : View) (t : Transformed) (signals : List Input) : List String :=
  let c := v.model
  let services := c.dependencies.map fun d =>
    constant (Naming.serviceVariable d.type) (serviceGetter d.type ++ "()")
  let plainInputs := v.inputs.filter (!signals.contains ·)
  let props := if plainInputs.isEmpty then [] else [unpackProps plainInputs "props"]
  let slots := (slotProps t).map fun slot => constant ("\x7b " ++ slot ++ " \x7d") "props"
  let refs :=
    if v.isIsland then t.refs.map fun ref => constant ref "useRef<HTMLElement | null>(null)" else []
  let members :=
    if v.isIsland then islandBody (islandRenaming c v.inputs signals t.refs) c signals
    else serverBody c v.inputs
  services ++ props ++ slots ++ refs ++ members

/-- The names that a template reads through signals. -/
def signalNames (c : ClassModel) (signals : List Input) : List String :=
  c.state.map (·.name) ++ c.getters.map (·.name) ++ signals.map (·.property)

/-- The module of a component, whose template calls its services by their local names. -/
def componentModule (env : Environment) (v : View) (template : String)
    (stylePath helpersImport : Option String) : Logged File := do
  let c := v.model
  let t ← transform env false template
  let signals := if v.isIsland then assignedInputs c v.inputs else []
  let jsx := if v.isIsland then signalReferences t.jsx (signalNames c signals) else t.jsx
  let imports := componentImports v t signals env.aliasName stylePath helpersImport
  let hasProps := !v.inputs.isEmpty || t.hasSlots
  let interface :=
    if hasProps then
      propsInterface v.className v.inputs
        ((slotProps t).map fun slot => "  " ++ slot ++ "?: ComponentChildren;") ++ "\n\n"
    else ""
  let params := if hasProps then "(props: " ++ v.className ++ "Props)" else "()"
  let function := functionText ("export default function " ++ v.className ++ params)
    (componentBody v t signals) (returnExpression jsx)
  let header := if imports.isEmpty then "" else lines imports ++ "\n\n"
  Logged.tell .debug "generators.components"
    ("Component " ++ v.className ++ " -> " ++ componentPath v)
  pure ⟨componentPath v, header ++ interface ++ function ++ "\n", t.warnings⟩

/-- The module of a component. It fails if the name of a service is no replacement text. -/
def component (env : Environment) (v : View) (stylePath helpersImport : Option String := none) :
    Logged (Except ReplacementError File) :=
  match serviceReferences v.template v.model.dependencies with
  | .ok template => do pure (.ok (← componentModule env v template stylePath helpersImport))
  | .error e => pure (.error e)

end Trellis.Output
