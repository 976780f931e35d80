import Trellis.Jsx.Transform
import Trellis.Output.Members
import Trellis.Output.PagePath

/-!
# Pages and their frame

A page is rendered on the server from its data, so its template must not react to the user; the
frame is what stands around every page.

* `page` fails exactly on an interactive template.
-/

namespace Trellis.Output

open Trellis.Project
open Trellis.Jsx

/-- A page whose template reacts to the user. -/
structure InteractivePage where
  relativePath : String
  deriving DecidableEq, Repr

/-- The error in words. -/
def InteractivePage.message (e : InteractivePage) : String :=
  "Route \"" ++ e.relativePath ++
    "\" has interactive bindings (events or two-way) but routes are server components.\n" ++
    "Move interactive logic to an island component (island: true)."

/-- The import lines of a page or a frame. -/
def pageImports (t : Transformed) (aliasName : String) (helpersImport : Option String) :
    List String :=
  importNames ["define"] (aliasName ++ "/utils.ts") ::
    t.importLines (some (helpersModule helpersImport aliasName))

/-- The function of a page: it takes its inputs from the data and returns the template. -/
def pageFunction (v : View) (returned : String) : String :=
  let c := v.model
  let (getters, methods) := serverMembers (serverRenaming v.inputs c.dependencies) c
  let params := if v.inputs.isEmpty then "()" else "(\x7b data \x7d)"
  functionText ("function " ++ v.className ++ params)
    (unpackData v.inputs ++ getters ++ methods) returned

/-- The module of a page. -/
def page (env : Environment) (v : View) (helpersImport : Option String := none) :
    Logged (Except InteractivePage File) :=
  if v.isInteractive then pure (.error ⟨v.relativePath⟩)
  else do
    let t ← transform env false v.template
    let path := pagePath v.relativePath v.filename v.explicitPath
    Logged.tell .debug "generators.routes" ("Route " ++ v.relativePath ++ " -> " ++ path)
    pure (.ok ⟨path, lines (pageImports t env.aliasName helpersImport) ++
      "\n\nexport default define.page(" ++ pageFunction v (returnExpression t.jsx) ++ ");\n",
      t.warnings⟩)

/-- Where the frame goes. -/
def framePath : String := "routes/_layout.tsx"

/-- The module of the frame, whose outlet shows the page. -/
def frame (env : Environment) (template name : String) (helpersImport : Option String := none) :
    Logged File := do
  let t ← transform env true template
  pure ⟨framePath, lines (pageImports t env.aliasName helpersImport) ++
    "\n\nexport default define.layout(function " ++ name ++ "(\x7b Component \x7d) \x7b\n" ++
    "  return (\n    " ++ returnExpression t.jsx ++ "\n  );\n\x7d);\n", t.warnings⟩

end Trellis.Output
