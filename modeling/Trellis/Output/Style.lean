import Trellis.FileTree
import Trellis.Jsx.Tag
import Trellis.Output.File
import Trellis.Project.View

/-!
# Style sheets of components

A component's style sheet is compiled next to its module and imported by it. A sheet that cannot be
read or compiled is left out with a warning.

* `SheetCompiler` is the compiler, which a build is given: nothing here depends on what it does.
-/

namespace Trellis.Output

open Trellis.Text
open Trellis.Project

/-- A warning about a style sheet. -/
def complainStyle (message : String) : Logged Unit :=
  Logged.tell .warning "generators.styles" message

/-- A compiler of style sheets. `compile?` gives the compressed text for the text of a sheet, or
nothing if it refuses the sheet. Imports of the sheet are looked up in its folder, and an indented
sheet has no braces. -/
structure SheetCompiler where
  compile? (tree : FileTree) (folder : Path) (indented : Bool) (text : String) : Option String

/-- The file extensions of sheets that have to be compiled. -/
def compiledExtensions : List String := [".scss", ".sass"]

/-- The text of a style sheet; one of another kind than those to compile is taken as it is. -/
def styleText (sheets : SheetCompiler) (tree : FileTree) (path : Path) :
    Logged (Option String) := do
  match tree.readText path with
  | .error _ =>
    complainStyle ("Could not read styling at " ++ path.toString)
    pure none
  | .ok text =>
    let extension := lower path.extension
    if !compiledExtensions.contains extension then pure (some text)
    else
      match sheets.compile? tree path.parent (extension == ".sass") text with
      | some css => pure (some css)
      | none =>
        complainStyle ("SCSS compilation failed for " ++ path.toString)
        pure none

/-- Where the style sheet of a component goes. -/
def stylePath (isIsland : Bool) (className : String) : String :=
  "static/css/" ++ Jsx.componentFolder isIsland ++ "/" ++ className ++ ".css"

/-- The compiled style sheet of a component whose source is at `path`. -/
def sheetFile (sheets : SheetCompiler) (tree : FileTree) (path : Path) (styles : Option String)
    (isIsland : Bool) (className : String) : Logged (Option File) := do
  match styles.filter (!·.isEmpty) with
  | none => pure none
  | some styles =>
    let css ← styleText sheets tree (path.parent.child styles)
    pure (css.map fun css => ⟨stylePath isIsland className, css, []⟩)

/-- How a module imports a compiled style sheet. -/
def styleImport (f : File) : String := "/" ++ f.path

end Trellis.Output
