import Trellis.Build.Compile
import Trellis.Style.Compile

/-!
# Building a site

The functions of a build with a compiler of style sheets put in. This one reads a part of the
language only: flat and nested rules, variables, mixins and imports, in both spellings. No other
module depends on it.
-/

namespace Trellis

open Trellis.Text
open Trellis.Output
open Trellis.Project

/-- The compiler of style sheets. -/
def Style.sheets : SheetCompiler := ⟨Style.compile?⟩

/-- The compiled style sheet of a component whose source is at `path`. -/
def Output.styleFile : FileTree → Path → Option String → Bool → String → Logged (Option File) :=
  sheetFile Style.sheets

namespace Build

/-- Discovers and compiles the project of a configuration. -/
def compileSources : Config → FileTree → Logged (Except Failure Result) :=
  compileProject Style.sheets

/-- Discovers and compiles the project of a configuration, and writes the files. -/
def build : Config → FileTree → Logged Outcome := buildProject Style.sheets

end Build

end Trellis
