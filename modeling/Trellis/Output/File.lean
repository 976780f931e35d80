import Trellis.Diagnostic
import Trellis.Text.Cut

/-!
# Output files

A generated module is a path below the output folder and its text. The functions here are shared by
all generators.
-/

namespace Trellis.Output

open Trellis.Text

/-- A generated file, its path taken from the output folder, and the findings about its template. -/
structure File where
  path : String
  content : String
  warnings : List Warning := []
  deriving DecidableEq, Repr

/-- Drops a slash that follows another one. -/
def slashRule : Rule := fun prev cs =>
  if prev == some '/' && cs.head? == some '/' then some (1, []) else none

/-- Runs of slashes as single slashes. -/
def collapseSlashes (path : String) : String := substitute slashRule path

/-- The module specifier of a source file. -/
def sourceImport (relativeSource : String) (aliasName : String := "@") : String :=
  replaceAll (aliasName ++ "/src/" ++ relativeSource) "\\" "/"

/-- An import of several names. -/
def importNames (names : List String) (module : String) : String :=
  "import \x7b " ++ ", ".intercalate names ++ " \x7d from \"" ++ module ++ "\";"

/-- The module of the runtime helpers of pipes, unless another one is given. -/
def helpersModule (given : Option String) (aliasName : String) : String :=
  (given.filter (!·.isEmpty)).getD (aliasName ++ "/pipes/helpers.ts")

/-- The lines of a text. -/
def lines (ls : List String) : String := "\n".intercalate ls

end Trellis.Output
