import Trellis.FileTree
import Trellis.Json.Parse
import Trellis.Text.Blank

/-!
# Configuration

The settings of a run, from the file `sprig.json`. A setting that is absent, null or blank keeps its
default.

* `Config.load` reports the first setting that is of the wrong kind.
-/

namespace Trellis.Project

open Trellis.Text
open Trellis.Json
open Trellis.Number (TooManyDigits)

/-- The settings of a run. -/
structure Config where
  root : Path
  sourceDir : Path
  outputDir : Path
  aliasName : String := "@"
  directivesDir : String := "directives"
  pipesDir : String := "pipes"
  strict : Bool := false
  verbose : Bool := false
  deriving DecidableEq, Repr

/-- Why a configuration cannot be used. -/
inductive ConfigError where
  | folder
  | notText
  | malformed (file : String)
  | tooManyDigits (fault : TooManyDigits)
  | notAnObject (file : String)
  | notAString (key : String)
  | notABool (key : String)
  deriving DecidableEq, Repr

/-- The error in words; a file that is no text has none. -/
def ConfigError.message : ConfigError → String
  | .folder | .notText => ""
  | .malformed file => "Failed to parse " ++ file
  | .tooManyDigits fault => fault.message
  | .notAnObject file => file ++ " must contain an object at the root"
  | .notAString key => "'" ++ key ++ "' must be a string"
  | .notABool key => "'" ++ key ++ "' must be true or false"

namespace Config

/-- The settings of a project without a configuration file. -/
def default (root : Path) : Config :=
  { root, sourceDir := root.child "src", outputDir := root.child "dist" }

/-- The module specifier of a path below the output folder. -/
def aliasPath (c : Config) (parts : List String) : String := "/".intercalate (c.aliasName :: parts)

/-- A setting that is a text and not blank. -/
def stringSetting (rows : List (String × Value)) (key : String) :
    Except ConfigError (Option String) :=
  match field rows key with
  | .null => .ok none
  | .text s => .ok (if isBlankText s then none else some (strip s))
  | _ => .error (.notAString key)

/-- A setting that is true or false. -/
def boolSetting (rows : List (String × Value)) (key : String) :
    Except ConfigError (Option Bool) :=
  match field rows key with
  | .null => .ok none
  | .bool b => .ok (some b)
  | _ => .error (.notABool key)

/-- The settings in the rows of a configuration file. -/
def ofRows (root : Path) (rows : List (String × Value)) : Except ConfigError Config := do
  let base := default root
  let sourceDir ← stringSetting rows "srcDir"
  let outputDir ← stringSetting rows "outDir"
  let aliasName ← stringSetting rows "importAlias"
  let directivesDir ← stringSetting rows "directivesDir"
  let pipesDir ← stringSetting rows "pipesDir"
  let strict ← boolSetting rows "strict"
  let verbose ← boolSetting rows "verbose"
  pure {
    root
    sourceDir := (sourceDir.map root.child).getD base.sourceDir
    outputDir := (outputDir.map root.child).getD base.outputDir
    aliasName := aliasName.getD base.aliasName
    directivesDir := directivesDir.getD base.directivesDir
    pipesDir := pipesDir.getD base.pipesDir
    strict := strict.getD base.strict
    verbose := verbose.getD base.verbose }

/-- The settings at a path, which is a configuration file or its folder. -/
def load (tree : FileTree) (path : Path) : Except ConfigError Config :=
  let file := if tree.isFolder path then path.child "sprig.json" else path
  let root := file.parent.resolve
  match tree.readText file with
  | .error .missing => .ok (default root)
  | .error .folder => .error .folder
  | .error .notText => .error .notText
  | .ok text =>
    match parse text with
    | .error .malformed => .error (.malformed file.name)
    | .error (.tooManyDigits fault) => .error (.tooManyDigits fault)
    | .ok value =>
      match value.rows? with
      | none => .error (.notAnObject file.name)
      | some rows => ofRows root rows

end Config

end Trellis.Project
