import Trellis.Text.Case
import Trellis.Text.Cut

/-!
# Names

How names change between markup, classes and generated code: `status-badge` is the component
`StatusBadge`, the style property `font-size` is `fontSize`, and an identifier that is a reserved
word gets a spelling that is none.
-/

namespace Trellis.Naming

open Trellis.Text

/-- `status-badge` becomes `StatusBadge`: each part between hyphens starts in upper case. -/
def pascalCase (name : String) : String := String.join ((splitOn '-' name).map upperFirst)

/-- A hyphen before a small ASCII letter goes, and the letter becomes a capital. -/
def camelRule : Rule
  | _, '-' :: c :: _ => if c.isLower then some (2, [c.toUpper]) else none
  | _, _ => none

/-- `font-size` becomes `fontSize`; a hyphen before anything but a small ASCII letter stays. -/
def camelCase (name : String) : String := substitute camelRule name

/-- Words that cannot name a local variable in generated code. -/
def reservedWords : List String :=
  ["break", "case", "catch", "class", "const", "continue", "debugger", "default", "delete", "do",
    "else", "enum", "export", "extends", "false", "finally", "for", "function", "if", "import",
    "in", "instanceof", "new", "null", "return", "super", "switch", "this", "throw", "true", "try",
    "typeof", "var", "void", "while", "with", "yield", "let", "static", "implements", "interface",
    "package", "private", "protected", "public", "await"]

/-- A name that can be given to a local variable. -/
def safeVariable (name : String) : String :=
  if name = "class" then "className"
  else if reservedWords.contains name then "_" ++ name
  else name

/-- The variable that holds an injected service of a given type. -/
def serviceVariable (type : String) : String := lowerFirst type

end Trellis.Naming
