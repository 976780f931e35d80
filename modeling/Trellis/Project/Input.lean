import Trellis.Naming
import Trellis.Text.Letter
import Trellis.TypeScript.ClassModel

/-!
# Inputs of components

The fields with `@Input`: what a component is given from outside, and the code that declares and
unpacks it.
-/

namespace Trellis.Project

open Trellis.Text
open Trellis.TypeScript

/-- An input: the name it is given by, the field that holds it, its type and default value as
written, and whether it has to be given. -/
structure Input where
  name : OptionText
  property : String
  type : Option String := none
  default : Option String := none
  required : Bool := true
  deriving DecidableEq, Repr

/-- The variable that holds the input in generated code. -/
def Input.variableName (i : Input) : String := Naming.safeVariable i.property

/-- After a bar and white space, `undefined` or `null` as a whole word. -/
def startsNullable (cs : List Char) : Bool :=
  match cs with
  | '|' :: rest =>
    let rest := rest.dropWhile isBlank
    ["undefined", "null"].any fun w =>
      w.toList.isPrefixOf rest && !((rest.drop w.toList.length).head?.map isWordChar).getD false
  | _ => false

/-- The type is a union with `undefined` or `null`. -/
def isNullable : List Char → Bool
  | [] => false
  | c :: cs => startsNullable (c :: cs) || isNullable cs

/-- The input that a field is, if it has the decorator. -/
def inputOf? (p : Property) : Option Input := do
  let decorator ← findDecorator "Input" p.decorators
  let written := p.type.getD ""
  let marked := hasEnd written "?"
  let type := if marked then some (strip (dropLast 1 written)) else p.type
  let isOptional := p.isOptional || marked || isNullable (type.getD "").toList
  let required := (decorator.options.bool? "required").getD
    (p.isDefinite || (p.initial.isNone && !isOptional))
  let given := (decorator.options.string? ["alias"]).getD ⟨p.name, false⟩
  pure ⟨given, p.name, type, p.initial, required⟩

/-- The inputs of a class, in declaration order. -/
def inputsOf (c : Option ClassModel) : List Input :=
  (c.map fun c => c.properties.filterMap inputOf?).getD []

/-- The interface of a component's properties: its inputs, then further lines. -/
def propsInterface (component : String) (inputs : List Input) (extra : List String) : String :=
  let lines := inputs.map fun i =>
    let type := (i.type.filter (!·.isEmpty)).getD "unknown"
    "  " ++ i.name.text ++ (if i.required then "" else "?") ++ ": " ++ type ++ ";"
  "\n".intercalate
    (("interface " ++ component ++ "Props \x7b") :: lines ++ extra ++ ["\x7d"])

/-- The line that unpacks an input, with its default value if it has one. -/
def unpackLine (source : String) (i : Input) (default : Option String) : String :=
  let value := source ++ "." ++ i.name.text
  match default.filter (!·.isEmpty) with
  | some d => "  const " ++ i.variableName ++ " = " ++ value ++ " ?? " ++ d ++ ";"
  | none => "  const " ++ i.variableName ++ " = " ++ value ++ ";"

/-- A default value that is an arrow function, in parentheses. -/
def guardArrow (default : String) : String :=
  if hasStart default "(" && occurs "=>" default then "(" ++ default ++ ")" else default

/-- The lines that unpack a component's inputs from its properties. -/
def unpackProps (inputs : List Input) (source : String) : String :=
  "\n".intercalate (inputs.map fun i => unpackLine source i (i.default.map guardArrow))

/-- The lines that unpack a page's inputs from its data. -/
def unpackData (inputs : List Input) : List String :=
  inputs.map fun i => unpackLine "data" i i.default

end Trellis.Project
