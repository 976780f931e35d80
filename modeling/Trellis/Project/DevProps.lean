import Trellis.Diagnostic
import Trellis.FileTree
import Trellis.Json.Parse
import Trellis.Project.Input
import Trellis.Text.Case

/-!
# Sample properties

The values that a component's inputs have in a preview: from the file beside the component, else
from the default in its class, else a sample that suits the type.

* `DevProps.merge` puts the values of the file over those derived from the inputs.
-/

namespace Trellis.Project

open Trellis.Text
open Trellis.Json
open Trellis.Number

/-- The file beside a component that holds sample values. -/
def devPropsFile : String := "mod.json"

/-- Sample values, and further sets of them by name. -/
structure DevProps where
  props : List (String × Value) := []
  scenarios : Option (List (String × Value)) := none

/-! ## Values written in code -/

/-- The characters after a minus sign, if there is one. -/
def spanMinus : List Char → Bool × List Char
  | '-' :: cs => (true, cs)
  | cs => (false, cs)

/-- The number that decimal digits of any script denote. -/
def decimalDigits? (cs : List Char) : Option Nat :=
  if cs.isEmpty then none
  else (cs.mapM decimalValue?).map fun ds => ds.foldl (fun n d => 10 * n + d) 0

/-- A whole number. -/
def integer? (cs : List Char) : Except TooManyDigits (Option Value) := do
  let (negative, digits) := spanMinus cs
  match decimalDigits? digits with
  | none => pure none
  | some n =>
    checkDigits digits.length
    pure (some (.int (if negative then -(n : Int) else (n : Int))))

/-- A number with digits on both sides of a point. -/
def fraction? (cs : List Char) : Option Value := do
  let (negative, digits) := spanMinus cs
  let (whole, places) ← breakAt? ['.'] digits
  let _ ← decimalDigits? whole
  let _ ← decimalDigits? places
  let n ← decimalDigits? (whole ++ places)
  pure (.real (Binary.ofDecimal negative ⟨n, -(places.length : Int)⟩))

/-- The inside of a text between two equal quotes. -/
def quoted? (text : String) : Option Value :=
  match text.toList with
  | q :: c :: cs =>
    if (q == '"' || q == '\x27' || q == '\x60') && (c :: cs).getLast? == some q then
      some (.text (inner text))
    else none
  | _ => none

/-- A list or an object, if the text is one in JSON. -/
def structured? (text : String) : Except TooManyDigits (Option Value) :=
  if hasStart text "[" || hasStart text "\x7b" then
    match parse text with
    | .ok value => .ok (some value)
    | .error .malformed => .ok none
    | .error (.tooManyDigits fault) => .error fault
  else
    .ok none

/-- The value of a default as written in code; what is no plain value is its own text. -/
def defaultValue (raw : String) : Except TooManyDigits Value := do
  let text := strip raw
  let cs := text.toList
  match [("true", Value.bool true), ("false", .bool false), ("null", .null)].lookup text with
  | some v => pure v
  | none =>
    match ← integer? cs with
    | some v => pure v
    | none =>
      match (fraction? cs).orElse fun _ => quoted? text with
      | some v => pure v
      | none => pure ((← structured? text).getD (.text text))

/-! ## Values for inputs -/

/-- A sample that suits the type of an input. -/
def Input.sample (i : Input) : Value :=
  match lower (strip (i.type.getD "")) with
  | "string" => .text ("Sample " ++ i.name.text)
  | "number" => .int 42
  | "boolean" => .bool true
  | "string[]" => .list [.text "Item 1", .text "Item 2", .text "Item 3"]
  | "number[]" => .list [.int 1, .int 2, .int 3]
  | _ => .text ("[" ++ i.name.text ++ "]")

/-- The value of an input: its default, or a sample. -/
def Input.previewValue (i : Input) : Except TooManyDigits Value :=
  match i.default with
  | some raw => defaultValue raw
  | none => .ok i.sample

/-- The values of all inputs; of inputs with one name the last counts. -/
def previewValues (inputs : List Input) : Except TooManyDigits (List (String × Value)) := do
  let rows ← inputs.mapM fun i => do pure (i.name.text, ← i.previewValue)
  pure (Table.ofList rows).rows

namespace DevProps

/-- The values of inputs, with those of a file put over them. -/
def merge (inputs : List Input) (supplied : Option DevProps) : Except TooManyDigits DevProps := do
  let own ← previewValues inputs
  match supplied with
  | none => pure ⟨own, none⟩
  | some s => pure ⟨(Table.merge ⟨own⟩ ⟨s.props⟩).rows, s.scenarios⟩

/-- A warning about sample values. -/
def complain (message : String) : Logged Unit := Logged.tell .warning "dev_props" message

/-- The sample values in a JSON value that was read from `origin`. -/
def ofValue (data : Value) (origin : String) : Logged (Option DevProps) := do
  match data.rows? with
  | none =>
    complain ("Dev props in " ++ origin ++ " must be a JSON object")
    pure none
  | some rows =>
    let scenarios := field rows "scenarios"
    if !scenarios.isNull && scenarios.rows?.isNone then
      complain ("Ignoring non-object 'scenarios' in " ++ origin)
    let props := (field rows "props").rows?
    if props.isNone then
      complain ("Missing or invalid 'props' in " ++ origin ++ "; using an empty object")
    pure (some ⟨props.getD [], scenarios.rows?⟩)

/-- The sample values in a file, if the file is there. -/
def read (tree : FileTree) (path : Path) : Except TooManyDigits (Logged (Option DevProps)) :=
  let unreadable : Logged (Option DevProps) := do
    complain ("Could not parse dev props file " ++ path.toString)
    pure none
  if !tree.contains path then .ok (pure none)
  else
    match tree.readText path with
    | .error _ => .ok unreadable
    | .ok text =>
      match parse text with
      | .ok data => .ok (ofValue data path.toString)
      | .error .malformed => .ok unreadable
      | .error (.tooManyDigits fault) => .error fault

/-- The sample values of a component in a folder. -/
def resolve (inputs : List Input) (tree : FileTree) (folder : Path) :
    Except TooManyDigits (Logged DevProps) := do
  let supplied ← read tree (folder.child devPropsFile)
  let merged ← merge inputs supplied.value
  pure ⟨merged, supplied.log⟩

end DevProps

end Trellis.Project
