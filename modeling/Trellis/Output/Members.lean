import Trellis.Jsx.Attribute
import Trellis.Output.File
import Trellis.Project.Input
import Trellis.Text.Lines

/-!
# Members as locals

A generated function has no `this`: the members of the class become local names, and every body is
written with its members renamed.

* `Renaming` says what a member of `this` is called in the generated code.
* `plainGetter` and `plainMethod` write members that are computed once, where the function runs.
-/

namespace Trellis.Output

open Trellis.Text
open Trellis.TypeScript
open Trellis.Project

/-- The generated names of members. -/
abbrev Renaming := Table String

/-- The generated name of a member; a member without one keeps its own. -/
def Renaming.apply (r : Renaming) (member : String) : String := (r.get? member).getD member

/-- The local that holds a service. -/
def serviceRow (d : Dependency) : String × String := (d.name, Naming.serviceVariable d.type)

/-- The names of a view that runs on the server: inputs and services are plain locals. -/
def serverRenaming (inputs : List Input) (dependencies : List Dependency) : Renaming :=
  Table.ofList (inputs.map (fun i => (i.property, i.variableName)) ++ dependencies.map serviceRow)

/-- What an arrow function returns; an object is put in parentheses. -/
def arrowExpression (expression : String) : String :=
  if hasStart expression "\x7b" then "(" ++ expression ++ ")" else expression

/-- The text of a body with its members renamed. -/
def bodyText (r : Renaming) (b : FunctionBody) : String := Jsx.stripBindThis (b.text (some r.apply))

/-- What a body of a single `return` returns, with its members renamed. -/
def bodyExpression? (r : Renaming) (b : FunctionBody) : Option String :=
  (b.expression? (some r.apply)).map Jsx.stripBindThis

/-- A body between braces, as a function inside a function has it. -/
def block (body : String) : String := "\x7b\n" ++ indent body "    " ++ "\n  \x7d"

/-- The definition of a local. -/
def constant (name value : String) : String := "  const " ++ name ++ " = " ++ value ++ ";"

/-- A getter as a local: its value, or a function that is run at once. -/
def plainGetter (r : Renaming) (g : Getter) : String :=
  match bodyExpression? r g.body with
  | some e => constant g.name e
  | none => constant g.name ("(() => " ++ block (bodyText r g.body) ++ ")()")

/-- What stands before the arrow of a method. -/
def methodHead (m : Method) : String :=
  (if m.isAsync then "async " else "") ++ "(" ++ ", ".intercalate m.params ++ ") => "

/-- A method as a local function. -/
def plainMethod (r : Renaming) (m : Method) : String :=
  let whole :=
    if m.body.isEmpty then methodHead m ++ "\x7b\x7d"
    else methodHead m ++ block (bodyText r m.body)
  match m.isAsync, bodyExpression? r m.body with
  | false, some e => constant m.name (methodHead m ++ arrowExpression e)
  | _, _ => constant m.name whole

/-- The getters and methods of a view that runs on the server; what runs when it comes and goes is
left out. -/
def serverMembers (r : Renaming) (c : ClassModel) : List String × List String :=
  (c.getters.map (plainGetter r),
    (c.methods.filter (!·.isLifecycle)).map (plainMethod r))

/-- The text of a function: its head, the lines of its body, and what it returns. -/
def functionText (head : String) (body : List String) (returned : String) : String :=
  let setup := if body.isEmpty then "" else lines body ++ "\n\n"
  head ++ " \x7b\n" ++ setup ++ "  return " ++ returned ++ ";\n\x7d"

end Trellis.Output
