import Trellis.Text.Lines
import Trellis.TypeScript.Decorator

/-!
# Class models

What the compiler knows of a component's class: its fields, methods, getters and the services its
constructor asks for.

* `FunctionBody` answers questions about the top-level statements of a method, and gives its text
  with the members of `this` resolved.
* `Source.classModel` reads the class with a given decorator, else the exported class, else the
  first one.
-/

namespace Trellis.TypeScript

open Trellis.Text

/-- The methods that run when a component comes and goes. -/
def initMethods : List String := ["ngOnInit", "onInit", "onMount"]

/-- The methods that run when a component goes. -/
def destroyMethods : List String := ["ngOnDestroy", "onDestroy"]

/-- A method that runs when a component comes or goes. -/
def isLifecycle (name : String) : Bool := initMethods.contains name || destroyMethods.contains name

/-! ## Bodies -/

/-- The body of a method, with the source it stands in. -/
structure FunctionBody where
  source : Source
  block : Option Tree

namespace FunctionBody

/-- The top-level statements. -/
def statements (b : FunctionBody) : List Tree := (b.block.map Tree.content).getD []

/-- There is no statement. -/
def isEmpty (b : FunctionBody) : Bool := b.statements.isEmpty

/-- The number of top-level returns. -/
def returnCount (b : FunctionBody) : Nat :=
  (b.statements.filter (·.kind == .returnStatement)).length

/-- A variable is declared at the top level. -/
def hasDeclarations (b : FunctionBody) : Bool := b.statements.any (·.kind == .variableDeclaration)

/-- A condition, a loop, a switch or a try stands at the top level. -/
def hasControlFlow (b : FunctionBody) : Bool := b.statements.any (·.kind == .controlFlow)

/-- What the body returns, if it is a single `return` of an expression. -/
def returned? (b : FunctionBody) : Option Tree :=
  match b.statements with
  | [statement] =>
    if statement.kind == .returnStatement then statement.content.head? else none
  | _ => none

/-- The body is a single `return` of an expression. -/
def isSingleExpression (b : FunctionBody) : Bool := b.returned?.isSome

/-- The expression that a body of a single `return` returns. -/
def expression? (b : FunctionBody) (resolve : Option (String → String)) : Option String :=
  b.returned?.map (b.source.render resolve)

/-- The inside of the body, without its margin. -/
def text (b : FunctionBody) (resolve : Option (String → String)) : String :=
  match b.block with
  | none => ""
  | some t => dedentBlock (b.source.render resolve t)

/-- The members of `this` that the body uses. -/
def thisMembers (b : FunctionBody) : List String :=
  ((b.block.map Tree.thisNames).getD []).map b.source.textOf

/-- The members of `this` that the body assigns to. -/
def assignedMembers (b : FunctionBody) : List String :=
  ((b.block.map Tree.assignedNames).getD []).map b.source.textOf

end FunctionBody

/-! ## Members -/

/-- A field of a class. -/
structure Property where
  name : String
  type : Option String
  initial : Option String
  isOptional : Bool
  isDefinite : Bool
  decorators : List Decorator

/-- A method of a class. -/
structure Method where
  name : String
  params : List String
  body : FunctionBody
  isAsync : Bool
  decorators : List Decorator

/-- The method runs when a component comes or goes. -/
def Method.isLifecycle (m : Method) : Bool := Trellis.TypeScript.isLifecycle m.name

/-- A getter of a class. -/
structure Getter where
  name : String
  body : FunctionBody
  returnType : Option String

/-- A service that a constructor asks for. -/
structure Dependency where
  visibility : String
  name : String
  type : String
  deriving DecidableEq, Repr

/-- A class as the compiler sees it. -/
structure ClassModel where
  name : Option String
  properties : List Property := []
  methods : List Method := []
  getters : List Getter := []
  dependencies : List Dependency := []
  constructorMethod : Option Method := none

/-- The fields without decorators: the state of a component. -/
def ClassModel.state (c : ClassModel) : List Property := c.properties.filter (·.decorators.isEmpty)

/-! ## Reading members -/

/-- The type in a type clause, without the colon. -/
def Source.typeIn (s : Source) (clause : Option Tree) : Option String :=
  clause.bind fun t =>
    let text := strip (s.textOf t)
    let text := if hasStart text ":" then strip (dropFirst 1 text) else text
    if text.isEmpty then none else some text

/-- The name of a member. -/
def Source.memberName (s : Source) (t : Tree) : String := ((t.child? .name).map s.textOf).getD ""

/-- Reads a field. -/
def Source.propertyOf (s : Source) (t : Tree) (isOptional isDefinite : Bool) : Property :=
  { name := s.memberName t
    type := s.typeIn (t.child? .typeClause)
    initial := (t.child? .initial).map s.textOf
    isOptional
    isDefinite
    decorators := s.decoratorsOf t }

/-- What a parameter binds: the first child that is neither a decorator nor a modifier. -/
def bindingOf? (t : Tree) : Option Tree :=
  t.content.find? fun c => c.kind != .decorator && c.kind != .visibility && c.kind != .readonlyMark

/-- The service that a parameter asks for: one with a type, kept in a member by a modifier. -/
def Source.dependencyOf? (s : Source) (t : Tree) : Option Dependency := do
  if t.kind != .parameter then none
  let visibility ←
    match (t.childrenOf .visibility).getLast? with
    | some v => some (s.textOf v)
    | none => (t.child? .readonlyMark).map fun _ => "readonly"
  let type ← s.typeIn (t.child? .typeClause)
  let name ← bindingOf? t
  pure ⟨visibility, s.textOf name, type⟩

/-- The parameters of a method. -/
def Source.paramsOf (s : Source) (t : Tree) : List String :=
  ((t.child? .parameters).map fun p => p.content.map s.textOf).getD []

/-- The class with a member added. -/
def Source.addMember (s : Source) (c : ClassModel) (t : Tree) : ClassModel :=
  match t.kind with
  | .field isOptional isDefinite =>
    { c with properties := c.properties ++ [s.propertyOf t isOptional isDefinite] }
  | .method .getter _ =>
    { c with getters := c.getters ++
        [⟨s.memberName t, ⟨s, t.child? .block⟩, s.typeIn (t.child? .typeClause)⟩] }
  | .method .plain isAsync =>
    let method : Method :=
      ⟨s.memberName t, s.paramsOf t, ⟨s, t.child? .block⟩, isAsync, s.decoratorsOf t⟩
    if method.name == "constructor" then
      let params := ((t.child? .parameters).map Tree.children).getD []
      { c with
        constructorMethod := some method
        dependencies := c.dependencies ++ params.filterMap s.dependencyOf? }
    else
      { c with methods := c.methods ++ [method] }
  | _ => c

/-- The model of a declared class. -/
def Source.modelOf (s : Source) (d : ClassDeclaration) : ClassModel :=
  let members := ((d.tree.child? .classBody).map Tree.children).getD []
  members.foldl s.addMember { name := d.name }

/-- The class with a given decorator, else the first exported class, else the first class. -/
def Source.mainClass (s : Source) (decorator : Option String) : Option ClassDeclaration :=
  let wanted := (decorator.filter (!·.isEmpty)).bind s.findClass
  wanted.orElse fun _ => (s.classes.find? (·.exported)).orElse fun _ => s.classes.head?

/-- The model of a module's main class. -/
def Source.classModel (s : Source) (decorator : Option String) : Option ClassModel :=
  (s.mainClass decorator).map s.modelOf

end Trellis.TypeScript
