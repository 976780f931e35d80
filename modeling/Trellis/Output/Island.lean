import Trellis.Output.Members

/-!
# Islands

The state of a component that runs in the browser is kept in signals: a signal is read and written
through its `value`.

* `islandRenaming` makes the bodies of the class read and write signals.
* `islandBody` writes the signals, the effect that runs when the component comes and goes, and the
  methods.
-/

namespace Trellis.Output

open Trellis.Text
open Trellis.TypeScript
open Trellis.Project

/-! ## State -/

/-- The inputs that a method or a getter writes; they become signals. -/
def assignedInputs (c : ClassModel) (inputs : List Input) : List Input :=
  let assigned := c.methods.flatMap (·.body.assignedMembers) ++
    c.getters.flatMap (·.body.assignedMembers)
  inputs.filter fun i => assigned.contains i.property

/-- The name of a signal where its value is meant. -/
def valueOf (name : String) : String := name ++ ".value"

/-- The names of an island: signals stand for their values and references for their elements. Later
rows win. -/
def islandRenaming (c : ClassModel) (inputs signals : List Input) (refs : List String) : Renaming :=
  let ofInput (i : Input) : String × String :=
    (i.property, if signals.any (·.property == i.property) then valueOf i.variableName
      else i.variableName)
  Table.ofList (inputs.map ofInput ++ refs.map (fun r => (r, r ++ ".current")) ++
    c.state.map (fun p => (p.name, valueOf p.name)) ++
    c.getters.map (fun g => (g.name, valueOf g.name)) ++
    c.methods.map (fun m => (m.name, m.name)) ++ c.dependencies.map serviceRow)

/-- The type argument of a signal. -/
def typeArgument (type : Option String) : String :=
  match type.filter (!·.isEmpty) with
  | some t => "<" ++ t ++ ">"
  | none => ""

/-- The signal of a field. -/
def stateSignal (p : Property) : String :=
  constant p.name
    ("useSignal" ++ typeArgument p.type ++ "(" ++ p.initial.getD "undefined" ++ ")")

/-- The signal of an input, which starts with what was given, else with its default. -/
def inputSignal (i : Input) : String :=
  let fallback := if (i.type.map (occurs "[]")).getD false then "[]" else "undefined"
  let default := (i.default.filter (!·.isEmpty)).getD fallback
  constant i.variableName
    ("useSignal" ++ typeArgument i.type ++ "(props." ++ i.name.text ++ " ?? " ++ default ++ ")")

/-- The computed signal of a getter. -/
def getterSignal (r : Renaming) (g : Getter) : String :=
  let result :=
    match bodyExpression? r g.body with
    | some e => arrowExpression e
    | none => block (bodyText r g.body)
  constant g.name ("computed" ++ typeArgument g.returnType ++ "(() => " ++ result ++ ")")

/-! ## Behaviour -/

/-- The text of the last method with one of the given names; empty if there is none. -/
def lastBody (r : Renaming) (names : List String) (c : ClassModel) : String :=
  (((c.methods.filter fun m => names.contains m.name).getLast?).map (bodyText r ·.body)).getD ""

/-- The effect that runs when the component comes and goes, if there is anything to run. -/
def effectLines (init destroy : String) : List String :=
  if init.isEmpty && destroy.isEmpty then []
  else
    let coming := if init.isEmpty then [] else [indent init "    "]
    let going :=
      if destroy.isEmpty then []
      else ["    return () => \x7b\n" ++ indent destroy "      " ++ "\n    \x7d;"]
    "  useEffect(() => \x7b" :: coming ++ going ++ ["  \x7d, []);"]

/-- A method of an island. -/
def islandMethod (r : Renaming) (m : Method) : String :=
  constant m.name (methodHead m ++ block (bodyText r m.body))

/-- The lines of an island's function that come from its class. -/
def islandBody (r : Renaming) (c : ClassModel) (signals : List Input) : List String :=
  c.state.map stateSignal ++ signals.map inputSignal ++ c.getters.map (getterSignal r) ++
    effectLines (lastBody r initMethods c) (lastBody r destroyMethods c) ++
    (c.methods.filter (!·.isLifecycle)).map (islandMethod r)

end Trellis.Output
