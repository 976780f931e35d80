import Trellis.Jsx.Attribute
import Trellis.Jsx.Structural
import Trellis.Jsx.Tag
import Trellis.Template.Node

/-!
# Emitting JSX

A template tree becomes one JSX expression. Emission never fails: what cannot be used is left out
with a warning.

* `Scope` is what the emitter may look up, `Emission` what it has gathered so far.
* `Emit` threads the gathered state through the walk of the tree.
* `emitNode` writes a node, `emitDocument` a whole template.
-/

namespace Trellis.Jsx

open Trellis.Text
open Trellis.Template

/-- What templates are compiled against: the registries, and whether slots stand for the page. -/
structure Scope where
  directives : Option DirectiveRegistry := none
  pipes : Option PipeRegistry := none
  inLayout : Bool := false

/-- What has been gathered while emitting. Names are kept once, in first-use order. -/
structure Emission where
  warnings : List Warning := []
  usedPipes : List String := []
  usedDirectives : List String := []
  helpers : List String := []
  refs : List String := []
  slots : List String := []
  loops : Nat := 0
  hasOutlet : Bool := false
  hasDefaultSlot : Bool := false
  deriving DecidableEq, Repr

/-- An emitting computation. -/
abbrev Emit := StateM Emission

/-- Gathers a warning. -/
def warn (code : WarningCode) (message : String) : Emit Unit :=
  modify fun e => { e with warnings := e.warnings ++ [⟨code, message, .warning⟩] }

/-- Gathers warnings. -/
def warnAll (warnings : List Warning) : Emit Unit :=
  modify fun e => { e with warnings := e.warnings ++ warnings }

/-- Compiles a pipe chain and gathers what it uses. -/
def emitPipe (scope : Scope) (expression : String) : Emit String := do
  let o := Pipe.compile scope.pipes expression
  modify fun e => { e with
    warnings := e.warnings ++ o.warnings
    usedPipes := o.used.foldl Pipe.addOnce e.usedPipes
    helpers := o.helpers.foldl Pipe.addOnce e.helpers }
  pure o.text

/-! ## Text -/

/-- A character of text; those that JSX gives a meaning become strings in braces. -/
def textChar (c : Char) : String :=
  if c == '\x7b' || c == '\x7d' || c == '<' || c == '>' then
    braced ("\"" ++ String.singleton c ++ "\"")
  else
    String.singleton c

/-- Text in JSX. Blank text across lines vanishes; on one line it is a single space. -/
def textJsx (content : String) : String :=
  if isBlankText content then
    if content.isEmpty || content.toList.contains '\n' then "" else braced "\" \""
  else
    String.join (content.toList.map textChar)

/-! ## Attributes -/

/-- References to elements, `#name`. -/
def emitRefs (attributes : List Attribute) : Emit (List String) :=
  (plain attributes).filterMapM fun a => do
    if hasStart a.name "#" && 1 < a.name.length then
      let ref := dropFirst 1 a.name
      modify fun e => { e with refs := Pipe.addOnce e.refs ref }
      pure (some (assign "ref" (ref ++ " as any")))
    else
      pure none

/-- Registered directives, as spreads; unknown ones are left out. -/
def emitDirectives (scope : Scope) (attributes : List Attribute) : Emit (List String) :=
  (directives attributes).filterMapM fun a => do
    if a.isBuiltIn then pure none
    else
      match applyDirective scope.directives a.name a.value with
      | none =>
        warn .unknownDirective ("Unknown directive *" ++ a.name ++ " ignored")
        pure none
      | some spread =>
        modify fun e => { e with usedDirectives := Pipe.addOnce e.usedDirectives a.name }
        pure (some spread)

/-- The value of the last plain attribute of a given name. -/
def lastValue? (name : String) (attributes : List Attribute) : Option String :=
  ((plain attributes).filter (·.name == name)).getLast?.bind (·.value)

/-- The bindings of one form whose expressions are not blank; a blank one is left out. -/
def usableBindings (attributes : List Attribute) : Emit (List Attribute) :=
  (oneWays attributes).filterM fun a => do
    if (a.binding == .classToggle || a.binding == .style) && isBlankText a.expression then
      warn .emptyBinding (a.rawName ++ " binding has empty expression")
      pure false
    else
      pure true

/-- The binding `[class]`. -/
def isDynamicClass (a : Attribute) : Bool := a.binding == .property && a.name == "class"

/-- The merged class and style attributes. -/
def emitClassAndStyle (attributes : List Attribute) : Emit (List String) := do
  let bindings ← usableBindings attributes
  let dynamic := ((bindings.filter isDynamicClass).getLast?.map (·.expression)).map renameReserved
  let conditionals := (bindings.filter (·.binding == .classToggle)).map fun a =>
    (a.name, a.expression)
  let styles := (bindings.filter (·.binding == .style)).map fun a =>
    styleBinding a.name a.expression
  pure ((classAttribute (lastValue? "class" attributes) conditionals dynamic).toList ++
    (styleAttribute (lastValue? "style" attributes) styles).toList)

/-- Two-way bindings; a blank one is left out. -/
def emitTwoWays (tag : String) (attributes : List Attribute) : Emit (List String) := do
  let parts ← (twoWays attributes).mapM fun a => do
    if isBlankText a.expression then
      warn .malformedTwoWay (a.rawName ++ " two-way binding has empty expression")
      pure []
    else
      pure (twoWayBinding a.name (strip a.expression) tag)
  pure parts.flatten

/-- An event handler; a blank one is left out. -/
def emitEvent (a : Attribute) : Emit (Option String) := do
  if isBlankText a.expression then
    warn .emptyBinding (a.rawName ++ " event binding has empty handler")
    pure none
  else
    pure (some (eventHandler a.name a.expression))

/-- A property or attribute binding; a blank one is left out. -/
def emitBinding (scope : Scope) (a : Attribute) : Emit (Option String) := do
  if isDynamicClass a then pure none
  else if isBlankText a.expression then
    warn .emptyBinding (a.rawName ++ " binding has empty expression")
    pure none
  else
    if isDangerousBinding a.name then
      warn .dangerousBinding (a.rawName ++ " is a dangerous binding that can lead to XSS " ++
        "vulnerabilities. Consider using safer alternatives.")
    let value := stripBindThis (← emitPipe scope a.expression)
    pure (some (assign (if a.binding == .attribute then a.name else attributeName a.name) value))

/-- The pieces of an attribute value with every expression compiled. -/
def emitParts (scope : Scope) (parts : List ValuePart) : Emit (List ValuePart) :=
  parts.mapM fun part => do
    match part with
    | .text cs => pure (.text cs)
    | .expression e => pure (.expression (← emitPipe scope e))

/-- A plain attribute; classes, styles and references are written elsewhere. -/
def emitPlain (scope : Scope) (a : Attribute) : Emit (Option String) := do
  if a.name == "class" || a.name == "style" || hasStart a.name "#" then pure none
  else
    let name := attributeName a.name
    match plainForm name a.value with
    | .interpolated parts =>
      let parts ← emitParts scope parts
      pure (some ((PlainForm.interpolated parts).render name))
    | form => pure (some (form.render name))

/-- An attribute in its own place; directives, classes, styles and two-way bindings have theirs
before all others. -/
def emitAttribute (scope : Scope) (a : Attribute) : Emit (Option String) :=
  match a.binding with
  | .event => emitEvent a
  | .property | .attribute => emitBinding scope a
  | .standard => emitPlain scope a
  | _ => pure none

/-- The attributes of an element in emission order. -/
def emitAttributes (scope : Scope) (tag : String) (attributes : List Attribute) :
    Emit (List String) := do
  let refs ← emitRefs attributes
  let spreads ← emitDirectives scope attributes
  let merged ← emitClassAndStyle attributes
  let bound ← emitTwoWays tag attributes
  let others ← attributes.filterMapM (emitAttribute scope)
  pure (refs ++ spreads ++ merged ++ bound ++ others.filter (!·.isEmpty))

/-! ## Elements -/

/-- A place for content: the page in a layout, projected children elsewhere. -/
def emitSlot (scope : Scope) (tag : String) (attributes : List Attribute) : Emit String := do
  if scope.inLayout then
    modify fun e => { e with hasOutlet := true }
    pure "<Component />"
  else
    match slotName tag attributes with
    | none =>
      modify fun e => { e with hasDefaultSlot := true }
      pure (braced "children")
    | some name =>
      modify fun e => { e with slots := Pipe.addOnce e.slots name }
      pure (braced name)

/-- Warns about a blank `*if` and about an `*else` without an `*if`. -/
def checkConditions (attributes : List Attribute) : Emit Unit := do
  let test := directive? "if" attributes
  if test.any fun a => isBlankText a.expression then
    warn .emptyIf "*if directive has empty condition. Usage: *if=\"someCondition\""
  if (directive? "else" attributes).isSome && test.isNone then
    warn .orphanElse ("*else directive found without *if. *else must be used together with *if " ++
      "on the same element")

/-- The loop of an element, with its number among the loops emitted so far. -/
def emitLoop (attributes : List Attribute) : Emit (Option (Loop × Nat)) := do
  match directive? "for" attributes with
  | none => pure none
  | some a =>
    let (loop, warnings) := Loop.parse a.expression
    warnAll warnings
    match loop with
    | none => pure none
    | some loop =>
      modify fun e => { e with loops := e.loops + 1 }
      pure (some (loop, (← get).loops))

/-- The key attribute of an element in the `count`-th loop. Keys that are items are told apart by
the number of the loop, from the second one on. -/
def keyAttribute (loop : Loop) (count : Nat) : String :=
  let key := loop.key
  if key = loop.item ∧ 1 < count then assign "key" ("\"" ++ toString count ++ "_\" + " ++ key)
  else assign "key" key

/-- An element of the output. -/
def elementJsx (tag : String) (parts : List String) (children : String) : String :=
  let opening := " ".intercalate (tag :: parts)
  if children.isEmpty then "<" ++ opening ++ " />"
  else "<" ++ opening ++ ">" ++ children ++ "</" ++ tag ++ ">"

/-- An element under its loop and its condition. -/
def structuralJsx (element : String) (loop : Option Loop) (attributes : List Attribute) :
    String :=
  let looped := loop.map (·.mapText element)
  let test := (directive? "if" attributes).filter fun a => !isBlankText a.expression
  match test with
  | some a =>
    let otherwise := (directive? "else" attributes).map (·.expression)
    braced (conditionText (looped.getD element) a.expression otherwise)
  | none => (looped.map braced).getD element

mutual

/-- A node of the template in JSX. -/
def emitNode (scope : Scope) : Node → Emit String
  | .text content _ => pure (textJsx content)
  | .comment _ _ => pure ""
  | .interpolation expression _ => do
    if isBlankText expression then pure ""
    else pure (braced (← emitPipe scope expression))
  | .element tag selfClosing attributes children _ => do
    if isSlot tag then emitSlot scope tag attributes
    else if isOutlet tag then
      modify fun e => { e with hasOutlet := true }
      pure "<Component />"
    else
      checkConditions attributes
      let parts ← emitAttributes scope tag attributes
      let inside ← emitNodes scope children
      let loop ← emitLoop attributes
      let key := loop.map fun (l, count) => keyAttribute l count
      let inside := if selfClosing then "" else String.join inside
      let element := elementJsx (jsxName tag) (parts ++ key.toList) inside
      pure (structuralJsx element (loop.map (·.1)) attributes)

/-- The nodes of a template in JSX, one text each. -/
def emitNodes (scope : Scope) : List Node → Emit (List String)
  | [] => pure []
  | n :: ns => do
    let part ← emitNode scope n
    let parts ← emitNodes scope ns
    pure (part :: parts)

end

/-- The parts of a template as one expression: `null`, a single part, or a fragment. -/
def rootJsx (parts : List String) : String :=
  match parts with
  | [] => "null"
  | [part] => if hasStart part "<" || hasStart part "\x7b" then part else "<>" ++ part ++ "</>"
  | parts => "<>\n      " ++ "\n      ".intercalate parts ++ "\n    </>"

/-- A whole template as one JSX expression. -/
def emitDocument (scope : Scope) (d : Document) : Emit String := do
  let parts ← emitNodes scope d.children
  pure (rootJsx (parts.filter (!·.isEmpty)))

/-- The expression as it can stand after `return`: braces around it become parentheses. -/
def returnExpression (jsx : String) : String :=
  if hasStart jsx "\x7b" && hasEnd jsx "\x7d" && !hasStart jsx "\x7b..." then
    "(" ++ inner jsx ++ ")"
  else
    jsx

end Trellis.Jsx
