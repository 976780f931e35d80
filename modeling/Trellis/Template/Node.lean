import Trellis.Text.Case
import Trellis.Text.Cut
import Trellis.Template.Binding
import Trellis.Template.Token

/-!
# Template trees

A template is a list of nodes: text, interpolations, comments and elements. An element keeps its
attributes in source order, whatever their binding form; the views by form (`plain`,
`directives`, …) are filters of that list.

* `Node.markup` writes a tree back as markup.
* `Node.all` lists a node and its descendants depth first.
-/

namespace Trellis.Template

open Trellis.Text

/-- An attribute of an element: the form of its binding, its name without marks, its value and
where it stands. Only a standard attribute may have no value. -/
structure Attribute where
  binding : Binding
  name : String
  value : Option String
  span : Span
  deriving DecidableEq, Repr

namespace Attribute

/-- The attribute read from a raw name and the value after it, if any. -/
def ofRaw (raw : String) (value : Option String) (span : Span) : Attribute :=
  let (binding, name) := Binding.classify raw
  match binding with
  | .standard => ⟨.standard, raw, value, span⟩
  | _ => ⟨binding, name, some (value.getD ""), span⟩

/-- The name with the marks of its form. -/
def rawName (a : Attribute) : String := a.binding.wrap a.name

/-- The value, empty if there is none. -/
def expression (a : Attribute) : String := a.value.getD ""

/-- A directive of the compiler itself. -/
def isBuiltIn (a : Attribute) : Bool := isBuiltInDirective a.name

/-- The attribute as markup. -/
def markup (a : Attribute) : String :=
  match a.value with
  | none => a.rawName
  | some v => a.rawName ++ "=\"" ++ v ++ "\""

end Attribute

/-- A node of a template. -/
inductive Node where
  | text (content : String) (span : Span)
  | interpolation (expression : String) (span : Span)
  | comment (content : String) (span : Span)
  | element (tag : String) (selfClosing : Bool) (attributes : List Attribute)
      (children : List Node) (span : Span)
  deriving Repr

/-- A whole template. -/
structure Document where
  children : List Node
  span : Span
  deriving Repr

/-! ## Views of an element's attributes -/

/-- The attributes of one binding form, in source order. -/
def ofBinding (b : Binding) (attributes : List Attribute) : List Attribute :=
  attributes.filter (·.binding == b)

/-- The attributes without marks. -/
def plain (attributes : List Attribute) : List Attribute := ofBinding .standard attributes

/-- The directives. -/
def directives (attributes : List Attribute) : List Attribute := ofBinding .directive attributes

/-- The event handlers. -/
def events (attributes : List Attribute) : List Attribute := ofBinding .event attributes

/-- The two-way bindings. -/
def twoWays (attributes : List Attribute) : List Attribute := ofBinding .twoWay attributes

/-- Property, class, style and attribute bindings. -/
def isOneWay : Binding → Bool
  | .property | .classToggle | .style | .attribute => true
  | _ => false

/-- The one-way bindings. -/
def oneWays (attributes : List Attribute) : List Attribute :=
  attributes.filter (isOneWay ·.binding)

/-- The first directive of a given name. -/
def directive? (name : String) (attributes : List Attribute) : Option Attribute :=
  (directives attributes).find? (·.name == name)

/-- The first plain attribute of a given name. -/
def plain? (name : String) (attributes : List Attribute) : Option Attribute :=
  (plain attributes).find? (·.name == name)

/-! ## Void elements and markup -/

/-- The elements that have no content and no closing tag. -/
def voidElements : List String :=
  ["area", "base", "br", "col", "embed", "hr", "img", "input", "link", "meta", "param", "source",
    "track", "wbr"]

/-- A tag of a void element, in any case. -/
def isVoid (tag : String) : Bool := voidElements.contains (lower tag)

/-- The name and the attributes of an opening tag. -/
def openingMarkup (tag : String) (attributes : List Attribute) : String :=
  " ".intercalate (tag :: attributes.map Attribute.markup)

mutual

/-- The node as markup. A void element without children has no closing tag. -/
def Node.markup : Node → String
  | .text content _ => content
  | .interpolation expression _ => "\x7b\x7b " ++ expression ++ " \x7d\x7d"
  | .comment content _ => "<!-- " ++ content ++ " -->"
  | .element tag selfClosing attributes children _ =>
    let opening := openingMarkup tag attributes
    if selfClosing then "<" ++ opening ++ " />"
    else
      let inside := Node.markupAll children
      if inside.isEmpty && isVoid tag then "<" ++ opening ++ ">"
      else "<" ++ opening ++ ">" ++ inside ++ "</" ++ tag ++ ">"

/-- The nodes as markup, one after the other. -/
def Node.markupAll : List Node → String
  | [] => ""
  | n :: ns => n.markup ++ Node.markupAll ns

end

/-- The template as markup. -/
def Document.markup (d : Document) : String := Node.markupAll d.children

/-! ## Walks -/

mutual

/-- The node and its descendants, depth first. -/
def Node.all : Node → List Node
  | .text content span => [.text content span]
  | .interpolation expression span => [.interpolation expression span]
  | .comment content span => [.comment content span]
  | .element tag selfClosing attributes children span =>
    .element tag selfClosing attributes children span :: Node.allOf children

/-- The nodes and their descendants, depth first. -/
def Node.allOf : List Node → List Node
  | [] => []
  | n :: ns => n.all ++ Node.allOf ns

end

/-- All nodes of a template, depth first. -/
def Document.nodes (d : Document) : List Node := Node.allOf d.children

/-- The attributes of a node. -/
def Node.attributes : Node → List Attribute
  | .element _ _ attributes _ _ => attributes
  | _ => []

/-- The tag of a node, if it is an element. -/
def Node.tag? : Node → Option String
  | .element tag _ _ _ _ => some tag
  | _ => none

/-- Where a node stands. -/
def Node.span : Node → Span
  | .text _ span => span
  | .interpolation _ span => span
  | .comment _ span => span
  | .element _ _ _ _ span => span

/-- The name of a node's kind. -/
def Node.kindLabel : Node → String
  | .text .. => "text"
  | .interpolation .. => "interpolation"
  | .comment .. => "comment"
  | .element .. => "element"

/-- The attribute makes its element interactive: an event handler or a two-way binding. -/
def Attribute.isInteractive (a : Attribute) : Bool :=
  a.binding == .event || a.binding == .twoWay

/-- Some element of the template has an event handler or a two-way binding. -/
def Document.isInteractive (d : Document) : Bool :=
  d.nodes.any fun n => n.attributes.any Attribute.isInteractive

/-- The directives used anywhere that the compiler itself does not know, in first-use order. -/
def Document.customDirectives (d : Document) : List String :=
  distinct <| (d.nodes.flatMap fun n => directives n.attributes).filterMap fun a =>
    if a.isBuiltIn then none else some a.name

end Trellis.Template
