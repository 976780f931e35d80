import Trellis.Text.Quoted
import Trellis.Template.Parser

/-!
# Short descriptions of tokens, nodes and errors

One line each, for debugging a template: what it is, its name or content, and no more.
-/

namespace Trellis.Template

open Trellis.Text

/-- A token by kind, value and place. -/
def Token.summary (t : Token) : String :=
  "Token(" ++ t.kind.label ++ ", " ++ reprQuote t.value ++ ", " ++ toString t.span.line ++ ":" ++
    toString t.span.column ++ ")"

/-- An attribute by form, name and value. -/
def Attribute.summary (a : Attribute) : String :=
  let value := reprQuote a.expression
  match a.binding with
  | .standard =>
    "AttributeNode(" ++ a.name ++ "=" ++ (a.value.map reprQuote).getD "None" ++ ")"
  | .directive => "DirectiveNode(" ++ a.rawName ++ "=" ++ value ++ ")"
  | .event => "EventNode(" ++ a.rawName ++ "=" ++ value ++ ")"
  | .twoWay => "TwoWayBindingNode(" ++ a.rawName ++ "=" ++ value ++ ")"
  | b => "BindingNode(" ++ b.label ++ ", " ++ a.name ++ "=" ++ value ++ ")"

/-- A node by kind and content; an element by its tag and the number of its children. -/
def Node.summary : Node → String
  | .text content _ => "TextNode(" ++ reprQuote content ++ ")"
  | .interpolation expression _ => "InterpolationNode(" ++ reprQuote expression ++ ")"
  | .comment content _ => "CommentNode(" ++ reprQuote content ++ ")"
  | .element tag _ _ children _ =>
    "ElementNode(<" ++ tag ++ ">, children=" ++ toString children.length ++ ")"

/-- A document by the number of its children. -/
def Document.summary (d : Document) : String :=
  "DocumentNode(children=" ++ toString d.children.length ++ ")"

/-- The document, then its nodes depth first, each element followed by its attributes. -/
def Document.outline (d : Document) : List String :=
  d.summary :: d.nodes.flatMap fun n => n.summary :: n.attributes.map Attribute.summary

/-- An error by message and place. -/
def ParseError.summary (e : ParseError) : String :=
  "ParseError(" ++ reprQuote e.flaw.message ++ ", line=" ++ toString e.span.line ++ ", column=" ++
    toString e.span.column ++ ")"

end Trellis.Template
