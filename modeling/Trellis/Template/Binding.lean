/-!
# Binding forms of attributes

The marks around an attribute's name say how its value is bound: `[value]` binds a property,
`(click)` an event, `*if` is a directive. Every name has exactly one form, the first in
`Binding.order` whose marks stand around it; a name without marks is a standard attribute.

* `Binding.classify` takes a raw name apart, `Binding.wrap` puts it together again.
-/

namespace Trellis.Template

/-- How an attribute's value is bound. -/
inductive Binding where
  | standard
  | directive
  | event
  | twoWay
  | property
  | classToggle
  | style
  | attribute
  deriving DecidableEq, Repr

namespace Binding

/-- The name of a form. -/
def label : Binding → String
  | .standard => "standard"
  | .directive => "directive"
  | .event => "event"
  | .twoWay => "two_way"
  | .property => "property"
  | .classToggle => "class"
  | .style => "style"
  | .attribute => "attribute"

/-- The marks before and after the name. -/
def marks : Binding → String × String
  | .standard => ("", "")
  | .directive => ("*", "")
  | .event => ("(", ")")
  | .twoWay => ("[(", ")]")
  | .property => ("[", "]")
  | .classToggle => ("[class.", "]")
  | .style => ("[style.", "]")
  | .attribute => ("[attr.", "]")

/-- The forms in the order in which a raw name is matched against their marks. -/
def order : List Binding :=
  [.directive, .twoWay, .event, .classToggle, .style, .attribute, .property, .standard]

/-- The characters between `left` and `right`, if they stand at the two ends. -/
def between? (left right cs : List Char) : Option (List Char) :=
  if left.isPrefixOf cs && right.isSuffixOf (cs.drop left.length) then
    some ((cs.drop left.length).take (cs.length - left.length - right.length))
  else
    none

/-- The name inside the marks of a form. -/
def unwrap? (b : Binding) (raw : String) : Option String :=
  (between? b.marks.1.toList b.marks.2.toList raw.toList).map String.ofList

/-- The raw name: the name inside the marks of its form. -/
def wrap (b : Binding) (name : String) : String := b.marks.1 ++ name ++ b.marks.2

/-- The form of a raw name and the name without its marks. -/
def classify (raw : String) : Binding × String :=
  (order.findSome? fun b => (b.unwrap? raw).map fun name => (b, name)).getD (.standard, raw)

end Binding

/-- The directives that the compiler itself knows. -/
def builtInDirectives : List String := ["if", "else", "for"]

/-- The name of a directive that the compiler itself knows. -/
def isBuiltInDirective (name : String) : Bool := builtInDirectives.contains name

end Trellis.Template
