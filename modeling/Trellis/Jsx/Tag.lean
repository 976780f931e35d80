import Trellis.Text.Blank
import Trellis.Diagnostic
import Trellis.Naming
import Trellis.Template.Node

/-!
# Tags

Which tags are standard elements, which mark a place for projected content, and which name a
component: `<status-badge>` is the component `StatusBadge`.

* `isCustom` says that a tag names a component, `jsxName` what it is called in the output.
* `slotName` is the property that a slot element projects.
* `resolve` finds the component behind a tag and the import it needs.
-/

namespace Trellis.Jsx

open Trellis.Text
open Trellis.Template

/-- The elements of HTML and SVG, in lower case. -/
def standardTags : List String :=
  ["a", "abbr", "address", "area", "article", "aside", "audio", "b", "base", "bdi", "bdo",
    "blockquote", "body", "br", "button", "canvas", "caption", "cite", "code", "col", "colgroup",
    "data", "datalist", "dd", "del", "details", "dfn", "dialog", "div", "dl", "dt", "em", "embed",
    "fieldset", "figcaption", "figure", "footer", "form", "h1", "h2", "h3", "h4", "h5", "h6",
    "head", "header", "hgroup", "hr", "html", "i", "iframe", "img", "input", "ins", "kbd", "label",
    "legend", "li", "link", "main", "map", "mark", "menu", "meta", "meter", "nav", "noscript",
    "object", "ol", "optgroup", "option", "output", "p", "param", "picture", "pre", "progress",
    "q", "rp", "rt", "ruby", "s", "samp", "script", "search", "section", "select", "slot", "small",
    "source", "span", "strong", "style", "sub", "summary", "sup", "table", "tbody", "td",
    "template", "textarea", "tfoot", "th", "thead", "time", "title", "tr", "track", "u", "ul",
    "var", "video", "wbr",
    "svg", "path", "circle", "ellipse", "line", "polygon", "polyline", "rect", "g", "defs",
    "symbol", "use", "clippath", "mask", "text", "tspan", "textpath", "image", "switch",
    "foreignobject", "desc", "metadata", "lineargradient", "radialgradient", "stop", "filter",
    "fegaussianblur", "feoffset", "feblend", "fecolormatrix", "fecomponenttransfer", "fecomposite",
    "feconvolvematrix", "fediffuselighting", "fedisplacementmap", "fedropshadow", "feflood",
    "fefunca", "fefuncb", "fefuncg", "fefuncr", "feimage", "femerge", "femergenode",
    "femorphology", "fepointlight", "fespecularlighting", "fespotlight", "fetile", "feturbulence",
    "animate", "animatemotion", "animatetransform", "set", "marker", "pattern"]

/-- An element of HTML or SVG, in any case. -/
def isStandard (tag : String) : Bool := standardTags.contains (lower tag)

/-- The place where a layout shows the page. -/
def isOutlet (tag : String) : Bool := lower tag == "outlet"

/-- A place for projected content. -/
def isSlot (tag : String) : Bool := lower tag == "slot" || lower tag == "ng-content"

/-- The tag names a component. -/
def isCustom (tag : String) : Bool :=
  !isOutlet tag && !isSlot tag && (tag.toList.contains '-' || !isStandard tag)

/-- What a tag is called in the output. -/
def jsxName (tag : String) : String :=
  if !isCustom tag then tag
  else if (tag.toList.head?.map isCapital).getD false then tag
  else Naming.pascalCase tag

/-! ## Slots -/

/-- A quote or the bracket that ends the name in a slot selector. -/
def endsSlotName (c : Char) : Bool := c == '\x27' || c == '"' || c == ']'

/-- The name in the first selector of the form `[slot=name]`, quoted or not. -/
def slotSelector? : List Char → Option (List Char)
  | [] => none
  | c :: cs =>
    let name :=
      if "[slot=".toList.isPrefixOf (c :: cs) then
        match (c :: cs).drop 6 with
        | q :: rest =>
          if q == '\x27' || q == '"' then rest.takeWhile (!endsSlotName ·)
          else (q :: rest).takeWhile (!endsSlotName ·)
        | [] => []
      else []
    if name.isEmpty then slotSelector? cs else some name

/-- The property that a slot element projects; nothing for the default slot. -/
def slotName (tag : String) (attributes : List Attribute) : Option String :=
  let selected :=
    if lower tag == "slot" then ((plain? "name" attributes).bind (·.value)).getD ""
    else
      let select := ((plain? "select" attributes).bind (·.value)).getD ""
      if hasStart select "." then dropFirst 1 select
      else ((slotSelector? select.toList).map String.ofList).getD select
  if selected.isEmpty then none else some (Naming.camelCase (strip selected))

/-! ## Components behind tags -/

/-- A component of the project: the class that defines it, and whether it is an island. -/
structure KnownComponent where
  className : String
  isIsland : Bool
  deriving DecidableEq, Repr

/-- The output folder of components that are islands, and of those that are not. -/
def componentFolder (isIsland : Bool) : String := if isIsland then "islands" else "components"

/-- The import of a component. -/
structure TagImport where
  componentName : String
  importPath : String
  isIsland : Bool
  deriving DecidableEq, Repr

/-- The import as a line of code. -/
def TagImport.statement (i : TagImport) : String :=
  "import " ++ i.componentName ++ " from \"" ++ i.importPath ++ "\";"

/-- The import that a tag needs: that of the first known component with its name. A tag that
names no known component is logged. -/
def resolve (known : List KnownComponent) (aliasName tag : String) : Logged (Option TagImport) :=
  if !isCustom tag then pure none
  else
    let name := jsxName tag
    match known.find? (·.className == name) with
    | some c =>
      let path := aliasName ++ "/" ++ componentFolder c.isIsland ++ "/" ++ name ++ ".tsx"
      pure (some ⟨name, path, c.isIsland⟩)
    | none => do
      Logged.tell .warning "transpiler.tags" ("Could not resolve tag <" ++ tag ++ ">")
      pure none

/-- The tags of a template that name components, in first-use order. -/
def customTags (d : Document) : List String :=
  distinct ((d.nodes.filterMap Node.tag?).filter isCustom)

end Trellis.Jsx
