import Trellis.Text.Blank
import Trellis.Text.Case
import Trellis.Text.Cut
import Trellis.Text.Letter
import Trellis.Text.Quoted
import Trellis.Naming
import Trellis.Table

/-!
# Attributes of JSX elements

How the attributes and bindings of a template element are written in JSX: event handlers, two-way
bindings, merged classes and styles, and plain attributes with interpolations.
-/

namespace Trellis.Jsx

open Trellis.Text

/-! ## Names -/

/-- The handler attributes of known events. -/
def eventNames : List (String × String) :=
  [("click", "onClick"), ("dblclick", "onDblClick"), ("mousedown", "onMouseDown"),
    ("mouseup", "onMouseUp"), ("mousemove", "onMouseMove"), ("mouseenter", "onMouseEnter"),
    ("mouseleave", "onMouseLeave"), ("mouseover", "onMouseOver"), ("mouseout", "onMouseOut"),
    ("keydown", "onKeyDown"), ("keyup", "onKeyUp"), ("keypress", "onKeyPress"),
    ("focus", "onFocus"), ("blur", "onBlur"), ("input", "onInput"), ("change", "onChange"),
    ("submit", "onSubmit"), ("scroll", "onScroll"), ("touchstart", "onTouchStart"),
    ("touchend", "onTouchEnd"), ("touchmove", "onTouchMove"), ("drag", "onDrag"),
    ("dragstart", "onDragStart"), ("dragend", "onDragEnd"), ("dragover", "onDragOver"),
    ("dragenter", "onDragEnter"), ("dragleave", "onDragLeave"), ("drop", "onDrop"),
    ("contextmenu", "onContextMenu"), ("wheel", "onWheel"), ("copy", "onCopy"), ("cut", "onCut"),
    ("paste", "onPaste")]

/-- The attribute that handles an event. -/
def eventName (name : String) : String :=
  (eventNames.lookup (lower name)).getD ("on" ++ upperFirst name)

/-- The HTML attributes that JSX spells in another way. -/
def attributeNames : List (String × String) :=
  [("class", "className"), ("for", "htmlFor"), ("tabindex", "tabIndex"), ("readonly", "readOnly"),
    ("maxlength", "maxLength"), ("minlength", "minLength"), ("colspan", "colSpan"),
    ("rowspan", "rowSpan"), ("cellpadding", "cellPadding"), ("cellspacing", "cellSpacing"),
    ("usemap", "useMap"), ("frameborder", "frameBorder"), ("contenteditable", "contentEditable"),
    ("crossorigin", "crossOrigin"), ("datetime", "dateTime"), ("enctype", "encType"),
    ("formaction", "formAction"), ("formenctype", "formEncType"), ("formmethod", "formMethod"),
    ("formnovalidate", "formNoValidate"), ("formtarget", "formTarget"), ("hreflang", "hrefLang"),
    ("inputmode", "inputMode"), ("novalidate", "noValidate"), ("srcset", "srcSet"),
    ("srclang", "srcLang"), ("srcdoc", "srcDoc"), ("accesskey", "accessKey"),
    ("autocomplete", "autoComplete"), ("autofocus", "autoFocus"), ("autoplay", "autoPlay")]

/-- The JSX spelling of an HTML attribute. -/
def attributeName (name : String) : String := (attributeNames.lookup (lower name)).getD name

/-- The attributes whose values are numbers, as JSX spells them. -/
def numericAttributes : List String :=
  ["colSpan", "rowSpan", "tabIndex", "cols", "rows", "size", "span", "start", "height", "width",
    "maxLength", "minLength"]

/-- The attribute's value is a number. -/
def isNumeric (name : String) : Bool := numericAttributes.contains name

/-- The units that a style binding can name. -/
def styleUnits : List String :=
  ["px", "em", "rem", "%", "vh", "vw", "vmin", "vmax", "s", "ms", "deg", "rad", "turn"]

/-- A style property and its unit: `width.px` is `width` in pixels. -/
def styleProperty (name : String) : String × Option String :=
  match styleUnits.find? fun unit => hasEnd name ("." ++ unit) with
  | some unit => (dropLast (unit.length + 1) name, some unit)
  | none => (name, none)

/-! ## Expressions -/

/-- The name `class` standing for a variable: no part of a longer name or a member, and neither a
key nor an object. -/
def reservedRule : Rule := fun prev cs =>
  let free := (prev.map fun c => !(isWordChar c || c == '$' || c == '.')).getD true
  let after := cs.drop 5
  let ends := (after.head?.map fun c => !isWordChar c).getD true
  let next := (after.dropWhile isBlank).head?
  if free && "class".toList.isPrefixOf cs && ends && next != some ':' && next != some '.' then
    some (5, "className".toList)
  else
    none

/-- The expression with the variable `class` under its safe name. -/
def renameReserved (expression : String) : String := substitute reservedRule expression

/-- Binding to `this` and further arguments. -/
def bindThisRule : Rule := fun _ cs =>
  let start := ".bind(this,".toList
  if start.isPrefixOf cs then
    some (start.length + ((cs.drop start.length).takeWhile isBlank).length, ".bind(null, ".toList)
  else
    none

/-- The expression without bindings to `this`: a function has no `this` in generated code. -/
def stripBindThis (expression : String) : String :=
  substitute bindThisRule (replaceAll expression ".bind(this)" "")

/-- An expression in braces. -/
def braced (expression : String) : String := "\x7b" ++ expression ++ "\x7d"

/-- An attribute with an expression for its value. -/
def assign (name expression : String) : String := name ++ "=" ++ braced expression

/-- A text as an attribute value: in quotes, or as a string in braces if it needs escapes. -/
def quote (value : String) : String :=
  if value.toList.contains '"' || value.toList.contains '\\' then braced (jsonQuote value)
  else "\"" ++ value ++ "\""

/-! ## Events and two-way bindings -/

/-- A name with member accesses, so that it can be passed on as a handler. -/
def isHandlerName (handler : String) : Bool :=
  match beforeFinalBreak handler.toList with
  | [] => false
  | c :: cs =>
    let isNameChar := fun c => isWordChar c || c == '$'
    isNameChar c && cs.all fun c => isNameChar c || c == '.'

/-- The attribute that handles an event. In the handler `$event` is the event. -/
def eventHandler (name handler : String) : String :=
  let body := strip handler
  if occurs "$event" body then
    assign (eventName name) ("(e) => " ++ replaceAll body "$event" "e")
  else if isHandlerName body then assign (eventName name) body
  else assign (eventName name) ("() => " ++ body)

/-- The value and the change handler of a two-way binding. -/
def twoWayBinding (property variableName tag : String) : List String :=
  if property = "checked" then
    [assign "checked" variableName,
      assign "onChange" ("(e) => " ++ variableName ++ ".value = e.target.checked")]
  else if lower tag = "select" then
    [assign "value" variableName,
      assign "onChange" ("(e) => " ++ variableName ++ ".value = e.target.value")]
  else
    [assign property variableName,
      assign "onInput" ("(e) => " ++ variableName ++ ".value = e.target." ++ property)]

/-! ## Classes -/

/-- The operands of the merged class: the static class, the dynamic one, then each conditional
name. All but the first start with a separating blank. -/
def classOperands (fixed dynamic : String) (conditionals : List (String × String)) : List String :=
  let parts := if fixed.isEmpty then [] else [jsonQuote fixed]
  let parts :=
    if dynamic.isEmpty then parts
    else if parts.isEmpty then ["(" ++ dynamic ++ ")"]
    else parts ++ ["\" \" + (" ++ dynamic ++ ")"]
  conditionals.foldl (fun parts (name, condition) =>
    let text := "\"" ++ (if parts.isEmpty then "" else " ") ++ name ++ "\""
    if strip condition = "true" then parts ++ [text]
    else parts ++ ["(" ++ condition ++ " ? " ++ text ++ " : \"\")"]) parts

/-- The class attribute merged from a static class, conditional names and a dynamic class. -/
def classAttribute (fixed : Option String) (conditionals : List (String × String))
    (dynamic : Option String) : Option String :=
  let fixed := fixed.getD ""
  let dynamic := dynamic.getD ""
  if fixed.isEmpty && dynamic.isEmpty && conditionals.isEmpty then none
  else if fixed.isEmpty && conditionals.isEmpty then some (assign "className" dynamic)
  else if dynamic.isEmpty && conditionals.isEmpty then some ("className=" ++ quote fixed)
  else
    match classOperands fixed dynamic conditionals with
    | [part] => some (if hasStart part "\"" then "className=" ++ part else assign "className" part)
    | parts => some (assign "className" (" + ".intercalate parts))

/-! ## Styles -/

/-- The declarations of a style text. -/
def parseStyle (style : String) : List (String × String) :=
  (splitAtEach (· == ';') style.toList).filterMap fun declaration =>
    match breakAt? [':'] declaration with
    | none => none
    | some (name, value) =>
      let name := String.ofList (stripChars name)
      if name.isEmpty then none
      else some (Naming.camelCase name, String.ofList (stripChars value))

/-- The property and the value of a style binding; a unit makes the value a template literal. -/
def styleBinding (property expression : String) : String × String :=
  match styleProperty property with
  | (name, some unit) =>
    (Naming.camelCase name, "\x60$" ++ braced expression ++ unit ++ "\x60")
  | (name, none) => (Naming.camelCase name, expression)

/-- The style attribute merged from a style text and bindings. -/
def styleAttribute (fixed : Option String) (bindings : List (String × String)) : Option String :=
  let declared := (parseStyle (fixed.getD "")).map fun (name, value) => (name, jsonQuote value)
  match (Table.ofList (declared ++ bindings)).rows with
  | [] => none
  | rows =>
    let entries := rows.map fun (name, value) => name ++ ": " ++ value
    some ("style=" ++ braced (braced (", ".intercalate entries)))

/-! ## Plain attributes -/

/-- A piece of an attribute value: text, or the expression between doubled braces. -/
inductive ValuePart where
  | text (chars : List Char)
  | expression (text : String)
  deriving DecidableEq, Repr

/-- Puts a character at the start of the first piece of text. -/
def ValuePart.extend (c : Char) : List ValuePart → List ValuePart
  | .text cs :: parts => .text (c :: cs) :: parts
  | parts => .text [c] :: parts

/-- The pieces of an attribute value, `skip` characters of the last expression being still to be
passed. Doubled braces that are not closed are text. -/
def valuePartsFrom : Nat → List Char → List ValuePart
  | _, [] => []
  | skip + 1, _ :: cs => valuePartsFrom skip cs
  | 0, c :: cs =>
    if ['\x7b', '\x7b'].isPrefixOf (c :: cs) then
      match breakAt? ['\x7d', '\x7d'] (cs.drop 1) with
      | some (inside, _) =>
        .expression (String.ofList (stripChars inside)) :: valuePartsFrom (inside.length + 3) cs
      | none => ValuePart.extend c (valuePartsFrom 0 cs)
    else
      ValuePart.extend c (valuePartsFrom 0 cs)

/-- The pieces of an attribute value. -/
def valueParts (value : String) : List ValuePart := valuePartsFrom 0 value.toList

/-- Text inside a template literal. -/
def templateText (cs : List Char) : String :=
  replaceAll (replaceAll (String.ofList cs) "\x60" "\\\x60") "$\x7b" "\\$\x7b"

/-- A piece of an attribute value inside a template literal. -/
def ValuePart.render : ValuePart → String
  | .text cs => templateText cs
  | .expression e => "$" ++ braced e

/-- A template literal of the given pieces. -/
def templateLiteral (parts : List ValuePart) : String :=
  "\x60" ++ String.join (parts.map ValuePart.render) ++ "\x60"

/-- An attribute value with interpolations as a template literal. -/
def interpolatedString (value : String) : String := templateLiteral (valueParts value)

/-- How a plain attribute is written. -/
inductive PlainForm where
  /-- The name alone. -/
  | flag
  /-- A number in braces. -/
  | number (value : String)
  /-- A template literal of the value's pieces. -/
  | interpolated (parts : List ValuePart)
  /-- The value as a text. -/
  | text (value : String)
  deriving DecidableEq, Repr

/-- The form of an attribute with the given JSX name and value. -/
def plainForm (jsxName : String) (value : Option String) : PlainForm :=
  match value with
  | none => .flag
  | some value =>
    if value = "true" then .flag
    else if isNumeric jsxName && !value.isEmpty && value.toList.all isDigit then .number value
    else if occurs "\x7b\x7b" value then .interpolated (valueParts value)
    else .text value

/-- An attribute of a given form. -/
def PlainForm.render (name : String) : PlainForm → String
  | .flag => name
  | .number value => assign name value
  | .interpolated parts => assign name (templateLiteral parts)
  | .text value => name ++ "=" ++ quote value

/-- A plain attribute. -/
def plainAttribute (name : String) (value : Option String) : String :=
  (plainForm (attributeName name) value).render (attributeName name)

end Trellis.Jsx
