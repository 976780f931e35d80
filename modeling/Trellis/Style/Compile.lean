import Trellis.FileTree
import Trellis.Style.Expression
import Trellis.Style.Selector
import Trellis.Style.Sheet

/-!
# Compiling style sheets

A sheet is flattened into rules without nesting and written without any blank that can be spared.
The declarations of a rule come before the rules inside it, and a rule for media is put around the
rules that it stands in.

* `compile?` fails on a sheet that cannot be read, on an unknown variable or mixin, on a missing
  import, on an import that can mean two files, and on an empty sheet.
* Imports for the reader of the compiled sheet come first, and so do the remarks before all rules.
-/

namespace Trellis.Style

open Trellis.Text

/-! ## Names -/

/-- A named body of items with parameters, some of which have a default. -/
structure Mixin where
  params : List (String × Option String)
  body : List Item

/-- The names in sight: those of the whole sheet, and those of the blocks around a place, the
innermost first. -/
structure Scope where
  globals : List (String × Value) := []
  blocks : List (List (String × Value)) := []
  mixins : List (String × Mixin) := []

namespace Scope

/-- The value of a name. -/
def lookup (s : Scope) : Lookup := fun name =>
  (s.blocks.findSome? (·.lookup name)).orElse fun _ => s.globals.lookup name

/-- Gives a name a value in the innermost block that has the name, else in the innermost one. -/
def assignBlock (name : String) (value : Value) :
    List (List (String × Value)) → List (List (String × Value))
  | [] => []
  | block :: blocks =>
    if (block.lookup name).isSome || !(blocks.any fun b => (b.lookup name).isSome) then
      ((name, value) :: block) :: blocks
    else block :: assignBlock name value blocks

/-- Gives a name a value. -/
def assign (s : Scope) (isGlobal : Bool) (name : String) (value : Value) : Scope :=
  if isGlobal || s.blocks.isEmpty then { s with globals := (name, value) :: s.globals }
  else { s with blocks := assignBlock name value s.blocks }

/-- The scope inside a block. -/
def enter (s : Scope) (names : List (String × Value) := []) : Scope :=
  { s with blocks := names :: s.blocks }

/-- The scope after a block that was entered. -/
def leave (s : Scope) : Scope := { s with blocks := s.blocks.tail }

/-- The scope after a variable is given a value; a default counts only for a new variable. -/
def bind? (s : Scope) (name value : String) : Option Scope := do
  let key := variableKey name
  let (operand, rest) ← readCommas s.lookup (fuelFor value) value.toList
  let flags := (splitAtEach isBlank (skipGap false rest)).filter (!·.isEmpty)
  if !flags.all fun flag => assignmentFlags.contains (String.ofList flag) then none
  let isDefault := flags.contains "!default".toList
  if isDefault && (s.lookup key).isSome then pure s
  else pure (s.assign (flags.contains "!global".toList) key (← operand.settle?))

end Scope

/-! ## Compiled sheets -/

/-- A line of a compiled rule. -/
inductive RuleLine where
  | declaration (property value : String)
  | remark (text : String)
  deriving DecidableEq, Repr

/-- The lines of a rule, with semicolons after declarations but the last. -/
def linesText : List RuleLine → String
  | [] => ""
  | [.declaration property value] => property ++ ":" ++ value
  | .declaration property value :: lines => property ++ ":" ++ value ++ ";" ++ linesText lines
  | .remark text :: lines => text ++ linesText lines

/-- A part of a compiled sheet. -/
inductive Output where
  | remark (text : String)
  | style (selectors : List String) (lines : List RuleLine)
  /-- A rule for media, with its queries. -/
  | media (queries : List String) (body : List Output)
  /-- Another rule that starts with an at sign. -/
  | block (header : String) (lines : List RuleLine) (body : List Output)
  /-- An import for the reader of the compiled sheet. -/
  | load (target : String)

/-- A part as text. -/
def Output.text : Output → String
  | .remark text => text
  | .style selectors lines => ",".intercalate selectors ++ "\x7b" ++ linesText lines ++ "\x7d"
  | .media queries body =>
    "@media " ++ ",".intercalate queries ++ "\x7b" ++ String.join (body.map Output.text) ++ "\x7d"
  | .block header lines body =>
    header ++ "\x7b" ++ linesText lines ++ String.join (body.map Output.text) ++ "\x7d"
  | .load target => "@import " ++ target

/-- The lines of a rule as a part, if there are any and a selector of the rule is written. -/
def styleOf (selectors : List String) (lines : List RuleLine) : List Output :=
  let selectors := selectors.filter (!isPlaceholder ·)
  if lines.isEmpty || selectors.isEmpty then [] else [.style selectors lines]

/-- Puts a rule for media around parts; rules for media inside stay beside it. -/
def wrapMedia (queries : List String) : List Output → List Output
  | [] => []
  | .media nested body :: parts => .media nested body :: wrapMedia queries parts
  | part :: parts =>
    match wrapMedia queries parts with
    | .media nested body :: others =>
      if nested == queries then .media queries (part :: body) :: others
      else .media queries [part] :: .media nested body :: others
    | others => .media queries [part] :: others

/-- The part comes before all rules: an import always, a remark if no rule is before it. -/
def hoist : Bool → List Output → List Output × List Output
  | _, [] => ([], [])
  | started, part :: parts =>
    match part with
    | .load target =>
      let (first, others) := hoist started parts
      (.load target :: first, others)
    | .remark text =>
      let (first, others) := hoist started parts
      if started then (first, .remark text :: others) else (.remark text :: first, others)
    | part =>
      let (first, others) := hoist true parts
      (first, part :: others)

/-- The parts before all rules as text; an import ends with a semicolon unless it is the end of the
sheet. -/
def hoistedText (isAll : Bool) : List Output → String
  | [] => ""
  | [.load target] => (Output.load target).text ++ (if isAll then "" else ";")
  | .load target :: parts => (Output.load target).text ++ ";" ++ hoistedText isAll parts
  | part :: parts => part.text ++ hoistedText isAll parts

/-- The mark at the start of a sheet that has characters beyond ASCII. -/
def byteOrderMark : Char := Char.ofNat 0xFEFF

/-- A compiled sheet as text. -/
def sheetText (parts : List Output) : String :=
  let (first, others) := hoist false parts
  let text := hoistedText others.isEmpty first ++ String.join (others.map Output.text)
  let text := if text.isEmpty then "" else text ++ "\n"
  if text.toList.any (127 < ·.toNat) then String.ofList (byteOrderMark :: text.toList) else text

/-! ## Media -/

/-- A word of a media query; a feature in parentheses has its value computed. -/
def mediaWord? (lookup : Lookup) (word : List Char) : Option String :=
  match word with
  | '(' :: cs => do
    let inside := stripChars cs.dropLast
    let value (text : List Char) : Option String := do
      (← (compute? lookup (String.ofList (stripChars text))).map (·.value)).text?
    match breakAt? [':'] inside with
    | some (feature, setting) => pure ("(" ++ (← value feature) ++ ": " ++ (← value setting) ++ ")")
    | none => pure ("(" ++ (← value inside) ++ ")")
  | _ => some (String.ofList word)

/-- The queries of a rule for media. -/
def mediaQueries? (lookup : Lookup) (params : String) : Option (List String) := do
  let params ← fill? lookup params
  (splitOutside (· == ',') none 0 params.toList).mapM fun query => do
    let words := (splitOutside isBlank none 0 query).filter (!·.isEmpty)
    pure (" ".intercalate (← words.mapM (mediaWord? lookup)))

/-- The queries that hold where one of each list holds. -/
def mergeQueries? (outers inners : List String) : Option (List String) :=
  if outers.isEmpty then some inners
  else (outers.flatMap fun outer => inners.map fun nested => (outer, nested)).mapM
    fun (outer, nested) =>
      if hasStart nested "(" then some (outer ++ " and " ++ nested)
      else if hasStart outer "(" then some (nested ++ " and " ++ outer)
      else none

/-! ## Imports -/

/-- A file with sheets is written by indentation. -/
def isIndented (p : Path) : Bool := lower p.extension == ".sass"

/-- Reads a sheet. -/
def readSheet (indented : Bool) (text : String) : Option (List Item) :=
  if indented then readIndented text else readBraced text

/-- The files that an import can mean, seen from a folder. -/
def importCandidates (folder : Path) (target : String) : List Path :=
  let place := folder.child target
  let named (name : String) : Path := { place with segments := place.segments.dropLast ++ [name] }
  let extensions := [".scss", ".sass", ".css"]
  place :: named ("_" ++ place.name) :: extensions.map (fun e => named ("_" ++ place.name ++ e)) ++
    extensions.map (fun e => named (place.name ++ e))

/-- The files in a folder that an import means. -/
def importFiles (tree : FileTree) (target : String) (folder : Path) : List (Path × String) :=
  (importCandidates folder target).filterMap fun path =>
    (tree.readText path).toOption.map fun text => (path, text)

/-- The sheet that an import means, and its folder. The folders are tried in order. -/
def loadSheet? (tree : FileTree) (folders : List Path) (target : String) :
    Option (Path × List Item) :=
  match (folders.map (importFiles tree target)).find? (!·.isEmpty) with
  | some [(path, text)] =>
    (readSheet (isIndented path) text).map fun items => (path.parent, items)
  | _ => none

/-- A text without the quotes around it. -/
def unquote (text : String) : String :=
  match text.toList with
  | c :: _ =>
    let isQuote := c == '"' || c == '\x27'
    if isQuote && 2 ≤ text.length && text.toList.getLast? == some c then inner text else text
  | [] => text

/-- What an import names: another sheet, or an address for the reader of the compiled sheet. -/
inductive ImportTarget where
  | sheet (name : String)
  | address (text : String)
  deriving DecidableEq, Repr

/-- What an import names. -/
def ImportTarget.ofText (text : String) : ImportTarget :=
  let name := unquote text
  if hasStart text "url(" then .address text
  else if hasEnd name ".css" || hasStart name "http://" || hasStart name "https://" ||
      hasStart name "//" then
    .address ("url(" ++ name ++ ")")
  else .sheet name

/-- What an import lists. -/
def importTargets (list : String) : List ImportTarget :=
  (splitOutside (· == ',') none 0 list.toList).map fun target =>
    .ofText (String.ofList (stripChars target))

/-! ## Mixins -/

/-- A name, and what stands in the parentheses after it. -/
def splitCall (text : String) : String × String :=
  let cs := text.toList
  let name := cs.takeWhile (· != '(')
  (variableKey (String.ofList (stripChars name)),
    String.ofList (stripChars ((cs.drop (name.length + 1)).reverse.drop 1).reverse))

/-- The parameters of a mixin. -/
def paramsOf (list : String) : List (String × Option String) :=
  let params := (splitOutside (· == ',') none 0 list.toList).map stripChars
  (params.filter (!·.isEmpty)).map fun param =>
    let (name, default) := match breakAt? [':'] param with
      | some (name, value) => (stripChars name, some (String.ofList (stripChars value)))
      | none => (param, none)
    (variableKey (String.ofList (name.drop 1)), default)

/-- The values of the arguments of a mixin. -/
def argsOf? (lookup : Lookup) (list : String) : Option (List Value) := do
  let (args, rest) ← readMore lookup (fuelFor list) (',' :: list.toList)
  if (skipGap false rest).isEmpty then args.mapM Value.settle? else none

/-- The names of a mixin's block: its parameters, with the arguments or the defaults. -/
def bindParams? (globals : Scope) :
    List (String × Option String) → List Value → List (String × Value) →
      Option (List (String × Value))
  | [], [], names => some names
  | [], _ :: _, _ => none
  | (param, _) :: params, arg :: args, names =>
    bindParams? globals params args ((param, arg) :: names)
  | (param, default) :: params, [], names => do
    let operand ← compute? (globals.enter names).lookup (← default)
    bindParams? globals params [] ((param, ← operand.settle?) :: names)

/-! ## Items -/

/-- Where items stand. -/
structure Place where
  /-- The folders in which imports are looked for. -/
  folders : List Path
  selectors : List String := []
  queries : List String := []
  /-- Declarations can stand here. -/
  holdsDeclarations : Bool := false
  /-- The items that are handed to the mixin around the place. -/
  content : List Item := []

/-- What has been compiled so far. -/
structure Progress where
  scope : Scope := {}
  lines : List RuleLine := []
  parts : List Output := []

/-- A block was compiled on its own; only what it changes outside of itself is kept. -/
def Progress.after (p inside : Progress) (parts : List Output) : Progress :=
  { p with scope := inside.scope.leave, parts := p.parts ++ parts }

/-- How deep rules, imports and mixins may nest. -/
def nestingLimit : Nat := 512

/-- Rules that only speak to the author of a sheet, or to its reader as a file. -/
def silentRules : List String := ["charset", "debug", "warn"]

/-- Rules that are not known here. -/
def unknownRules : List String :=
  ["if", "else", "for", "each", "while", "function", "return", "extend", "at-root", "error"]

/-- Compiles items at a place; `fuel` bounds the nesting. -/
def compileItems? (tree : FileTree) : Nat → Place → Progress → List Item → Option Progress
  | 0, _, _, _ => none
  | fuel + 1, place, start, items =>
    items.foldlM (fun (p : Progress) item =>
      let lookup := p.scope.lookup
      let compileInside (place : Place) (body : List Item) : Option Progress :=
        compileItems? tree fuel place { scope := p.scope.enter } body
      match item with
      | .binding name value => (p.scope.bind? name value).map fun scope => { p with scope }
      | .remark text => do
        let text ← fill? lookup text
        if place.holdsDeclarations then pure { p with lines := p.lines ++ [.remark text] }
        else pure { p with parts := p.parts ++ [.remark text] }
      | .declaration property value => do
        if !place.holdsDeclarations then none
        let property ← fill? lookup property
        if isCustom property then
          let text ← fill? lookup value
          pure { p with lines := p.lines ++ [.declaration property text] }
        else
          let value ← valueOf? lookup value
          if value.isHidden then pure p
          else pure { p with lines := p.lines ++ [.declaration property (← value.text?)] }
      | .family property body => do
        if !place.holdsDeclarations then none
        let property ← fill? lookup property
        let inside ← compileInside place body
        let lines := inside.lines.map fun line =>
          match line with
          | .declaration name value => .declaration (property ++ "-" ++ name) value
          | line => line
        pure { p.after inside inside.parts with lines := p.lines ++ lines }
      | .rule selector body => do
        let selectors ← nest? place.selectors (← fill? lookup selector)
        let inside ← compileInside { place with selectors, holdsDeclarations := true } body
        pure (p.after inside (styleOf selectors inside.lines ++ inside.parts))
      | .atRule "import" params _ =>
        (importTargets params).foldlM (fun (p : Progress) target =>
          match target with
          | .address text => some { p with parts := p.parts ++ [.load text] }
          | .sheet name => do
            let (folder, items) ← loadSheet? tree place.folders name
            let folders := folder :: place.folders.drop (place.folders.length - 1)
            compileItems? tree fuel { place with folders } p items) p
      | .atRule "mixin" params (some body) =>
        let (name, list) := splitCall params
        let mixins := (name, ⟨paramsOf list, body⟩) :: p.scope.mixins
        some { p with scope := { p.scope with mixins } }
      | .atRule "include" params body => do
        let (name, list) := splitCall params
        let mixin ← p.scope.mixins.lookup name
        let outside : Scope := { p.scope with blocks := [] }
        let names ← bindParams? outside mixin.params (← argsOf? lookup list) []
        let inside ← compileItems? tree fuel { place with content := body.getD [] }
          { p with scope := outside.enter names } mixin.body
        pure { inside with scope := { p.scope with globals := inside.scope.globals } }
      | .atRule "content" _ none =>
        compileItems? tree fuel { place with content := [] } p place.content
      | .atRule "media" params (some body) => do
        let queries ← mergeQueries? place.queries (← mediaQueries? lookup params)
        let inside ← compileInside { place with queries } body
        let parts := styleOf place.selectors inside.lines ++ inside.parts
        pure (p.after inside (wrapMedia queries parts))
      | .atRule "supports" params (some body) => do
        let header := "@supports " ++ (← fill? lookup params)
        let inside ← compileInside place body
        let parts := styleOf place.selectors inside.lines ++ inside.parts
        pure (p.after inside (if parts.isEmpty then [] else [.block header [] parts]))
      | .atRule keyword params body => do
        if unknownRules.contains keyword then none
        if silentRules.contains keyword then pure p
        else
          let params ← fill? lookup params
          let header := "@" ++ keyword ++ (if params.isEmpty then "" else " " ++ params)
          let place := { place with selectors := [], holdsDeclarations := true }
          let inside ← compileInside place (← body)
          pure (p.after inside [.block header inside.lines inside.parts])) start

/-- The text of a sheet in a folder, compiled. -/
def compile? (tree : FileTree) (folder : Path) (indented : Bool) (text : String) :
    Option String := do
  if text.isEmpty then none
  let text := if text.toList.head? == some byteOrderMark then dropFirst 1 text else text
  let items ← readSheet indented text
  let done ← compileItems? tree nestingLimit { folders := [folder] } {} items
  pure (sheetText done.parts)

end Trellis.Style
