import Trellis.Text.Blank
import Trellis.Text.Cut

/-!
# Style sheets

The items of a style sheet: variables, declarations, rules that nest, rules that start with an at
sign, and remarks that are kept. A sheet is written with braces or by indentation; both readers give
the same items, with their texts still to be computed.

* `readBraced` refuses blocks and remarks that are not closed.
* `readIndented` takes a line's deeper lines as its block, and refuses braces and semicolons.
-/

namespace Trellis.Style

open Trellis.Text

/-- An item of a style sheet. -/
inductive Item where
  /-- A variable is given a value. -/
  | binding (name value : String)
  | declaration (property value : String)
  /-- A remark that is kept. -/
  | remark (text : String)
  | rule (selector : String) (body : List Item)
  /-- Declarations whose properties start alike. -/
  | family (property : String) (body : List Item)
  /-- A rule that starts with an at sign, with a block or without one. -/
  | atRule (keyword params : String) (body : Option (List Item))

/-! ## Heads -/

/-- What the characters before a place have opened. -/
inductive Opened where
  | nothing
  | quote (delimiter : Char)
  /-- An address, up to its closing parenthesis. -/
  | address
  | remark
  /-- A remark that ends with its line. -/
  | lineRemark
  deriving DecidableEq, Repr

/-- What ends a head. -/
def endsHead (c : Char) : Bool := c == ';' || c == '\x7b' || c == '\x7d'

/-- The characters up to the one that ends a head, without remarks that end with their line.
`braces` counts open interpolations, `depth` open parentheses. -/
def spanHead : Opened → Nat → Nat → List Char → List Char × List Char
  | _, _, _, [] => ([], [])
  | .quote q, braces, depth, '\\' :: c :: cs =>
    let (head, rest) := spanHead (.quote q) braces depth cs
    ('\\' :: c :: head, rest)
  | .quote q, braces, depth, c :: cs =>
    let (head, rest) := spanHead (if c == q then .nothing else .quote q) braces depth cs
    (c :: head, rest)
  | .address, braces, depth, c :: cs =>
    let (head, rest) := spanHead (if c == ')' then .nothing else .address) braces depth cs
    (c :: head, rest)
  | .remark, braces, depth, '*' :: '/' :: cs =>
    let (head, rest) := spanHead .nothing braces depth cs
    ('*' :: '/' :: head, rest)
  | .remark, braces, depth, c :: cs =>
    let (head, rest) := spanHead .remark braces depth cs
    (c :: head, rest)
  | .lineRemark, braces, depth, c :: cs =>
    if c == '\n' then
      let (head, rest) := spanHead .nothing braces depth cs
      (c :: head, rest)
    else spanHead .lineRemark braces depth cs
  | .nothing, braces, depth, '/' :: '/' :: cs => spanHead .lineRemark braces depth cs
  | .nothing, braces, depth, '/' :: '*' :: cs =>
    let (head, rest) := spanHead .remark braces depth cs
    ('/' :: '*' :: head, rest)
  | .nothing, braces, depth, '#' :: '\x7b' :: cs =>
    let (head, rest) := spanHead .nothing (braces + 1) depth cs
    ('#' :: '\x7b' :: head, rest)
  | .nothing, braces, depth, 'u' :: 'r' :: 'l' :: '(' :: cs =>
    let (head, rest) := spanHead .address braces depth cs
    ('u' :: 'r' :: 'l' :: '(' :: head, rest)
  | .nothing, braces, depth, c :: cs =>
    if braces == 0 && depth == 0 && endsHead c then ([], c :: cs)
    else
      let opened := if c == '"' || c == '\x27' then Opened.quote c else .nothing
      let braces := if c == '\x7d' then braces - 1 else braces
      let depth := if c == '(' then depth + 1 else if c == ')' then depth - 1 else depth
      let (head, rest) := spanHead opened braces depth cs
      (c :: head, rest)

/-- The characters with every remark as a blank; `inRemark` says that a remark is open. -/
def blankRemarks (inRemark : Bool) : List Char → List Char
  | [] => []
  | '/' :: '*' :: cs => blankRemarks true cs
  | '*' :: '/' :: cs =>
    if inRemark then ' ' :: blankRemarks false cs else '*' :: '/' :: blankRemarks false cs
  | c :: cs => if inRemark then blankRemarks true cs else c :: blankRemarks false cs

/-- A text without remarks and without blanks around it. -/
def bareText (cs : List Char) : String := String.ofList (stripChars (blankRemarks false cs))

/-! ## Statements -/

/-- A property whose values are taken as they are written. -/
def isCustom (property : String) : Bool := hasStart property "--"

/-- A character that the name of a property can have. -/
def isPropertyPart (c : Char) : Bool :=
  c.isAlphanum || 127 < c.toNat || ['-', '_', '*', '\\', '#', '\x7b', '\x7d', '$'].contains c

/-- A name and a value, neither empty, on both sides of the first colon. -/
def splitColon? (cs : List Char) : Option (String × String) := do
  let (name, value) ← breakAt? [':'] cs
  let name := bareText name
  let value := if isCustom name then value else stripChars value
  if name.isEmpty || value.isEmpty then none else some (name, String.ofList value)

/-- The keyword and the rest of a rule that starts with an at sign. -/
def splitKeyword (cs : List Char) : String × String :=
  let keyword := cs.takeWhile fun c => c.isAlphanum || c == '-' || c == '_'
  (String.ofList keyword, bareText (cs.drop keyword.length))

/-- The item of a head without a block. -/
def statement? (head : List Char) : Option Item :=
  match head with
  | '$' :: cs => (splitColon? cs).map fun (name, value) => .binding name value
  | '@' :: cs => some (.atRule (splitKeyword cs).1 (splitKeyword cs).2 none)
  | cs => do
    let (property, value) ← splitColon? cs
    if property.toList.all isPropertyPart then pure (.declaration property value) else none

/-- The item of a head with a block. -/
def block? (head : List Char) (body : List Item) : Option Item :=
  match head with
  | '@' :: cs => some (.atRule (splitKeyword cs).1 (splitKeyword cs).2 (some body))
  | cs =>
    let text := bareText cs
    if text.isEmpty then none
    else if hasEnd text ":" then some (.family (strip (dropLast 1 text)) body)
    else some (.rule text body)

/-! ## Sheets with braces -/

/-- A remark that is kept starts with an exclamation mark. -/
def keptRemark (inside : List Char) : List Item :=
  if inside.head? == some '!' then [.remark ("/*" ++ String.ofList inside ++ "*/")] else []

/-- Reads items up to the end of the sheet or, in a block, up to the closing brace, and gives what
follows it. `fuel` bounds the number of items. -/
def readBlock : Nat → Bool → List Char → Option (List Item × List Char)
  | 0, _, _ => none
  | fuel + 1, inBlock, cs =>
    match cs.dropWhile fun c => isBlank c || c == ';' with
    | [] => if inBlock then none else some ([], [])
    | '\x7d' :: rest => if inBlock then some ([], rest) else none
    | '/' :: '/' :: rest => readBlock fuel inBlock (rest.dropWhile (· != '\n'))
    | '/' :: '*' :: rest => do
      let (inside, rest) ← breakAt? ['*', '/'] rest
      let (items, rest) ← readBlock fuel inBlock rest
      pure (keptRemark inside ++ items, rest)
    | cs =>
      let (head, rest) := spanHead .nothing 0 0 cs
      let head := stripChars head
      match rest with
      | '\x7b' :: rest => do
        let (body, rest) ← readBlock fuel true rest
        let item ← block? head body
        let (items, rest) ← readBlock fuel inBlock rest
        pure (item :: items, rest)
      | _ => do
        let item ← statement? head
        let (items, rest) ← readBlock fuel inBlock rest
        pure (item :: items, rest)

/-- Reads a sheet with braces. -/
def readBraced (text : String) : Option (List Item) :=
  (readBlock (text.length + 1) false text.toList).map (·.1)

/-! ## Sheets by indentation -/

/-- A line: how far it is indented, and its characters. -/
structure Line where
  depth : Nat
  text : List Char
  deriving DecidableEq, Repr

/-- The lines of a sheet that are not blank. -/
def sheetLines (text : String) : List Line :=
  (splitAtEach (· == '\n') text.toList).filterMap fun line =>
    let body := stripChars line
    if body.isEmpty then none else some ⟨(line.takeWhile isBlank).length, body⟩

/-- The lines with those that end with a comma joined to the next one. -/
def joinLines : List Line → List Line
  | [] => []
  | line :: rest =>
    match joinLines rest with
    | [] => [line]
    | next :: others =>
      if line.text.getLast? == some ',' then
        ⟨line.depth, line.text ++ ' ' :: next.text⟩ :: others
      else line :: next :: others

/-- A line that defines or includes a mixin has a short form. -/
def longForm : List Char → List Char
  | '=' :: cs => "@mixin ".toList ++ cs
  | '+' :: cs => "@include ".toList ++ cs
  | cs => cs

/-- The characters of a line without a remark at its end; none if it has a sign of the other way of
writing. -/
def lineHead? (cs : List Char) : Option (List Char) :=
  match spanHead .nothing 0 0 cs with
  | (head, []) => some (longForm (stripChars head))
  | _ => none

/-- The remark of a line and the lines below it. -/
def lineRemark (cs : List Char) (deeper : List Line) : List Item :=
  match cs with
  | '/' :: '*' :: cs =>
    let text := ['\n'].intercalate (cs :: deeper.map (·.text))
    let inside := ((breakAt? ['*', '/'] text).map (·.1)).getD (text ++ [' '])
    keptRemark inside
  | _ => []

/-- Reads lines. A line with deeper lines below it has a block; a single line that is no statement
is passed over outside of all blocks. `fuel` bounds the number of lines. -/
def readLines : Nat → Bool → List Line → Option (List Item)
  | 0, _, _ => none
  | _, _, [] => some []
  | fuel + 1, inBlock, line :: rest => do
    let deeper := rest.takeWhile (line.depth < ·.depth)
    let following ← readLines fuel inBlock (rest.drop deeper.length)
    if ['/', '/'].isPrefixOf line.text || ['/', '*'].isPrefixOf line.text then
      pure (lineRemark line.text deeper ++ following)
    else
      let head ← lineHead? line.text
      if !deeper.isEmpty then
        let body ← readLines fuel true deeper
        pure ((← block? head body) :: following)
      else
        match statement? head with
        | some item => pure (item :: following)
        | none => if inBlock then none else pure following

/-- Reads a sheet by indentation. -/
def readIndented (text : String) : Option (List Item) :=
  let ls := joinLines (sheetLines text)
  readLines (ls.length + 1) false ls

end Trellis.Style
