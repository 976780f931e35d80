import Trellis.Text.Blank
import Trellis.Text.Cut
import Trellis.Text.Letter
import Trellis.Diagnostic
import Trellis.Jsx.Pipe

/-!
# Loops and conditions

The directives `*for`, `*if` and `*else`.

* `Loop.parse` reads `let item of items; index as i; trackBy: item.id`. The clauses after the
  iterable may come in any order, and of repeated ones the last counts.
* `Loop.mapText` is the loop over an element, `conditionText` the element under a condition.
-/

namespace Trellis.Jsx

open Trellis.Text

/-- A loop: the item variable, what it ranges over, and the index variable and key, if given. -/
structure Loop where
  item : String
  iterable : String
  index : Option String := none
  trackBy : Option String := none
  deriving DecidableEq, Repr

namespace Loop

/-! ## Pieces of the grammar -/

/-- A non-empty run of word characters, and the rest. -/
def word? (cs : List Char) : Option (List Char × List Char) :=
  match cs.takeWhile isWordChar with
  | [] => none
  | w => some (w, cs.dropWhile isWordChar)

/-- The rest after a non-empty run of white space. -/
def gap? (cs : List Char) : Option (List Char) :=
  match cs with
  | c :: cs => if isBlank c then some (cs.dropWhile isBlank) else none
  | [] => none

/-- The rest after a fixed word. -/
def literal? (lit : String) (cs : List Char) : Option (List Char) :=
  if lit.toList.isPrefixOf cs then some (cs.drop lit.toList.length) else none

/-- `item KEYWORD` and the white space after it: the item and the rest. -/
def headWith? (keyword : String) (cs : List Char) : Option (List Char × List Char) := do
  let (item, cs) ← word? cs
  let cs ← gap? cs
  let cs ← literal? keyword cs
  let cs ← gap? cs
  pure (item, cs)

/-- The rest after `let` and the white space after it. -/
def afterLet? (cs : List Char) : Option (List Char) := do
  let cs ← literal? "let" cs
  gap? cs

/-- `let item` and nothing else. -/
def isBareLet (cs : List Char) : Bool :=
  match (afterLet? cs).bind word? with
  | some (_, rest) => rest.all isBlank
  | none => false

/-- `item in …`, with or without `let`. -/
def usesIn (cs : List Char) : Bool :=
  ((afterLet? cs).bind (headWith? "in")).isSome || (headWith? "in" cs).isSome

/-! ## Clauses -/

/-- What a clause after the iterable says. -/
inductive Clause where
  | index (variableName : String)
  | trackBy (key : String)
  | unknown (text : String)
  deriving DecidableEq, Repr

/-- `index as i`. -/
def indexAs? (cs : List Char) : Option String := do
  let cs ← literal? "index" cs
  let cs ← gap? cs
  let cs ← literal? "as" cs
  let cs ← gap? cs
  let (w, rest) ← word? cs
  if rest.isEmpty then some (String.ofList w) else none

/-- `let i = index`. -/
def letIndex? (cs : List Char) : Option String := do
  let cs ← afterLet? cs
  let (w, cs) ← word? cs
  let cs ← literal? "=" (cs.dropWhile isBlank)
  let cs ← literal? "index" (cs.dropWhile isBlank)
  if cs.isEmpty then some (String.ofList w) else none

/-- `trackBy: key`, the key on one line. -/
def trackBy? (cs : List Char) : Option String := do
  let cs ← literal? "trackBy" cs
  let cs ← literal? ":" (cs.dropWhile isBlank)
  let key := cs.dropWhile isBlank
  if key.isEmpty || key.contains '\n' then none else some (String.ofList (stripChars key))

/-- What a clause says; the clause has no white space at its ends. -/
def Clause.ofChars (cs : List Char) : Clause :=
  match (indexAs? cs).orElse fun _ => letIndex? cs with
  | some i => .index i
  | none =>
    match trackBy? cs with
    | some key => .trackBy key
    | none => .unknown (String.ofList cs)

/-- The warning about a loop. -/
def malformed (message : String) : Warning :=
  ⟨.malformedFor, "*for directive " ++ message, .warning⟩

/-- Adds a clause to a loop. -/
def addClause (acc : Loop × List Warning) (c : Clause) : Loop × List Warning :=
  match c with
  | .index i => ({ acc.1 with index := some i }, acc.2)
  | .trackBy key => ({ acc.1 with trackBy := some key }, acc.2)
  | .unknown text =>
    (acc.1, acc.2 ++ [malformed ("has unknown clause: \"" ++ text ++ "\". " ++
      "Valid clauses: \"index as <var>\", \"let <var> = index\", \"trackBy: <expr>\"")])

/-- The clauses after the iterable; blank ones do not count. -/
def clausesOf (cs : List Char) : List Clause :=
  (((splitAtEach (· == ';') cs).map stripChars).filter (!·.isEmpty)).map Clause.ofChars

/-! ## Whole expressions -/

/-- What is wrong with an expression that has no loop head. -/
def headProblem (text : String) : Warning :=
  let got := "Expected: *for=\"let item of items\", got: *for=\"" ++ text ++ "\""
  if usesIn text.toList then malformed ("uses 'in' instead of 'of'. " ++ got)
  else if isBareLet text.toList then malformed ("missing 'of' clause. " ++ got)
  else malformed ("has invalid syntax. " ++ got)

/-- The loop with a given head and the text after `of`. -/
def ofHead (item rest : List Char) (warnings : List Warning) : Option Loop × List Warning :=
  let iterable := stripChars (rest.takeWhile (· != ';'))
  if iterable.isEmpty then (none, warnings ++ [malformed "has empty iterable expression"])
  else
    let (loop, warnings) := (clausesOf (rest.dropWhile (· != ';'))).foldl addClause
      ({ item := String.ofList item, iterable := String.ofList iterable }, warnings)
    (some loop, warnings)

/-- Reads a loop; nothing if the expression cannot be used. -/
def parse (expression : String) : Option Loop × List Warning :=
  let text := strip expression
  let cs := text.toList
  if cs.isEmpty then (none, [⟨.emptyFor, "*for directive has empty expression", .warning⟩])
  else
    match (afterLet? cs).bind (headWith? "of") with
    | some (item, rest) => ofHead item rest []
    | none =>
      match headWith? "of" cs with
      | some (item, rest) =>
        let iterable := String.ofList (stripChars (rest.takeWhile (· != ';')))
        ofHead item rest [malformed ("is missing 'let' keyword. Expected: *for=\"let " ++
          String.ofList item ++ " of " ++ iterable ++ "\"")]
      | none => (none, [headProblem text])

/-- The key of an element in the loop: the given one, else the index, else the item. -/
def key (l : Loop) : String := (l.trackBy.orElse fun _ => l.index).getD l.item

/-- The loop over an element, without braces. -/
def mapText (l : Loop) (element : String) : String :=
  let params :=
    match l.index with
    | some i => "(" ++ l.item ++ ", " ++ i ++ ": number)"
    | none => "(" ++ l.item ++ ")"
  Pipe.operand l.iterable ++ ".map(" ++ params ++ " => " ++ element ++ ")"

end Loop

/-- The element under a condition, without braces: itself or nothing, or itself or the component
`otherwise`. -/
def conditionText (element condition : String) (otherwise : Option String) : String :=
  let test := Pipe.operand (strip condition)
  match otherwise with
  | none => test ++ " && " ++ element
  | some other =>
    if other.isEmpty then test ++ " && " ++ element
    else test ++ " ? " ++ element ++ " : <" ++ strip other ++ " />"

end Trellis.Jsx
