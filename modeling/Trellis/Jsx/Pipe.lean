import Trellis.Text.Blank
import Trellis.Text.Cut
import Trellis.Text.Letter
import Trellis.Diagnostic
import Trellis.Registry

/-!
# Pipe chains

`value | name:arg1:arg2 | other` passes a value through named functions. A chain is split at the
bars outside quotes (a doubled bar is the operator and splits nothing), and compiled to nested
calls from left to right.

* `parse` takes a chain apart into its value and its calls.
* `compile` folds the calls over the value. Built-in pipes win over registered ones; a name that
  is neither is emitted as a call of that name, with a warning.
-/

namespace Trellis.Jsx.Pipe

open Trellis.Text

/-- One pipe of a chain: its name, empty if the segment is, and its arguments. -/
structure Call where
  name : String
  args : List String
  deriving DecidableEq, Repr

/-! ## Taking a chain apart -/

/-- A quote character that is not escaped by the character before it. -/
def isLiveQuote (prev : Option Char) (c : Char) : Bool :=
  (c == '"' || c == '\x27') && prev != some '\\'

/-- The quote that is open after `c`. -/
def nextQuote (prev quote : Option Char) (c : Char) : Option Char :=
  if isLiveQuote prev c then
    if quote = some c then none else if quote = none then some c else quote
  else
    quote

/-- Puts characters at the start of the first piece. -/
def extendFirst (cs : List Char) : List (List Char) → List (List Char)
  | [] => [cs]
  | piece :: pieces => (cs ++ piece) :: pieces

/-- The pieces between single bars outside quotes. -/
def cutBars : Option Char → Option Char → List Char → List (List Char)
  | _, _, [] => [[]]
  | _, none, '|' :: '|' :: cs => extendFirst ['|', '|'] (cutBars (some '|') none cs)
  | _, none, '|' :: cs => [] :: cutBars (some '|') none cs
  | prev, quote, c :: cs => extendFirst [c] (cutBars (some c) (nextQuote prev quote c) cs)

/-- The segments of a chain. -/
def split (expression : String) : List String :=
  (cutBars none none expression.toList).map fun piece => String.ofList (stripChars piece)

/-- The pieces between colons outside quotes. -/
def cutColons : Option Char → Option Char → List Char → List (List Char)
  | _, _, [] => [[]]
  | _, none, ':' :: cs => [] :: cutColons (some ':') none cs
  | prev, quote, c :: cs => extendFirst [c] (cutColons (some c) (nextQuote prev quote c) cs)

/-- The name and the arguments of a segment; blank pieces do not count. -/
def splitArgs (segment : String) : List String :=
  ((cutColons none none segment.toList).map stripChars).filterMap fun piece =>
    if piece.isEmpty then none else some (String.ofList piece)

/-- The call that a segment denotes. -/
def callOf (segment : String) : Call :=
  match splitArgs segment with
  | [] => ⟨"", []⟩
  | name :: args => ⟨name, args⟩

/-- The value of a chain and its calls in order. -/
def parse (expression : String) : String × List Call :=
  match split expression with
  | [] => ("", [])
  | value :: segments => (value, segments.map callOf)

/-! ## Parentheses -/

/-- A word character or a dollar sign. -/
def isNameChar (c : Char) : Bool := isWordChar c || c == '$'

/-- A name with member accesses, index brackets and call parentheses, but no operator. -/
def isSimpleValue (cs : List Char) : Bool :=
  match beforeFinalBreak cs with
  | [] => false
  | c :: cs =>
    isNameChar c && cs.all fun c => isNameChar c || ['.', '[', ']', '(', ')'].contains c

/-- A text in one pair of parentheses, with no closing one inside. -/
def isParenthesised (cs : List Char) : Bool :=
  match beforeFinalBreak cs with
  | '(' :: rest =>
    rest.getLast? == some ')' && 2 ≤ rest.length && !rest.dropLast.contains ')'
  | _ => false

/-- The operators that call for parentheses. -/
def operators : List String :=
  ["+", "-", "*", "/", "%", "&&", "||", "?", ":", "<", ">", "=", "!"]

/-- The value has to stand in parentheses where a single operand is needed. -/
def needsParens (value : String) : Bool :=
  !isSimpleValue value.toList && !isParenthesised value.toList && operators.any (occurs · value)

/-- The value as a single operand. -/
def operand (value : String) : String := if needsParens value then "(" ++ value ++ ")" else value

/-! ## Built-in pipes -/

/-- The pipes that the compiler itself knows. -/
inductive BuiltIn where
  | uppercase
  | lowercase
  | titlecase
  | json
  | async
  | slice
  | currency
  | date
  | number
  | percent
  | default
  deriving DecidableEq, Repr

/-- The built-in pipe of a given name. -/
def BuiltIn.ofName? (name : String) : Option BuiltIn :=
  [("uppercase", .uppercase), ("lowercase", .lowercase), ("titlecase", .titlecase),
    ("json", .json), ("async", .async), ("slice", .slice), ("currency", .currency),
    ("date", .date), ("number", .number), ("percent", .percent), ("default", .default)].lookup name

/-- A call of a function. -/
def callText (name value : String) (args : List String) : String :=
  name ++ "(" ++ ", ".intercalate (value :: args) ++ ")"

/-- The code of a built-in pipe. -/
def BuiltIn.render (p : BuiltIn) (value : String) (args : List String) : String :=
  match p with
  | .uppercase => value ++ ".toUpperCase()"
  | .lowercase => value ++ ".toLowerCase()"
  | .titlecase => callText "toTitleCase" value []
  | .json => callText "JSON.stringify" value []
  | .async => callText "asyncPipe" value []
  | .slice => value ++ ".slice(" ++ ", ".intercalate (args.take 2) ++ ")"
  | .currency => callText "formatCurrency" value (args.take 1)
  | .date => callText "formatDate" value (args.take 1)
  | .number =>
    if args.isEmpty then callText "Number" value [] else callText "formatNumber" value (args.take 1)
  | .percent => callText "formatPercent" value []
  | .default => "(" ++ value ++ " ?? " ++ args.headD "''" ++ ")"

/-- The runtime function that the code of a built-in pipe calls, if any. -/
def BuiltIn.helper? (p : BuiltIn) (args : List String) : Option String :=
  match p with
  | .titlecase => some "toTitleCase"
  | .async => some "asyncPipe"
  | .currency => some "formatCurrency"
  | .date => some "formatDate"
  | .number => if args.isEmpty then none else some "formatNumber"
  | .percent => some "formatPercent"
  | _ => none

/-! ## Compiling a chain -/

/-- A compiled expression, the registered pipes and runtime functions it uses, each once in
first-use order, and the warnings. -/
structure Outcome where
  text : String
  used : List String := []
  helpers : List String := []
  warnings : List Warning := []
  deriving DecidableEq, Repr

/-- The list with an element added at its end, unless it is there. -/
def addOnce (xs : List String) (x : String) : List String :=
  if xs.contains x then xs else xs ++ [x]

/-- Passes the compiled text through one more pipe of the chain `source`. -/
def applyCall (registry : Option PipeRegistry) (source : String) (o : Outcome) (c : Call) :
    Outcome :=
  if c.name.isEmpty then
    { o with warnings := o.warnings ++
        [⟨.emptyPipeName, "Empty pipe name in expression '" ++ source ++ "'", .warning⟩] }
  else
    match BuiltIn.ofName? c.name with
    | some p =>
      { o with
        text := p.render (operand o.text) c.args
        helpers := (p.helper? c.args).elim o.helpers (addOnce o.helpers) }
    | none =>
      match registry.bind (·.get? c.name) with
      | some entry =>
        { o with text := callText entry.functionName o.text c.args, used := addOnce o.used c.name }
      | none =>
        { o with
          text := callText c.name o.text c.args
          warnings := o.warnings ++
            [⟨.unknownPipe,
              "Unknown pipe '" ++ c.name ++ "'; emitted as a call to " ++ c.name ++ "()",
              .warning⟩] }

/-- Compiles a pipe chain. -/
def compile (registry : Option PipeRegistry) (expression : String) : Outcome :=
  let source := strip expression
  let (value, calls) := parse source
  calls.foldl (applyCall registry source) { text := value }

end Trellis.Jsx.Pipe
