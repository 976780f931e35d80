import Trellis.Style.Function
import Trellis.Style.Word

/-!
# Expressions of style sheets

Values are computed while they are read. From the loosest to the tightest, a value is a list with
commas, a list with blanks, a sum, a product, and a single operand.

* `valueOf?` is the value of a declaration; a plain value stays as it is written.
* `fill?` puts the values of interpolations into text.

All readers have a `fuel` argument that bounds the number of steps.
-/

namespace Trellis.Style

open Trellis.Text

/-- The values of the names in sight. -/
abbrev Lookup := String → Option Value

/-- The name of a variable; hyphens and underscores do not differ. -/
def variableKey (name : String) : String := replaceAll name "_" "-"

/-- An operand, and whether it is written out. -/
structure Operand where
  value : Value
  literal : Bool := false

/-- The operand as an item of its own. -/
def Operand.settle? (o : Operand) : Option Value := o.value.settle?

/-- Joins two operands. A slash between two that are written out stays. -/
def Operand.join? (op : Value.Operator) (left right : Operand) : Option Operand :=
  if op == .slash && left.literal && right.literal then some ⟨.ratio left.value right.value, false⟩
  else do
    let value ← Value.join? op (← left.settle?) (← right.settle?)
    pure ⟨value, false⟩

/-- The flags of an assignment. -/
def assignmentFlags : List String := ["!default", "!global"]

/-- Nothing more of a value follows. -/
def isDone (cs : List Char) : Bool :=
  match cs with
  | [] => true
  | c :: _ =>
    [',', ')', ']', ':', ';', '\x7b', '\x7d'].contains c ||
      assignmentFlags.any fun flag => flag.toList.isPrefixOf cs

/-- The operator of a product at the start. -/
def productSign? : List Char → Option (Value.Operator × List Char)
  | '*' :: cs => some (.times, cs)
  | '/' :: cs => some (.slash, cs)
  | '%' :: cs => some (.percent, cs)
  | _ => none

/-- The operator of a sum after a gap, or without one; `inSum` says that a sum has begun. A hyphen
before a name, or between a gap and a number, is part of the next item. -/
def sumSign? (inSum hasGap : Bool) : List Char → Option (Value.Operator × List Char)
  | '+' :: cs => some (.plus, cs)
  | '-' :: cs =>
    let isName := (name? ('-' :: cs)).isSome
    let isItem := if hasGap then (digits? cs).isSome else cs.head?.any isBlank
    if isName || (!inSum && isItem) then none else some (.minus, cs)
  | _ => none

/-- The text of a quoted text: an escape stands for its character or, in hexadecimal, for the
character with that number. -/
def unescape : Nat → List Char → List Char
  | 0, cs => cs
  | _, [] => []
  | fuel + 1, '\\' :: cs =>
    let digits := cs.takeWhile fun c => (Colour.digit? c).isSome
    if digits.isEmpty then
      match cs with
      | c :: cs => c :: unescape fuel cs
      | [] => []
    else
      let n := (digits.filterMap Colour.digit?).foldl (fun n d => 16 * n + d) 0
      let rest := cs.drop digits.length
      let rest := if rest.head? == some ' ' then rest.tail else rest
      (if n == 0 then Char.ofNat 0xFFFD else Char.ofNat n) :: unescape fuel rest
  | fuel + 1, c :: cs => c :: unescape fuel cs

/-- The characters up to the parenthesis that closes the one already read, and what follows it. -/
def untilClosed : Nat → List Char → Option (List Char × List Char)
  | _, [] => none
  | depth, c :: cs =>
    if c == ')' && depth == 0 then some ([], cs)
    else
      let depth := if c == '(' then depth + 1 else if c == ')' then depth - 1 else depth
      (untilClosed depth cs).map fun (text, rest) => (c :: text, rest)

/-- A function takes its argument, which starts with the characters, as it is written. -/
def isVerbatim (name : String) (cs : List Char) : Bool :=
  let isQuoted := (cs.dropWhile isBlank).head?.any fun c => c == '"' || c == '\x27'
  (lower name == "url" && !isQuoted) || hasEnd (lower name) "calc" || lower name == "expression"

/-- The number of characters of a run of names, numbers and interpolations. -/
def runLength : Nat → List Char → Nat
  | _, [] => 0
  | 0, '#' :: '\x7b' :: cs => 2 + runLength 1 cs
  | 0, c :: cs => if isNamePart c || c == '.' || c == '%' then 1 + runLength 0 cs else 0
  | depth + 1, c :: cs => 1 + runLength (if c == '\x7d' then depth else depth + 1) cs

mutual

/-- A list with commas. -/
def readCommas (lookup : Lookup) : Nat → List Char → Option (Operand × List Char)
  | 0, _ => none
  | fuel + 1, cs => do
    let cs := skipGap false cs
    if isDone cs then pure (⟨.list .blank false [], false⟩, cs)
    else
      let (first, rest) ← readBlanks lookup fuel cs
      if rest.head? == some ',' then
        let (items, rest) ← readMore lookup fuel rest
        pure (⟨.list .comma false (first.value :: items), false⟩, rest)
      else pure (first, rest)

/-- The items of a list after its first comma. -/
def readMore (lookup : Lookup) : Nat → List Char → Option (List Value × List Char)
  | 0, _ => none
  | fuel + 1, cs =>
    match cs with
    | ',' :: cs => do
      let cs := skipGap false cs
      if isDone cs && cs.head? != some ',' then pure ([], cs)
      else
        let (item, rest) ← readBlanks lookup fuel cs
        let (items, rest) ← readMore lookup fuel rest
        pure (item.value :: items, rest)
    | cs => pure ([], cs)

/-- A list with blanks; a single item is no list. -/
def readBlanks (lookup : Lookup) : Nat → List Char → Option (Operand × List Char)
  | 0, _ => none
  | fuel + 1, cs => do
    let (first, rest) ← readSum lookup fuel cs
    let rest := skipGap false rest
    if isDone rest then pure (first, rest)
    else
      let (items, rest) ← readItems lookup fuel rest
      pure (⟨.list .blank false (first.value :: items), false⟩, rest)

/-- The items of a list with blanks. -/
def readItems (lookup : Lookup) : Nat → List Char → Option (List Value × List Char)
  | 0, _ => none
  | fuel + 1, cs => do
    let (item, rest) ← readSum lookup fuel cs
    let rest := skipGap false rest
    if isDone rest then pure ([item.value], rest)
    else
      let (items, rest) ← readItems lookup fuel rest
      pure (item.value :: items, rest)

/-- A sum. -/
def readSum (lookup : Lookup) : Nat → List Char → Option (Operand × List Char)
  | 0, _ => none
  | fuel + 1, cs => do
    let (left, rest) ← readProduct lookup fuel cs
    readTerms lookup fuel false left rest

/-- The terms after the first one of a sum. -/
def readTerms (lookup : Lookup) :
    Nat → Bool → Operand → List Char → Option (Operand × List Char)
  | 0, _, _, _ => none
  | fuel + 1, inSum, left, cs =>
    let rest := skipGap false cs
    match sumSign? inSum (rest.length < cs.length) rest with
    | none => some (left, cs)
    | some (op, rest) => do
      let (right, rest) ← readProduct lookup fuel rest
      readTerms lookup fuel true (← left.join? op right) rest

/-- A product. -/
def readProduct (lookup : Lookup) : Nat → List Char → Option (Operand × List Char)
  | 0, _ => none
  | fuel + 1, cs => do
    let (left, rest) ← readOperand lookup fuel cs
    readFactors lookup fuel left rest

/-- The factors after the first one of a product. -/
def readFactors (lookup : Lookup) : Nat → Operand → List Char → Option (Operand × List Char)
  | 0, _, _ => none
  | fuel + 1, left, cs =>
    match productSign? (skipGap false cs) with
    | none => some (left, cs)
    | some (op, rest) => do
      let (right, rest) ← readOperand lookup fuel rest
      readFactors lookup fuel (← left.join? op right) rest

/-- A single operand. -/
def readOperand (lookup : Lookup) : Nat → List Char → Option (Operand × List Char)
  | 0, _ => none
  | fuel + 1, cs =>
    let cs := skipGap false cs
    let run := cs.take (runLength 0 cs)
    if (breakAt? ['#', '\x7b'] run).isSome then do
      let text ← fillFrom lookup fuel run
      pure (⟨.word (String.ofList text), false⟩, cs.drop run.length)
    else
      match cs with
      | '(' :: rest => do
        let (inside, rest) ← readCommas lookup fuel rest
        match rest with
        | ')' :: rest => pure (⟨← inside.settle?, false⟩, rest)
        | _ => none
      | '[' :: rest => do
        let (inside, rest) ← readCommas lookup fuel rest
        let value := match inside.value with
          | .list separator false items => .list separator true items
          | v => .list .blank true [v]
        match rest with
        | ']' :: rest => pure (⟨value, false⟩, rest)
        | _ => none
      | '$' :: rest => do
        let (name, rest) ← name? rest
        let value ← lookup (variableKey (String.ofList name))
        pure (⟨← value.settle?, false⟩, rest)
      | '#' :: rest =>
        let digits := rest.takeWhile fun c => (Colour.digit? c).isSome
        match Colour.ofHex? digits with
        | some c =>
          if (rest.drop digits.length).head?.any isNamePart then none
          else some (⟨.colour c, true⟩, rest.drop digits.length)
        | none => (name? rest).map fun (name, rest) =>
          (⟨.word (String.ofList ('#' :: name)), false⟩, rest)
      | '!' :: rest => do
        let (name, rest) ← name? (skipGap false rest)
        if name == "important".toList then pure (⟨.word "!important", false⟩, rest) else none
      | _ =>
        match quoted? cs, number? cs, name? cs with
        | some (text, rest), _, _ => do
          let text ← fillFrom lookup fuel text
          pure (⟨.quoted (String.ofList (unescape (text.length + 1) text)), false⟩, rest)
        | none, some (q, rest), _ => some (⟨.number q, true⟩, rest)
        | none, none, some (name, rest) => readNamed lookup fuel (String.ofList name) rest
        | none, none, none =>
          match cs with
          | '-' :: rest => do
            let (operand, rest) ← readOperand lookup fuel rest
            pure (⟨← operand.value.negate?, operand.literal⟩, rest)
          | '+' :: rest => do
            let (operand, rest) ← readOperand lookup fuel rest
            match operand.value with
            | .number _ => pure (operand, rest)
            | v => pure (⟨.word ("+" ++ (← v.text?)), false⟩, rest)
          | _ => none

/-- What a name means, before the characters that follow it: a call, a colour or a word. -/
def readNamed (lookup : Lookup) : Nat → String → List Char → Option (Operand × List Char)
  | 0, _, _ => none
  | fuel + 1, name, cs =>
    match cs with
    | '(' :: rest =>
      if isVerbatim name rest then do
        let (text, rest) ← untilClosed 0 rest
        let text ← fillFrom lookup fuel text
        pure (⟨.word (name ++ "(" ++ String.ofList text ++ ")"), false⟩, rest)
      else do
        let (args, rest) ← readMore lookup fuel (',' :: rest)
        match rest with
        | ')' :: rest => pure (⟨← call? name args, false⟩, rest)
        | _ => none
    | _ =>
      let operand : Operand :=
        match name with
        | "true" => ⟨.bool true, false⟩
        | "false" => ⟨.bool false, false⟩
        | "null" => ⟨.null, false⟩
        | _ =>
          match Colour.ofName? name with
          | some c => ⟨.colour c, true⟩
          | none => ⟨.word name, false⟩
      some (operand, cs)

/-- Text with the values of its interpolations put in. -/
def fillFrom (lookup : Lookup) : Nat → List Char → Option (List Char)
  | 0, _ => none
  | _ + 1, [] => some []
  | fuel + 1, '#' :: '\x7b' :: cs => do
    let (inside, rest) ← readCommas lookup fuel cs
    match rest with
    | '\x7d' :: rest =>
      let text ← (← inside.settle?).plainText?
      pure (text.toList ++ (← fillFrom lookup fuel rest))
    | _ => none
  | fuel + 1, c :: cs => (fillFrom lookup fuel cs).map (c :: ·)

end

/-- The fuel for a text. -/
def fuelFor (text : String) : Nat := 8 * text.length + 64

/-- Text with the values of its interpolations put in. -/
def fill? (lookup : Lookup) (text : String) : Option String :=
  (fillFrom lookup (fuelFor text) text.toList).map String.ofList

/-- The value that an expression has, to the end of its text. -/
def compute? (lookup : Lookup) (text : String) : Option Operand := do
  let (operand, rest) ← readCommas lookup (fuelFor text) text.toList
  if (skipGap false rest).isEmpty then pure operand else none

/-- The value of a declaration. -/
def valueOf? (lookup : Lookup) (text : String) : Option Value :=
  if isPlain text then some (.word text) else (compute? lookup text).map (·.value)

end Trellis.Style
