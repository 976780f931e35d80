import Trellis.Style.Colour
import Trellis.Text.Blank

/-!
# Values of style sheets

What a variable or a declaration can have as its value, how values are joined by operators, and how
they are written without any blank that can be spared.

* A slash between two values that are written out stays a slash; `settle?` computes the quotient.
* Values that are not numbers are joined as texts.
-/

namespace Trellis.Style

open Trellis.Text

/-- What stands between the items of a list. -/
inductive Separator where
  | blank
  | comma
  deriving DecidableEq, Repr

/-- The separator as text. -/
def Separator.text : Separator → String
  | .blank => " "
  | .comma => ","

/-- A value. -/
inductive Value where
  | number (quantity : Quantity)
  | colour (colour : Colour)
  /-- Text without quotes. -/
  | word (text : String)
  /-- The text between quotes. -/
  | quoted (text : String)
  | bool (value : Bool)
  | null
  | list (separator : Separator) (bracketed : Bool) (items : List Value)
  /-- Two values with a slash between them. -/
  | ratio (left right : Value)

/-! ## Text -/

/-- The characters with each line break and the white space after it as one blank; `inBreak` says
that such white space is being passed. -/
def unbreak (inBreak : Bool) : List Char → List Char
  | [] => []
  | c :: cs =>
    if c == '\n' then (if inBreak then unbreak true cs else ' ' :: unbreak true cs)
    else if inBreak && isBlank c then unbreak true cs
    else c :: unbreak false cs

/-- The quote that a text is written in: the double one, unless only that one is in the text. -/
def quoteFor (cs : List Char) : Char :=
  if cs.contains '"' && !cs.contains '\x27' then '\x27' else '"'

/-- The characters of a text inside quotes. -/
def quoteChars (quote : Char) : List Char → List Char
  | [] => []
  | c :: cs =>
    if c == quote || c == '\\' then '\\' :: c :: quoteChars quote cs
    else if c == '\n' then
      let blank := cs.head?.any fun d => (Colour.digit? d).isSome || isBlank d
      '\\' :: 'a' :: (if blank then ' ' :: quoteChars quote cs else quoteChars quote cs)
    else c :: quoteChars quote cs

/-- A text in quotes. -/
def quoteText (text : String) : String :=
  let cs := text.toList
  String.ofList (quoteFor cs :: quoteChars (quoteFor cs) cs ++ [quoteFor cs])

namespace Value

/-- The value leaves no trace in a list. -/
def isHidden : Value → Bool
  | .null => true
  | .list _ false [] => true
  | _ => false

/-- The value as text; none if a number in it cannot be written. -/
def text? : Value → Option String
  | .number q => q.text?
  | .colour c => some c.text
  | .word text => some (String.ofList (unbreak false text.toList))
  | .quoted text => some (quoteText text)
  | .bool value => some (if value then "true" else "false")
  | .null => some ""
  | .ratio left right => do pure ((← left.text?) ++ "/" ++ (← right.text?))
  | .list separator bracketed items => do
    let texts ← items.mapM fun item => if item.isHidden then some none else item.text?.map some
    let inside := separator.text.intercalate (texts.filterMap id)
    pure (if bracketed then "[" ++ inside ++ "]" else inside)

/-- The text of a value inside other text: as it is written, without quotes. -/
def plainText? : Value → Option String
  | .quoted text => some text
  | .list separator _ items => do
    let texts ← items.mapM fun item =>
      if item.isHidden then some none else item.plainText?.map some
    pure (separator.text.intercalate (texts.filterMap id))
  | v => v.text?

/-! ## Operators -/

/-- The quote of a text is kept when something is added to it. -/
def isQuoted : Value → Option Bool
  | .quoted _ => some true
  | .word _ => some false
  | _ => none

/-- Two values joined as texts by a sign. -/
def joinTexts? (sign : String) (left right : Value) : Option Value :=
  match left, right with
  | .null, _ => none
  | _, .null => none
  | _, _ => do pure (.word ((← left.text?) ++ sign ++ (← right.text?)))

/-- Two values one after the other; the quotes are those of the first text. -/
def append? (left right : Value) : Option Value := do
  let .word _ ← joinTexts? "" left right | none
  let text := (← left.plainText?) ++ (← right.plainText?)
  pure (if (left.isQuoted.orElse fun _ => right.isQuoted).getD false then .quoted text
    else .word text)

/-- An operator between two values. -/
inductive Operator where
  | plus
  | minus
  | times
  | slash
  | percent
  deriving DecidableEq, Repr

/-- Two numbers joined by an operator. -/
def joinNumbers? (op : Operator) (q r : Quantity) : Option Value :=
  match op with
  | .plus => (q.add? r).map .number
  | .minus => (q.sub? r).map .number
  | .times => some (.number (q.mul r))
  | .slash =>
    if r.value.num == 0 then some (.word (if q.value.num == 0 then "NaN" else "Infinity"))
    else some (.number (q.div r))
  | .percent =>
    if r.value.num == 0 then some (.word "NaN") else (q.mod? r).map .number

/-- A colour whose channels are all joined with a number. -/
def joinChannels? (op : Operator) (c : Colour) (q : Quantity) : Option Value :=
  match op with
  | .plus => some (.colour (c.mapChannels (Rat.add · q.value)))
  | .minus => some (.colour (c.mapChannels (Rat.sub · q.value)))
  | .times => some (.colour (c.mapChannels (Rat.mul · q.value)))
  | .slash => if q.value.num == 0 then none else some (.colour (c.mapChannels (Rat.div · q.value)))
  | .percent =>
    if q.value.num == 0 then none
    else some (.colour (c.mapChannels (Quantity.remainder · q.value)))

/-- Two values joined by an operator. -/
def join? (op : Operator) (left right : Value) : Option Value :=
  match left, right with
  | .number q, .number r => joinNumbers? op q r
  | .colour c, .number r => joinChannels? op c r
  | _, _ =>
    match op with
    | .plus => append? left right
    | .minus => joinTexts? "-" left right
    | .slash => joinTexts? "/" left right
    | .times => none
    | .percent => none

/-- The value as the result of a computation: a slash divides, and a colour is written anew. -/
def settle? : Value → Option Value
  | .ratio left right => join? .slash left right
  | .colour c => some (.colour { c with computed := true })
  | v => some v

/-- The value with a minus sign. -/
def negate? : Value → Option Value
  | .number q => some (.number q.negate)
  | v => v.text?.map fun text => .word ("-" ++ text)

end Value

end Trellis.Style
