import Trellis.Text.Blank
import Trellis.Text.Cut

/-!
# Selectors of style sheets

A selector inside a rule is put together with the selectors of that rule, and written without blanks
that can be spared.

* `nest?` gives the selectors of a rule inside another, those of the first outer selector first.
-/

namespace Trellis.Style

open Trellis.Text

/-- The depth of brackets after a character. -/
def depthAfter (depth : Nat) (c : Char) : Nat :=
  if c == '(' || c == '[' then depth + 1 else if c == ')' || c == ']' then depth - 1 else depth

/-- The quote that is open after a character. -/
def quoteAfter (quote : Option Char) (c : Char) : Option Char :=
  match quote with
  | some q => if c == q then none else quote
  | none => if c == '"' || c == '\x27' then some c else none

/-- The pieces between the characters that satisfy `p` outside of quotes and brackets. -/
def splitOutside (p : Char → Bool) : Option Char → Nat → List Char → List (List Char)
  | _, _, [] => [[]]
  | quote, depth, c :: cs =>
    let others := splitOutside p (quoteAfter quote c)
      (if quote.isSome then depth else depthAfter depth c) cs
    if p c && quote.isNone && depth == 0 then [] :: others
    else
      match others with
      | [] => [[c]]
      | piece :: pieces => (c :: piece) :: pieces

/-- A character that joins selectors without blanks around it. -/
def isJoint (c : Char) : Bool := c == ',' || c == '>' || c == '+' || c == '~'

/-- A blank can be spared between two characters, in brackets or not. -/
def sparesBlank (depth : Nat) (before after : Char) : Bool :=
  if depth == 0 then isJoint before || isJoint after
  else [',', '(', '['].contains before || [',', ')', ']'].contains after

/-- The characters with a single blank for each run of white space, and none where it can be spared.
`blank` says that white space has just been passed after the character `prev`. -/
def compact : Option Char → Nat → Option Char → Bool → List Char → List Char
  | _, _, _, _, [] => []
  | quote, depth, prev, blank, c :: cs =>
    if quote.isNone && isBlank c then compact quote depth prev true cs
    else
      let following := compact (quoteAfter quote c)
        (if quote.isSome then depth else depthAfter depth c) (some c) false cs
      let needed := blank && (match prev with
        | some before => !sparesBlank depth before c
        | none => false)
      if needed then ' ' :: c :: following else c :: following

/-- The selectors of a list. -/
def selectorsOf (text : String) : List String :=
  (splitOutside (· == ',') none 0 text.toList).map fun cs =>
    String.ofList (compact none 0 none false cs)

/-- The selector only serves other rules: a name in it starts with a percent sign. -/
def isPlaceholder (selector : String) : Bool :=
  ((breakAt? ['%'] selector.toList).bind fun (_, rest) => rest.head?).any fun c =>
    c.isAlpha || c == '_' || c == '-'

/-- A selector inside a rule with the selector `outer`. -/
def within (outer selector : String) : String :=
  if occurs "&" selector then replaceAll selector "&" outer
  else if (selector.toList.head?.map isJoint).getD false then outer ++ selector
  else outer ++ " " ++ selector

/-- The selectors of a rule inside rules with the selectors `outers`; none if one refers to an outer
rule that is not there, or is empty. -/
def nest? (outers : List String) (text : String) : Option (List String) :=
  let selectors := selectorsOf text
  if selectors.contains "" then none
  else if outers.isEmpty then (if occurs "&" text then none else some selectors)
  else some (outers.flatMap fun outer => selectors.map (within outer))

end Trellis.Style
