import Trellis.Text.Letter
import Trellis.TypeScript.Token

/-!
# Semicolons that need not be written

A statement or a member of a class may end without a semicolon. Whether one is understood depends
on the characters after the last token and on what else could follow there.

* At the end of the text and before a closing brace a semicolon is understood.
* After a line break it is understood unless the next line starts with something that goes on
  with what stands before.
* Comments on the same line are part of what the semicolon ends.
-/

namespace Trellis.TypeScript

open Lexer

/-- What can follow a place in the text, so far as semicolons are concerned. -/
inductive Ending where
  /-- No statement can end here. -/
  | inside
  /-- The end of a value: an operator can follow. -/
  | value
  /-- The end of a name, a type or a block: no operator can follow. -/
  | bare
  /-- The end of the head of a function: its body can follow. -/
  | signature
  deriving DecidableEq, Repr

namespace Ending

/-- An operator can follow. -/
def hasOperators (e : Ending) : Bool := e == .value

/-- A word that is an operator between two values goes on with a value. -/
def isWordOperator (cs : List Char) : Bool :=
  let ends := fun (rest : List Char) => !(rest.head?.map Text.isLetter).getD false
  ("in".toList.isPrefixOf cs && ends (cs.drop 2)) ||
    ("instanceof".toList.isPrefixOf cs && ends (cs.drop 10))

/-- The marks at the start of a line that always go on with the line before. -/
def continuingMarks : List Char :=
  ['\x60', ',', '.', ';', '*', '%', '>', '<', '=', '?', '^', '|', '&', '/', ':']

/-- A line that starts with these characters goes on with the line before. -/
def continues (e : Ending) : List Char → Bool
  | [] => false
  | c :: cs =>
    if continuingMarks.contains c then true
    else if c == '\x7b' then e == .signature
    else if c == '(' || c == '[' then e.hasOperators
    else if c == '+' || c == '-' then cs.head? != some c
    else if c == '!' then cs.head? == some '='
    else isWordOperator (c :: cs)

/-- A closing brace ends a statement, but not before a colon, except where a value of a
conditional can end. -/
def endsAtBrace (e : Ending) (cs : List Char) : Bool :=
  e.hasOperators || (cs.dropWhile isGap).head? != some ':'

/-- The number of characters before an understood semicolon, `n` of them being read and `stop` of
them belonging to what it ends. -/
def semicolonFrom (e : Ending) (stop : Nat) : GapPlace → Nat → List Char → Option Nat
  | .blank, n, '/' :: '/' :: cs => semicolonFrom e stop (.line n) (n + 2) cs
  | .blank, n, '/' :: '*' :: cs => semicolonFrom e stop (.block n) (n + 2) cs
  | .blank, n, c :: cs =>
    if c == '\n' then if e.continues (gap 0 cs).rest then none else some stop
    else if c == '\x7d' then if e.endsAtBrace cs then some stop else none
    else if isGap c then semicolonFrom e stop .blank (n + 1) cs
    else none
  | .blank, _, [] => some stop
  | .line start, n, c :: cs =>
    if c == '\n' then if e.continues (gap 0 cs).rest then none else some n
    else if isLineEnd c then semicolonFrom e n .blank (n + 1) cs
    else semicolonFrom e stop (.line start) (n + 1) cs
  | .line _, n, [] => some n
  | .block _, n, '*' :: '/' :: cs => semicolonFrom e (n + 2) .blank (n + 2) cs
  | .block start, n, _ :: cs => semicolonFrom e stop (.block start) (n + 1) cs
  | .block _, n, [] => some n

/-- Where after the last token a semicolon is understood: the number of characters up to there,
which are comments and blanks on the same line. -/
def semicolon? (e : Ending) (cs : List Char) : Option Nat :=
  if e == .inside then none else semicolonFrom e 0 .blank 0 cs

end Ending

end Trellis.TypeScript
