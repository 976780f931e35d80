import Trellis.TypeScript.Token

/-!
# Looking ahead

Looking past a group of brackets, or up to the end of a value, without reading what is in it.
Characters in strings, templates, comments and regular expressions do not count.

* `scan` guesses from what stands before a slash whether it divides. A guess that cannot be right
  shows, and then there is no answer.
* `beyondGroup` finds what follows a group of brackets.
* `outlook` counts the marks of conditionals and finds an arrow up to the end of a value.
-/

namespace Trellis.TypeScript.Lexer

/-- Where a character stands. -/
inductive ScanPlace where
  /-- Among tokens: whether a value ends here, and the word that stands here, last letter first. -/
  | code (afterValue : Bool) (word : List Char)
  | string (delim : Char)
  | template
  | regex (inClass : Bool)
  | line (afterValue : Bool)
  | block (afterValue : Bool)

/-- Words after which a value starts. -/
def operatorWords : List String :=
  ["return", "typeof", "case", "in", "instanceof", "of", "new", "delete", "void", "throw", "do",
    "else", "yield", "await", "extends"]

/-- A value ends before a character that goes on with no word. -/
def endsValue (afterValue : Bool) (word : List Char) : Bool :=
  if word.isEmpty then afterValue else !operatorWords.contains (String.ofList word.reverse)

/-- A character that opens brackets. -/
def isOpening (c : Char) : Bool := c == '(' || c == '[' || c == '\x7b'

/-- A character that closes brackets. -/
def isClosing (c : Char) : Bool := c == ')' || c == ']' || c == '\x7d'

/-- Visits the marks among the tokens, until `visit` gives an answer. It is told which brackets are
open, the mark, the characters after it and what it remembers. An open bracket that is `true` is
the start of a substitution in a template. -/
def scan {σ α : Type} (visit : List Bool → Char → List Char → σ → α ⊕ σ) (opens : List Bool)
    (memory : σ) : ScanPlace → List Char → Option α
  | _, [] => none
  | .string delim, c :: cs =>
    if c == '\\' then scan visit opens memory (.string delim) (cs.drop 1)
    else if c == delim then scan visit opens memory (.code true []) cs
    else if c == '\n' then none
    else scan visit opens memory (.string delim) cs
  | .template, c :: cs =>
    if c == '\\' then scan visit opens memory .template (cs.drop 1)
    else if c == '\x60' then scan visit opens memory (.code true []) cs
    else if c == '$' && cs.head? == some '\x7b' then
      scan visit (true :: opens) memory (.code false []) (cs.drop 1)
    else scan visit opens memory .template cs
  | .regex inClass, c :: cs =>
    if c == '\\' then scan visit opens memory (.regex inClass) (cs.drop 1)
    else if c == '\n' then none
    else if c == '/' && !inClass then scan visit opens memory (.code true []) cs
    else scan visit opens memory (.regex (if c == '[' then true else inClass && c != ']')) cs
  | .line value, c :: cs =>
    if isLineEnd c then scan visit opens memory (.code value []) cs
    else scan visit opens memory (.line value) cs
  | .block value, c :: cs =>
    if c == '*' && cs.head? == some '/' then scan visit opens memory (.code value []) (cs.drop 1)
    else scan visit opens memory (.block value) cs
  | .code value word, c :: cs =>
    let value' := endsValue value word
    if isNamePart c then scan visit opens memory (.code value (c :: word)) cs
    else if isGap c then scan visit opens memory (.code value' []) cs
    else if c == '/' && cs.head? == some '/' then scan visit opens memory (.line value') cs
    else if c == '/' && cs.head? == some '*' then
      scan visit opens memory (.block value') (cs.drop 1)
    else if c == '/' && !value' then scan visit opens memory (.regex false) cs
    else if c == '"' || c == '\x27' then scan visit opens memory (.string c) cs
    else if c == '\x60' then scan visit opens memory .template cs
    else
      match visit opens c cs memory with
      | .inl answer => some answer
      | .inr memory =>
        if isOpening c then scan visit (false :: opens) memory (.code false []) cs
        else if isClosing c then
          scan visit opens.tail memory
            (if opens.head? == some true then .template else .code true []) cs
        else if (c == '+' || c == '-') && cs.head? == some c then
          scan visit opens memory (.code value' []) (cs.drop 1)
        else scan visit opens memory (.code (c == '!' && value') []) cs
termination_by _ cs => cs.length
decreasing_by all_goals simp only [List.length_drop, List.length_cons]; omega

/-- The characters after the group that the first character opens. -/
def beyondGroup (cs : List Char) : Option (List Char) :=
  scan (fun opens c rest () => if isClosing c && opens.length ≤ 1 then .inl rest else .inr ())
    [] () (.code false []) cs

/-- What stands up to the end of a value: an arrow or not, and the marks of conditionals. -/
structure Outlook where
  hasArrow : Bool := false
  questions : Nat := 0
  colons : Nat := 0

/-- What stands up to the end of the value that starts here, outside of brackets. -/
def outlook (cs : List Char) : Option Outlook :=
  scan visit [] {} (.code false []) cs
where
  /-- Notes a mark outside of brackets; a bracket that closes or a semicolon ends the value. -/
  visit (opens : List Bool) (c : Char) (rest : List Char) (seen : Outlook) : Outlook ⊕ Outlook :=
    if !opens.isEmpty then .inr seen
    else if isClosing c || c == ';' then .inl seen
    else if c == '=' && rest.head? == some '>' then .inr { seen with hasArrow := true }
    else if c == ':' then .inr { seen with colons := seen.colons + 1 }
    else if c == '?' && rest.head? != some '.' && rest.head? != some '?' then
      .inr { seen with questions := seen.questions + 1 }
    else .inr seen

end Trellis.TypeScript.Lexer
