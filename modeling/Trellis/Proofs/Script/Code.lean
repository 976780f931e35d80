import Trellis.TypeScript.Token

/-!
# Code inside of a template literal

Where code stands between `${` and a closing brace, the brace is found by reading the code as a
lexer does: brackets in strings, in regular expressions, in comments and in the text of other
template literals do not count.

* `Scan.step` reads one character of code. A slash starts a regular expression where no operand
  ends before it, and divides after an operand; after a closing bracket it divides.
* `codeLength` is how many characters stand before the closing brace.
* `IsClosed` says that a code is read to its end, so that a brace behind it closes the substitution.
  What follows the brace does not count: `codeLength_eq_iff`.
-/

namespace Trellis.Script

open Trellis.TypeScript

/-! ## What a slash follows -/

/-- What stands before a place in code, as far as the meaning of a slash depends on it. -/
inductive Before where
  /-- No operand ends here. -/
  | nothing
  /-- An operand ends here. -/
  | operand
  /-- So many dots in a row. -/
  | dots (count : Nat)
  /-- A plus or a minus sign, behind an operand or not. -/
  | sign (mark : Char) (afterOperand : Bool)
  /-- A name, a keyword or a numeral, the last character first; a member's name is no keyword. -/
  | word (chars : List Char) (isMember : Bool)
  deriving DecidableEq, Repr

/-- The keywords that an operand follows. -/
def prefixWords : List String :=
  ["await", "case", "delete", "do", "else", "in", "instanceof", "new", "of", "return", "throw",
    "typeof", "void", "yield"]

/-- An operand ends here: a slash divides. -/
def Before.endsOperand : Before → Bool
  | .nothing => false
  | .operand => true
  | .dots count => count == 1
  | .sign _ _ => false
  | .word chars isMember => isMember || !prefixWords.contains (String.ofList chars.reverse)

/-- What stands before the next place, after one more character. A doubled sign behind an operand
belongs to it, and so does an exclamation mark. -/
def Before.pass (b : Before) (c : Char) : Before :=
  if Lexer.isNamePart c then
    match b with
    | .word chars isMember => .word (c :: chars) isMember
    | .dots count => .word [c] (count != 3)
    | _ => .word [c] false
  else if Lexer.isGap c then
    match b with
    | .dots count => .dots count
    | b => if b.endsOperand then .operand else .nothing
  else if c == '.' then
    match b with
    | .dots count => .dots (count + 1)
    | _ => .dots 1
  else if c == '+' || c == '-' then
    match b with
    | .sign mark afterOperand =>
      if mark == c then (if afterOperand then .operand else .nothing) else .sign c false
    | b => .sign c b.endsOperand
  else if c == '!' && b.endsOperand then .operand
  else .nothing

/-! ## Reading code -/

/-- Where in code a character stands. -/
inductive Place where
  | code
  /-- Behind a slash. -/
  | slash
  | lineComment
  /-- In a comment between slashes, behind a star or not. -/
  | blockComment (star : Bool)
  /-- In a string, behind the start of an escape: a backslash, or one with a carriage return. -/
  | string (quote : Char) (escape : Option Char)
  /-- In a regular expression, in a class of characters or not, behind a backslash or not. -/
  | regex (inClass escaped : Bool)
  /-- In the text of a template literal, behind a backslash or a dollar sign. -/
  | template (last : Option Char)
  deriving DecidableEq, Repr

/-- What has been opened and is not closed yet. -/
inductive Frame where
  | round
  | square
  | brace
  | substitution
  deriving DecidableEq, Repr

/-- How far code has been read. -/
structure Scan where
  place : Place := .code
  before : Before := .nothing
  frames : List Frame := []
  deriving DecidableEq, Repr

namespace Scan

/-- Opens a frame. -/
def enter (s : Scan) (frame : Frame) : Scan := ⟨.code, .nothing, frame :: s.frames⟩

/-- Closes a bracket. The brace of a substitution leads back into the text around it. -/
def leave (s : Scan) (frame : Frame) : Option Scan :=
  match s.frames with
  | [] => none
  | top :: frames =>
    if top = frame then some ⟨.code, .operand, frames⟩
    else if top = .substitution ∧ frame = .brace then some ⟨.template none, .nothing, frames⟩
    else none

/-- Reads a character outside of strings, comments and the like. -/
def stepCode (s : Scan) (c : Char) : Option Scan :=
  match c with
  | '(' => some (s.enter .round)
  | '[' => some (s.enter .square)
  | '\x7b' => some (s.enter .brace)
  | ')' => s.leave .round
  | ']' => s.leave .square
  | '\x7d' => s.leave .brace
  | '"' => some { s with place := .string '"' none }
  | '\x27' => some { s with place := .string '\x27' none }
  | '\x60' => some { s with place := .template none }
  | '/' => some { s with place := .slash }
  | c => some { s with place := .code, before := s.before.pass c }

/-- Reads a character of a string, which ends on its line. -/
def stepString (s : Scan) (quote : Char) (escape : Option Char) (c : Char) : Option Scan :=
  if escape = some '\\' then
    some { s with place := .string quote (if c = '\r' then some '\r' else none) }
  else if c = '\n' ∧ escape = some '\r' then some { s with place := .string quote none }
  else if c = '\n' ∨ c = '\r' then none
  else if c = '\\' then some { s with place := .string quote (some '\\') }
  else if c = quote then some { s with place := .code, before := .operand }
  else some { s with place := .string quote none }

/-- Reads a character of a regular expression. Its flags are read like a member's name. -/
def stepRegex (s : Scan) (inClass escaped : Bool) (c : Char) : Option Scan :=
  if Lexer.isLineEnd c then none
  else if escaped then some { s with place := .regex inClass false }
  else if c = '\\' then some { s with place := .regex inClass true }
  else if c = '/' ∧ !inClass then some { s with place := .code, before := .word [] true }
  else some { s with place := .regex ((inClass || c == '[') && c != ']') false }

/-- Reads a character of the text of a template literal. -/
def stepTemplate (s : Scan) (last : Option Char) (c : Char) : Scan :=
  if last = some '\\' then { s with place := .template none }
  else if c = '\x60' then { s with place := .code, before := .operand }
  else if c = '\x7b' ∧ last = some '$' then s.enter .substitution
  else if c = '\\' ∨ c = '$' then { s with place := .template (some c) }
  else { s with place := .template none }

/-- Reads one character. -/
def step (s : Scan) (c : Char) : Option Scan :=
  match s.place with
  | .code => s.stepCode c
  | .slash =>
    if c = '/' then some { s with place := .lineComment }
    else if c = '*' then some { s with place := .blockComment false }
    else if s.before.endsOperand then { s with before := .nothing }.stepCode c
    else s.stepRegex false false c
  | .lineComment => some (if Lexer.isLineEnd c then { s with place := .code } else s)
  | .blockComment star =>
    if star && c == '/' then some { s with place := .code }
    else some { s with place := .blockComment (c == '*') }
  | .string quote escape => s.stepString quote escape c
  | .regex inClass escaped => s.stepRegex inClass escaped c
  | .template last => some (s.stepTemplate last c)

/-- The character closes the substitution that the code stands in. -/
def isDone (s : Scan) (c : Char) : Bool :=
  c == '\x7d' && s.place == .code && s.frames.isEmpty

end Scan

/-- How many characters of code stand before the brace that closes their substitution. -/
def codeLength : Scan → List Char → Option Nat
  | _, [] => none
  | s, c :: cs =>
    if s.isDone c then some 0 else (s.step c).bind fun s => (codeLength s cs).map (· + 1)

/-- The code is read to its end, so that a brace behind it closes the substitution. -/
def IsClosed (code : List Char) : Prop := codeLength {} (code ++ ['\x7d']) = some code.length

instance (code : List Char) : Decidable (IsClosed code) := inferInstanceAs (Decidable (_ = _))

/-! ## What follows the closing brace -/

/-- **What follows a brace does not count** for whether it closes the substitution. -/
theorem codeLength_eq_iff (s : Scan) (code rest : List Char) :
    codeLength s (code ++ '\x7d' :: rest) = some code.length ↔
      codeLength s (code ++ ['\x7d']) = some code.length := by
  induction code generalizing s with
  | nil =>
    rw [List.nil_append, List.nil_append, codeLength, codeLength]
    by_cases hdone : s.isDone '\x7d' = true
    · rw [if_pos hdone, if_pos hdone]
    · rw [if_neg hdone, if_neg hdone]
      simp [Option.bind_eq_some_iff]
  | cons c code ih =>
    rw [List.cons_append, List.cons_append, codeLength, codeLength, List.length_cons]
    split
    · rfl
    · cases s.step c with
      | none => rfl
      | some s =>
        simp only [Option.bind_some, Option.map_eq_some_iff, Nat.add_right_cancel_iff]
        simpa using ih s

theorem isClosed_iff (code rest : List Char) :
    IsClosed code ↔ codeLength {} (code ++ '\x7d' :: rest) = some code.length :=
  (codeLength_eq_iff {} code rest).symm

end Trellis.Script
