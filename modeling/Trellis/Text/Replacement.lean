import Trellis.Text.Letter
import Trellis.Text.Quoted

/-!
# Replacement texts

A text that is put in the place of a match can hold escapes: control characters by a letter or an
octal number, and the match itself as group zero. There are no other groups.

* `Replacement.parse` reads such a text, or says what is wrong with it and where.
* A backslash before a character that is no letter and no digit stands for itself, except that two
  of them are one.
-/

namespace Trellis.Text

/-- A part of a replacement text. -/
inductive ReplacementPart where
  | literal (char : Char)
  /-- The text that is replaced. -/
  | whole
  deriving DecidableEq, Repr

/-- What can be wrong with a replacement text, and at which place. -/
inductive ReplacementFault where
  | badEscape (sequence : String)
  | badGroup (index : Nat)
  | octalRange (sequence : String)
  | missingBracket
  | missingName
  | openName
  | badName (name : String)
  /-- A group that there is not, by its name; its place is not told. -/
  | unknownName (name : String)
  deriving DecidableEq, Repr

/-- The fault in words, without its place. -/
def ReplacementFault.label : ReplacementFault → String
  | .badEscape sequence => "bad escape " ++ sequence
  | .badGroup index => "invalid group reference " ++ toString index
  | .octalRange sequence => "octal escape value " ++ sequence ++ " outside of range 0-0o377"
  | .missingBracket => "missing <"
  | .missingName => "missing group name"
  | .openName => "missing >, unterminated name"
  | .badName name => "bad character in group name " ++ reprQuote name
  | .unknownName name => "unknown group name " ++ reprQuote name

/-- A fault of a replacement text, with its place and the text. -/
structure ReplacementError where
  fault : ReplacementFault
  place : Nat
  text : List Char
  deriving DecidableEq, Repr

/-- The fault is one of names, which has no place. -/
def ReplacementError.isUnknownName (e : ReplacementError) : Bool :=
  match e.fault with
  | .unknownName _ => true
  | _ => false

/-- The place in words; in a text of several lines also by line and column. -/
def placeLabel (text : List Char) (place : Nat) : String :=
  let before := text.take place
  let column := (before.reverse.takeWhile (· != '\n')).length + 1
  " at position " ++ toString place ++
    (if text.contains '\n' then
      " (line " ++ toString (before.count '\n' + 1) ++ ", column " ++ toString column ++ ")"
    else "")

/-- The error in words. -/
def ReplacementError.message (e : ReplacementError) : String :=
  if e.isUnknownName then e.fault.label else e.fault.label ++ placeLabel e.text e.place

namespace Replacement

/-! ## Escapes -/

/-- The control characters by the letters that stand for them. -/
def letterEscapes : List (Char × Char) :=
  [('a', '\x07'), ('b', '\x08'), ('f', '\x0c'), ('n', '\n'), ('r', '\r'), ('t', '\t'),
    ('v', '\x0b'), ('\\', '\\')]

/-- An octal digit. -/
def isOctal (c : Char) : Bool := '0' ≤ c && c ≤ '7'

/-- The number that digits of a base denote. -/
def numberOf (base : Nat) (digits : List Char) : Nat :=
  digits.foldl (fun n c => base * n + (c.toNat - 48)) 0

/-- What an escape gives: a part and the number of characters it takes, or a fault and how far
after the backslash its place is. -/
abbrev Escape := Except (ReplacementFault × Nat) (ReplacementPart × Nat)

/-- The name of a group up to its closing bracket, and whether there is one; a backslash takes the
next character along. -/
def cutGroupName : List Char → List Char × Bool
  | [] => ([], false)
  | '\\' :: c :: cs =>
    let (name, closed) := cutGroupName cs
    ('\\' :: c :: name, closed)
  | c :: cs =>
    if c == '>' then ([], true)
    else
      let (name, closed) := cutGroupName cs
      (c :: name, closed)

/-- A name that a group could have. -/
def isGroupName : List Char → Bool
  | [] => false
  | c :: cs => (isLetter c || c == '_') && cs.all isWordChar

/-- The escape of a group by its name or number, after the letter for it. -/
def groupEscape : List Char → Escape
  | '<' :: cs =>
    let (name, closed) := cutGroupName cs
    if name.isEmpty then .error (.missingName, 3)
    else if !closed then .error (.openName, 3)
    else if name.all Char.isDigit then
      let index := numberOf 10 name
      if index == 0 then .ok (.whole, name.length + 4) else .error (.badGroup index, 3)
    else if isGroupName name then .error (.unknownName (String.ofList name), 3)
    else .error (.badName (String.ofList name), 3)
  | _ => .error (.missingBracket, 2)

/-- The character of an octal number, of which one byte counts. -/
def octalEscape (digits : List Char) : ReplacementPart × Nat :=
  (.literal (Char.ofNat (numberOf 8 digits % 256)), digits.length + 1)

/-- The escape of a number: an octal number of three digits or a group. -/
def numberEscape (c : Char) (cs : List Char) : Escape :=
  match cs with
  | d :: e :: _ =>
    if isOctal c && isOctal d && isOctal e then
      if 255 < numberOf 8 [c, d, e] then .error (.octalRange (String.ofList ['\\', c, d, e]), 0)
      else .ok (octalEscape [c, d, e])
    else group
  | _ => group
where
  /-- A group, which there is not, by a number of one or two digits. -/
  group : Escape := .error (.badGroup (numberOf 10 (c :: (cs.take 1).filter Char.isDigit)), 1)

/-- The escape that a backslash starts; the characters are those after it. -/
def escape : List Char → Escape
  | [] => .ok (.literal '\\', 1)
  | c :: cs =>
    if c == 'g' then groupEscape cs
    else if c == '0' then .ok (octalEscape ('0' :: (cs.take 2).takeWhile isOctal))
    else if c.isDigit then numberEscape c cs
    else
      match letterEscapes.lookup c with
      | some control => .ok (.literal control, 2)
      | none =>
        if c.isAlpha then .error (.badEscape (String.ofList ['\\', c]), 0)
        else .ok (.literal '\\', 1)

/-! ## Texts -/

/-- Reads the characters from a place on; `skip` of them belong to the last escape. -/
def parseFrom (text : List Char) (place skip : Nat) :
    List Char → Except ReplacementError (List ReplacementPart)
  | [] => .ok []
  | c :: cs =>
    if 0 < skip then parseFrom text (place + 1) (skip - 1) cs
    else if c == '\\' then
      match escape cs with
      | .ok (part, size) => (parseFrom text (place + 1) (size - 1) cs).map (part :: ·)
      | .error (fault, after) => .error ⟨fault, place + after, text⟩
    else (parseFrom text (place + 1) 0 cs).map (.literal c :: ·)

/-- Reads a replacement text. -/
def parse (text : String) : Except ReplacementError (List ReplacementPart) :=
  parseFrom text.toList 0 0 text.toList

/-- The text that replaces a match. -/
def fill (parts : List ReplacementPart) (found : List Char) : List Char :=
  parts.flatMap fun
    | .literal c => [c]
    | .whole => found

end Replacement

end Trellis.Text
