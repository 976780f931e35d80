import Trellis.Json.Value
import Trellis.Number.DigitLimit
import Trellis.Table

/-!
# Reading JSON

A strict reader: no trailing commas, no comments, no control characters in strings, nothing after
the value. Beyond the grammar it knows the numbers `NaN`, `Infinity` and `-Infinity`. Of the rows
of an object with one name the last value counts.

A `Reader` takes characters and gives a value with the characters after it, or nothing. Whole
numbers can be too long, so that the readers of values say what is wrong.
-/

namespace Trellis.Json

open Trellis.Number

/-- A reader of `α`. -/
abbrev Reader (α : Type) := List Char → Option (α × List Char)

/-- Why a text is not read. -/
inductive Fault where
  | malformed
  | tooManyDigits (fault : TooManyDigits)
  deriving DecidableEq, Repr

/-- The text is malformed if a reader gives nothing. -/
def orMalformed {α : Type} : Option α → Except Fault α
  | some a => .ok a
  | none => .error .malformed

/-- White space between tokens. -/
def isSpace (c : Char) : Bool := c == ' ' || c == '\t' || c == '\n' || c == '\r'

/-- The characters after white space. -/
def skipSpace (cs : List Char) : List Char := cs.dropWhile isSpace

/-- The characters after a fixed word. -/
def dropWord? (word : String) (cs : List Char) : Option (List Char) :=
  if word.toList.isPrefixOf cs then some (cs.drop word.toList.length) else none

/-! ## Strings -/

/-- The value of a hexadecimal digit. -/
def hexValue? (c : Char) : Option Nat :=
  if '0' ≤ c ∧ c ≤ '9' then some (c.toNat - 48)
  else if 'a' ≤ c ∧ c ≤ 'f' then some (c.toNat - 87)
  else if 'A' ≤ c ∧ c ≤ 'F' then some (c.toNat - 55)
  else none

/-- Reads four hexadecimal digits. -/
def readUnit : Reader Nat
  | a :: b :: c :: d :: rest => do
    let digits ← [a, b, c, d].mapM hexValue?
    pure (digits.foldl (fun n k => 16 * n + k) 0, rest)
  | _ => none

/-- The first half of a surrogate pair. -/
def isHighSurrogate (n : Nat) : Bool := 0xD800 ≤ n && n ≤ 0xDBFF

/-- The second half of a surrogate pair. -/
def isLowSurrogate (n : Nat) : Bool := 0xDC00 ≤ n && n ≤ 0xDFFF

/-- The character that a lone half of a surrogate pair stands for. -/
def replacementChar : Char := '\ufffd'

/-- The character of a 16-bit unit. -/
def unitChar (n : Nat) : Char :=
  if isHighSurrogate n || isLowSurrogate n then replacementChar else Char.ofNat n

/-- Reads the second half of a surrogate pair. -/
def readLowSurrogate : Reader Nat
  | '\\' :: 'u' :: cs =>
    match readUnit cs with
    | some (low, rest) => if isLowSurrogate low then some (low, rest) else none
    | none => none
  | _ => none

/-- Reads a numeric escape after its `u`, with the second half of a surrogate pair. -/
def readUnicodeEscape (cs : List Char) : Option (Char × List Char) := do
  let (unit, rest) ← readUnit cs
  if isHighSurrogate unit then
    match readLowSurrogate rest with
    | some (low, rest) =>
      pure (Char.ofNat (0x10000 + (unit - 0xD800) * 0x400 + (low - 0xDC00)), rest)
    | none => pure (unitChar unit, rest)
  else
    pure (unitChar unit, rest)

/-- Reads an escape after its backslash. -/
def readEscape : Reader Char
  | 'u' :: cs => readUnicodeEscape cs
  | 'b' :: cs => some ('\x08', cs)
  | 'f' :: cs => some ('\x0c', cs)
  | 'n' :: cs => some ('\n', cs)
  | 'r' :: cs => some ('\r', cs)
  | 't' :: cs => some ('\t', cs)
  | c :: cs => if c == '"' || c == '\\' || c == '/' then some (c, cs) else none
  | [] => none

/-- Reads the rest of a string after its opening quote; `fuel` bounds the number of characters. -/
def readString : Nat → List Char → Reader String
  | 0, _, _ => none
  | fuel + 1, acc, cs =>
    match cs with
    | [] => none
    | '"' :: rest => some (String.ofList acc.reverse, rest)
    | '\\' :: rest =>
      match readEscape rest with
      | some (c, rest) => readString fuel (c :: acc) rest
      | none => none
    | c :: rest => if c.toNat < 32 then none else readString fuel (c :: acc) rest

/-! ## Numbers -/

/-- The number that decimal digits denote. -/
def digitsValue (ds : List Char) : Nat := ds.foldl (fun n c => 10 * n + (c.toNat - 48)) 0

/-- The digits in front, and what follows them. -/
def spanDigits (cs : List Char) : List Char × List Char :=
  (cs.takeWhile Char.isDigit, cs.dropWhile Char.isDigit)

/-- Reads the whole part of a number: a single zero, or digits that do not start with one. -/
def readWhole : Reader (List Char)
  | '0' :: cs => some (['0'], cs)
  | cs =>
    match spanDigits cs with
    | ([], _) => none
    | (ds, rest) => some (ds, rest)

/-- Reads a fraction, if there is one. -/
def readFraction : List Char → Option (List Char) × List Char
  | '.' :: cs =>
    match spanDigits cs with
    | ([], _) => (none, '.' :: cs)
    | (ds, rest) => (some ds, rest)
  | cs => (none, cs)

/-- The sign in front of the digits of an exponent. -/
def spanSign : List Char → Bool × List Char
  | '-' :: cs => (true, cs)
  | '+' :: cs => (false, cs)
  | cs => (false, cs)

/-- Reads an exponent, if there is one. -/
def readExponent : List Char → Option Int × List Char
  | c :: cs =>
    if c == 'e' || c == 'E' then
      let (negative, digits) := spanSign cs
      match spanDigits digits with
      | ([], _) => (none, c :: cs)
      | (ds, rest) =>
        let n : Int := digitsValue ds
        (some (if negative then -n else n), rest)
    else (none, c :: cs)
  | [] => (none, [])

/-- Reads a number after its sign. -/
def readNumber (negative : Bool) (cs : List Char) : Except Fault (Value × List Char) := do
  let (whole, rest) ← orMalformed (readWhole cs)
  let (fraction, rest) := readFraction rest
  let (exponent, rest) := readExponent rest
  match fraction, exponent with
  | none, none =>
    (checkDigits whole.length).mapError .tooManyDigits
    let n : Int := digitsValue whole
    pure (.int (if negative then -n else n), rest)
  | _, _ =>
    let places := fraction.getD []
    let d : Decimal := ⟨digitsValue (whole ++ places), exponent.getD 0 - (places.length : Int)⟩
    pure (.real (Binary.ofDecimal negative d), rest)

/-- The words that stand for values. -/
def words : List (String × Value) :=
  [("null", .null), ("true", .bool true), ("false", .bool false), ("NaN", .real .nan),
    ("Infinity", .real (.infinity false)), ("-Infinity", .real (.infinity true))]

/-- Reads a value without parts: a string, a word or a number. -/
def readAtom (cs : List Char) : Except Fault (Value × List Char) :=
  match cs with
  | '"' :: rest =>
    orMalformed ((readString (rest.length + 1) [] rest).map fun (s, rest) => (.text s, rest))
  | _ =>
    match words.findSome? fun (w, v) => (dropWord? w cs).map fun rest => (v, rest) with
    | some found => .ok found
    | none =>
      match cs with
      | '-' :: rest => readNumber true rest
      | _ => readNumber false cs

/-! ## Values with parts -/

/-- Reads the name of a row and its colon. -/
def readKey : Reader String
  | '"' :: cs => do
    let (key, rest) ← readString (cs.length + 1) [] cs
    match skipSpace rest with
    | ':' :: rest => pure (key, skipSpace rest)
    | _ => none
  | _ => none

mutual

/-- Reads a value; `fuel` bounds the depth of the recursion. -/
def readValue : Nat → List Char → Except Fault (Value × List Char)
  | 0, _ => .error .malformed
  | fuel + 1, cs =>
    match cs with
    | '[' :: rest =>
      match skipSpace rest with
      | ']' :: rest => .ok (.list [], rest)
      | rest => (readItems fuel rest).map fun (items, rest) => (.list items, rest)
    | '\x7b' :: rest =>
      match skipSpace rest with
      | '\x7d' :: rest => .ok (.object [], rest)
      | rest =>
        (readRows fuel rest).map fun (rows, rest) => (.object (Table.ofList rows).rows, rest)
    | _ => readAtom cs

/-- Reads the items of a list and its closing bracket. -/
def readItems : Nat → List Char → Except Fault (List Value × List Char)
  | 0, _ => .error .malformed
  | fuel + 1, cs => do
    let (item, rest) ← readValue fuel cs
    match skipSpace rest with
    | ']' :: rest => pure ([item], rest)
    | ',' :: rest =>
      let (items, rest) ← readItems fuel (skipSpace rest)
      pure (item :: items, rest)
    | _ => .error .malformed

/-- Reads the rows of an object and its closing brace. -/
def readRows : Nat → List Char → Except Fault (List (String × Value) × List Char)
  | 0, _ => .error .malformed
  | fuel + 1, cs => do
    let (key, rest) ← orMalformed (readKey cs)
    let (value, rest) ← readValue fuel rest
    match skipSpace rest with
    | '\x7d' :: rest => pure ([(key, value)], rest)
    | ',' :: rest =>
      let (rows, rest) ← readRows fuel (skipSpace rest)
      pure ((key, value) :: rows, rest)
    | _ => .error .malformed

end

/-- The value that a text denotes, with white space around it. At least every second level of the
recursion takes a character, so twice the length is fuel enough. -/
def parse (text : String) : Except Fault Value := do
  let cs := text.toList
  let (value, rest) ← readValue (2 * cs.length + 2) (skipSpace cs)
  if (skipSpace rest).isEmpty then pure value else .error .malformed

end Trellis.Json
