import Trellis.Style.Quantity
import Trellis.Text.Blank
import Trellis.Text.Cut

/-!
# Words of style sheets

The smallest parts that values are made of: names, numbers, quoted texts and gaps. A reader gives
what it has read and what follows it. `isPlain` says that a value is made of such parts only, so
that it stays as it is written.
-/

namespace Trellis.Style

open Trellis.Text
open Trellis.Number

/-! ## Gaps -/

/-- The characters after white space and remarks; `inRemark` says that a remark is open. -/
def skipGap (inRemark : Bool) : List Char → List Char
  | [] => []
  | '*' :: '/' :: cs => if inRemark then skipGap false cs else '*' :: '/' :: cs
  | '/' :: '*' :: cs => skipGap true cs
  | c :: cs => if inRemark || isBlank c then skipGap inRemark cs else c :: cs

/-! ## Names -/

/-- A character that a name can start with. -/
def isNameStart (c : Char) : Bool := c.isAlpha || c == '_' || c == '\\' || 127 < c.toNat

/-- A character inside a name. -/
def isNamePart (c : Char) : Bool := isNameStart c || c.isDigit || c == '-'

/-- A name, which can start with hyphens. -/
def name? (cs : List Char) : Option (List Char × List Char) :=
  let hyphens := cs.takeWhile (· == '-')
  let rest := cs.drop hyphens.length
  if rest.head?.any isNameStart then
    let tail := rest.takeWhile isNamePart
    some (hyphens ++ tail, rest.drop tail.length)
  else none

/-! ## Numbers -/

/-- The letters of a unit; a hyphen counts if a letter follows it. -/
def unitLetters : List Char → List Char
  | [] => []
  | c :: cs =>
    if isNameStart c || c.isDigit then c :: unitLetters cs
    else if c == '-' && cs.head?.any isNameStart then c :: unitLetters cs
    else []

/-- The unit of a number. -/
def unit (cs : List Char) : List Char :=
  match cs with
  | '%' :: _ => ['%']
  | c :: _ => if isNameStart c then unitLetters cs else []
  | [] => []

/-- The value of decimal digits. -/
def natOf (digits : List Char) : Nat := digits.foldl (fun n c => 10 * n + (c.toNat - 48)) 0

/-- Digits with a fraction: the digits before and after the point, and what follows. -/
def digits? (cs : List Char) : Option (List Char × List Char × List Char) :=
  let whole := cs.takeWhile Char.isDigit
  let rest := cs.drop whole.length
  let fraction := match rest with
    | '.' :: rest => rest.takeWhile Char.isDigit
    | _ => []
  if !fraction.isEmpty then some (whole, fraction, rest.drop (fraction.length + 1))
  else if whole.isEmpty then none
  else some (whole, [], rest)

/-- A sign, as a minus or not, and what follows. -/
def spanSign : List Char → Bool × List Char
  | '-' :: cs => (true, cs)
  | '+' :: cs => (false, cs)
  | cs => (false, cs)

/-- The greatest power of ten in a number. -/
def exponentLimit : Nat := 400

/-- A power of ten after a number, and what follows. -/
def exponent (cs : List Char) : Rat × List Char :=
  let one := (mkRat 1 1, cs)
  match cs with
  | c :: rest =>
    let (negative, rest) := spanSign rest
    let digits := rest.takeWhile Char.isDigit
    if (c == 'e' || c == 'E') && !digits.isEmpty && natOf digits ≤ exponentLimit then
      let power := tenTo (natOf digits)
      (if negative then mkRat 1 power else mkRat power 1, rest.drop digits.length)
    else one
  | [] => one

/-- A number with its unit. -/
def number? (cs : List Char) : Option (Quantity × List Char) := do
  let (negative, rest) := spanSign cs
  let (whole, fraction, rest) ← digits? rest
  let (power, rest) := exponent rest
  let digits : Rat := mkRat (natOf (whole ++ fraction)) (tenTo fraction.length)
  let value := Rat.mul digits power
  let unit := unit rest
  let keepsZero := !fraction.isEmpty && (whole == [] || whole == ['0']) && cs.head? != some '+'
  pure (⟨if negative then Rat.neg value else value,
    if unit.isEmpty then [] else [String.ofList unit], [], keepsZero⟩, rest.drop unit.length)

/-! ## Quoted texts -/

/-- The characters up to a quote that is not escaped, and what follows it. -/
def untilQuote (quote : Char) : List Char → Option (List Char × List Char)
  | [] => none
  | '\\' :: c :: cs => (untilQuote quote cs).map fun (text, rest) => ('\\' :: c :: text, rest)
  | c :: cs =>
    if c == quote then some ([], cs)
    else (untilQuote quote cs).map fun (text, rest) => (c :: text, rest)

/-- A quoted text, as it is written between its quotes. -/
def quoted? : List Char → Option (List Char × List Char)
  | '"' :: cs => untilQuote '"' cs
  | '\x27' :: cs => untilQuote '\x27' cs
  | _ => none

/-! ## Plain values -/

/-- What follows a part that a plain value can have. -/
def afterPart? (cs : List Char) : Option (List Char) :=
  match name? cs with
  | some (_, rest) => some rest
  | none =>
    match quoted? cs with
    | some (text, rest) => if (breakAt? ['#', '\x7b'] text).isSome then none else some rest
    | none =>
      match cs with
      | '#' :: rest =>
        let digits := rest.takeWhile fun c =>
          c.isDigit || ('a' ≤ c && c ≤ 'f') || ('A' ≤ c && c ≤ 'F')
        if [3, 4, 6, 8].contains digits.length then some (rest.drop digits.length) else none
      | '|' :: rest => some rest
      | '!' :: rest =>
        match name? (rest.dropWhile isBlank) with
        | some (word, rest) => if word == "important".toList then some rest else none
        | none => none
      | _ => (number? cs).map (·.2)

/-- What follows the sign or the white space between two parts of a plain value. -/
def afterBreak? (cs : List Char) : Option (List Char) :=
  match cs.dropWhile isBlank with
  | '/' :: rest => some (rest.dropWhile isBlank)
  | ',' :: rest => some (rest.dropWhile isBlank)
  | rest => if rest.length < cs.length then some rest else none

/-- The characters are parts of a plain value after one another; `fuel` bounds their number. -/
def arePlain : Nat → List Char → Bool
  | 0, _ => false
  | fuel + 1, cs =>
    match afterPart? cs with
    | none => false
    | some rest =>
      if (rest.dropWhile isBlank).isEmpty then true
      else
        match afterBreak? rest with
        | some rest => arePlain fuel rest
        | none => false

/-- The value is made of plain parts with blanks, commas and slashes between them. -/
def isPlain (value : String) : Bool := arePlain (value.length + 1) value.toList

end Trellis.Style
