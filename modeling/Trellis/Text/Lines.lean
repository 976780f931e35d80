import Trellis.Text.Blank
import Trellis.Text.Cut

/-!
# Lines and indentation

* `splitLines` cuts at every line boundary of Unicode, taking a carriage return and the line feed
  after it as one, and gives no empty line after a final boundary.
* `indent` puts a margin before each line that is not blank.
* `dedentBlock` takes the inside of a braced block and removes the margin its lines share.
-/

namespace Trellis.Text

/-- A character that ends a line. -/
def isLineBreak (c : Char) : Bool :=
  let n := c.toNat
  (10 ≤ n && n ≤ 13) || (28 ≤ n && n ≤ 30) || n == 0x85 || n == 0x2028 || n == 0x2029

/-- The lines of a text, with the characters of the current line so far in reverse. -/
def splitLinesFrom : List Char → List Char → List (List Char)
  | [], [] => []
  | acc, [] => [acc.reverse]
  | acc, '\r' :: '\n' :: cs => acc.reverse :: splitLinesFrom [] cs
  | acc, c :: cs =>
    if isLineBreak c then acc.reverse :: splitLinesFrom [] cs
    else splitLinesFrom (c :: acc) cs

/-- The lines of a text without their ends. -/
def splitLines (s : String) : List String := (splitLinesFrom [] s.toList).map String.ofList

/-- The margin before each line that is not blank; all line ends become line feeds. -/
def indent (text margin : String) : String :=
  "\n".intercalate <| (splitLines text).map fun line =>
    if isBlankText line then line else margin ++ line

/-- A blank or a tab, of which margins consist. -/
def isMarginChar (c : Char) : Bool := c == ' ' || c == '\t'

/-- The longest common beginning of two lists. -/
def commonStart : List Char → List Char → List Char
  | a :: as, b :: bs => if a == b then a :: commonStart as bs else []
  | _, _ => []

/-- The margin that all lines with content share; none if there is no such line. -/
def sharedMargin (lines : List (List Char)) : List Char :=
  let margins := (lines.filter (fun l => !l.all isMarginChar)).map (·.takeWhile isMarginChar)
  match margins with
  | [] => []
  | m :: ms => ms.foldl commonStart m

/-- Every line without the shared margin; a line of blanks and tabs becomes empty. -/
def dedentChars (cs : List Char) : List Char :=
  let lines := splitAtEach (· == '\n') cs
  let margin := sharedMargin lines
  let cut := lines.map fun l => if l.all isMarginChar then [] else l.drop margin.length
  ['\n'].intercalate cut

/-- The inside of a braced block (or the text itself, if it has no braces around it) without the
shared margin and the white space at both ends. -/
def dedentBlock (text : String) : String :=
  let body := strip text
  let body := if hasStart body "\x7b" && hasEnd body "\x7d" then inner body else body
  String.ofList (stripChars (dedentChars (trimBoth (· == '\n') body.toList)))

end Trellis.Text
