/-!
# TypeScript tokens

The lexical level of TypeScript: words, numbers, strings and marks, and the gaps between them.

* A token is read where the parser stands, since only the parser knows what a character means
  there: a slash is read as a mark, and as the start of a regular expression on demand; a template
  literal is read piece by piece.
* `>` is always a token of its own, so that closing a list of type arguments needs no second look.
* A gap is made of blanks and comments; the comments are kept with the token after them.
-/

namespace Trellis.TypeScript

/-- The kinds of TypeScript tokens. -/
inductive TokenKind where
  | word
  | privateName
  | number
  | string
  /-- A punctuator, or a character that starts no token. -/
  | mark
  deriving DecidableEq, Repr

/-- A token: its kind and text, the offsets it covers, and the spans of the comments before it. -/
structure Token where
  kind : TokenKind
  text : String
  start : Nat
  stop : Nat
  comments : List (Nat × Nat)
  deriving DecidableEq, Repr

namespace Lexer

/-! ## Character classes -/

/-- A character that ends a line. -/
def isLineEnd (c : Char) : Bool :=
  c == '\n' || c == '\r' || c.toNat == 0x2028 || c.toNat == 0x2029

/-- A space of some width, as the Unicode category of spaces has them. -/
def isSpace (c : Char) : Bool :=
  c == ' ' || c.toNat == 0xA0 || c.toNat == 0x1680 || (0x2000 ≤ c.toNat && c.toNat ≤ 0x200A) ||
    c.toNat == 0x202F || c.toNat == 0x205F || c.toNat == 0x3000

/-- A character between tokens. -/
def isGap (c : Char) : Bool :=
  isSpace c || (9 ≤ c.toNat && c.toNat ≤ 13) || isLineEnd c || c.toNat == 0xFEFF ||
    c.toNat == 0x2060 || c.toNat == 0x200B

/-- The ASCII marks that are part of no name. -/
def isMark (c : Char) : Bool :=
  ":;\x60\"'@#.,|^&<=>+-*/\\%?!~()[]\x7b\x7d".toList.contains c

/-- A character that goes on a name. -/
def isNamePart (c : Char) : Bool := 32 ≤ c.toNat && !isGap c && !isMark c

/-- A character that starts a name. -/
def isNameStart (c : Char) : Bool := isNamePart c && !c.isDigit

/-! ## Gaps -/

/-- What stands before a token: the spans of its comments, the offset of the token, and the
characters from there on. -/
structure Gap where
  comments : List (Nat × Nat)
  offset : Nat
  rest : List Char

/-- Where in a gap a character stands: outside of comments, or in one that starts at an offset. -/
inductive GapPlace where
  | blank
  | line (start : Nat)
  | block (start : Nat)

/-- Reads a gap; `found` holds the comments so far, the last one first. -/
def gapFrom (found : List (Nat × Nat)) : GapPlace → Nat → List Char → Gap
  | .blank, n, '/' :: '/' :: cs => gapFrom found (.line n) (n + 2) cs
  | .blank, n, '/' :: '*' :: cs => gapFrom found (.block n) (n + 2) cs
  | .blank, n, c :: cs => if isGap c then gapFrom found .blank (n + 1) cs
      else ⟨found.reverse, n, c :: cs⟩
  | .blank, n, [] => ⟨found.reverse, n, []⟩
  | .line start, n, c :: cs =>
    if isLineEnd c then gapFrom ((start, n) :: found) .blank (n + 1) cs
    else gapFrom found (.line start) (n + 1) cs
  | .line start, n, [] => ⟨((start, n) :: found).reverse, n, []⟩
  | .block start, n, '*' :: '/' :: cs => gapFrom ((start, n + 2) :: found) .blank (n + 2) cs
  | .block start, n, _ :: cs => gapFrom found (.block start) (n + 1) cs
  | .block start, n, [] => ⟨((start, n) :: found).reverse, n, []⟩

/-- The gap before the next token. -/
def gap (offset : Nat) (cs : List Char) : Gap := gapFrom [] .blank offset cs

/-! ## Cuts: the characters of a token and the rest -/

/-- A name, in which a character may be given by its number; `inNumber` says that the number of
one stands here, in braces. -/
def cutName (inNumber : Bool) : List Char → List Char × List Char
  | '\\' :: 'u' :: '\x7b' :: cs =>
    let (taken, rest) := cutName true cs
    ('\\' :: 'u' :: '\x7b' :: taken, rest)
  | '\\' :: 'u' :: cs =>
    let (taken, rest) := cutName false cs
    ('\\' :: 'u' :: taken, rest)
  | c :: cs =>
    if inNumber || isNamePart c then
      let (taken, rest) := cutName (inNumber && c != '\x7d') cs
      (c :: taken, rest)
    else
      ([], c :: cs)
  | [] => ([], [])

/-- A name starts here. -/
def atName : List Char → Bool
  | '\\' :: 'u' :: _ => true
  | c :: _ => isNameStart c
  | [] => false

/-- A string up to its closing quote, on one line; a backslash takes the next character along. -/
def cutString (delim : Char) : List Char → Option (List Char × List Char)
  | '\\' :: '\r' :: '\n' :: cs =>
    (cutString delim cs).map fun (taken, rest) => ('\\' :: '\r' :: '\n' :: taken, rest)
  | '\\' :: c :: cs => (cutString delim cs).map fun (taken, rest) => ('\\' :: c :: taken, rest)
  | c :: cs =>
    if c == delim then some ([c], cs)
    else if c == '\n' || c == '\r' then none
    else (cutString delim cs).map fun (taken, rest) => (c :: taken, rest)
  | [] => none

/-- Template text up to the closing mark or a substitution. -/
def cutTemplateText : List Char → List Char × List Char
  | [] => ([], [])
  | '\\' :: c :: cs =>
    let (taken, rest) := cutTemplateText cs
    ('\\' :: c :: taken, rest)
  | '$' :: '\x7b' :: cs => ([], '$' :: '\x7b' :: cs)
  | c :: cs =>
    if c == '\x60' then ([], c :: cs)
    else
      let (taken, rest) := cutTemplateText cs
      (c :: taken, rest)

/-- The body of a regular expression through its closing slash, on one line; a slash in a class is
part of it. -/
def cutRegexBody (inClass : Bool) : List Char → Option (List Char × List Char)
  | '\\' :: c :: cs =>
    if c == '\n' then none
    else (cutRegexBody inClass cs).map fun (taken, rest) => ('\\' :: c :: taken, rest)
  | c :: cs =>
    if c == '\n' then none
    else if c == '/' && !inClass then some ([c], cs)
    else
      (cutRegexBody (if c == '[' then true else inClass && c != ']') cs).map
        fun (taken, rest) => (c :: taken, rest)
  | [] => none

/-- A regular expression with its flags. -/
def cutRegex : List Char → Option (List Char × List Char)
  | '/' :: cs =>
    match cutRegexBody false cs with
    | some ([_], _) => none
    | some (body, rest) =>
      some ('/' :: body ++ rest.takeWhile Char.isLower, rest.dropWhile Char.isLower)
    | none => none
  | _ => none

/-- A digit or a separator of digits. -/
def isDigitPart (c : Char) : Bool := c.isDigit || c == '_'

/-- The fraction of a number, if one follows. -/
def cutFraction : List Char → List Char × List Char
  | '.' :: cs => ('.' :: cs.takeWhile isDigitPart, cs.dropWhile isDigitPart)
  | cs => ([], cs)

/-- The exponent of a number, if one follows. -/
def cutExponent : List Char → List Char × List Char
  | e :: sign :: cs =>
    if (e == 'e' || e == 'E') && (sign == '+' || sign == '-' || sign.isDigit) then
      (e :: sign :: cs.takeWhile isDigitPart, cs.dropWhile isDigitPart)
    else ([], e :: sign :: cs)
  | cs => ([], cs)

/-- A number. -/
def cutNumber (cs : List Char) : List Char × List Char :=
  match cs with
  | '0' :: c :: _ =>
    if c.isAlpha then (cs.takeWhile isNamePart, cs.dropWhile isNamePart) else decimal cs
  | _ => decimal cs
where
  /-- A decimal number. -/
  decimal (cs : List Char) : List Char × List Char :=
    let whole := cs.takeWhile isDigitPart
    let (fraction, rest) := cutFraction (cs.dropWhile isDigitPart)
    let (exponent, rest) := cutExponent rest
    let suffix := rest.takeWhile (· == 'n')
    (whole ++ fraction ++ exponent ++ suffix, rest.dropWhile (· == 'n'))

/-- The marks of more than one character, longer ones first. -/
def longMarks : List String :=
  ["...", "===", "!==", "**=", "<<=", "&&=", "||=", "??=", "=>", "==", "!=", "<=", "&&", "||",
    "??", "?.", "++", "--", "+=", "-=", "*=", "/=", "%=", "&=", "|=", "^=", "<<", "**"]

/-- A mark. A question mark before a decimal fraction stands alone. -/
def cutMark (cs : List Char) : List Char × List Char :=
  match longMarks.find? (·.toList.isPrefixOf cs) with
  | some mark =>
    let n := mark.toList.length
    if mark == "?." && ((cs.drop 2).head?.map Char.isDigit).getD false then (cs.take 1, cs.drop 1)
    else (cs.take n, cs.drop n)
  | none => (cs.take 1, cs.drop 1)

/-- The kind of the token that starts with `c`, its characters and the rest. -/
def cutToken (c : Char) (cs : List Char) : TokenKind × List Char × List Char :=
  if c == '"' || c == '\x27' then
    match cutString c cs with
    | some (taken, rest) => (.string, c :: taken, rest)
    | none => (.mark, [c], cs)
  else if c.isDigit || (c == '.' && (cs.head?.map Char.isDigit).getD false) then
    (.number, cutNumber (c :: cs))
  else if atName (c :: cs) then (.word, cutName false (c :: cs))
  else if c == '#' && atName cs then
    let (taken, rest) := cutName false cs
    (.privateName, c :: taken, rest)
  else (.mark, cutMark (c :: cs))

/-- The token after a gap, with the characters after it. -/
def readToken (g : Gap) : Option (Token × List Char) :=
  match g.rest with
  | [] => none
  | c :: cs =>
    let (kind, taken, rest) := cutToken c cs
    some (⟨kind, String.ofList taken, g.offset, g.offset + taken.length, g.comments⟩, rest)

end Lexer

end Trellis.TypeScript
