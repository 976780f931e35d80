/-!
# White space

White space is decided over all of Unicode: the ASCII blanks and separators, the no-break space,
the typographic spaces and the two line separators. The zero-width space and the byte order mark
are not white space.

* `strip` removes white space at both ends; `isBlankText` says that nothing else is there.
-/

namespace Trellis.Text

/-- A white-space character. -/
def isBlank (c : Char) : Bool :=
  let n := c.toNat
  (9 ≤ n && n ≤ 13) || (28 ≤ n && n ≤ 32) || n == 0x85 || n == 0xA0 || n == 0x1680 ||
    (0x2000 ≤ n && n ≤ 0x200A) || n == 0x2028 || n == 0x2029 || n == 0x202F || n == 0x205F ||
    n == 0x3000

/-- Drops the longest tail of characters that satisfy `p`. -/
def dropTrailing (p : Char → Bool) (cs : List Char) : List Char :=
  (cs.reverse.dropWhile p).reverse

/-- Drops the characters that satisfy `p` at both ends. -/
def trimBoth (p : Char → Bool) (cs : List Char) : List Char :=
  dropTrailing p (cs.dropWhile p)

/-- The characters without the white space at both ends. -/
def stripChars (cs : List Char) : List Char := trimBoth isBlank cs

/-- The text without the white space at both ends. -/
def strip (s : String) : String := String.ofList (stripChars s.toList)

/-- The text is empty or holds white space only. -/
def isBlankText (s : String) : Bool := s.toList.all isBlank

end Trellis.Text
