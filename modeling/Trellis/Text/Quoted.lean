import Trellis.Text.Printable

/-!
# Quoted text

Two ways to write a text between quotes.

* `jsonQuote` writes a JSON string of ASCII characters only: everything outside the range from
  space to tilde is an escape, and a character beyond the basic plane is a surrogate pair.
* `reprQuote` shows a text in diagnostics: in single quotes, or in double quotes if the text has a
  single quote and no double one, with unprintable characters as numeric escapes.
-/

namespace Trellis.Text

/-- `n` in hexadecimal, with zeros in front up to `width` digits. -/
def hex (width n : Nat) : List Char :=
  let digits := Nat.toDigits 16 n
  List.replicate (width - digits.length) '0' ++ digits

/-- One UTF-16 unit as a JSON escape. -/
def unitEscape (n : Nat) : List Char := '\\' :: 'u' :: hex 4 n

/-- A character inside a JSON string. -/
def jsonEscape (c : Char) : List Char :=
  if c == '"' then ['\\', '"']
  else if c == '\\' then ['\\', '\\']
  else if c == '\n' then ['\\', 'n']
  else if c == '\r' then ['\\', 'r']
  else if c == '\t' then ['\\', 't']
  else if c.toNat == 8 then ['\\', 'b']
  else if c.toNat == 12 then ['\\', 'f']
  else if 32 ≤ c.toNat ∧ c.toNat ≤ 126 then [c]
  else if c.toNat < 0x10000 then unitEscape c.toNat
  else
    let n := c.toNat - 0x10000
    unitEscape (0xD800 + n / 0x400) ++ unitEscape (0xDC00 + n % 0x400)

/-- The text as a JSON string of ASCII characters, quotes included. -/
def jsonQuote (s : String) : String :=
  String.ofList ('"' :: s.toList.flatMap jsonEscape ++ ['"'])

/-- A character inside a quoted text whose delimiter is `delim`. -/
def reprEscape (delim c : Char) : List Char :=
  if c == delim || c == '\\' then ['\\', c]
  else if c == '\n' then ['\\', 'n']
  else if c == '\r' then ['\\', 'r']
  else if c == '\t' then ['\\', 't']
  else if isPrintable c then [c]
  else if c.toNat < 0x100 then '\\' :: 'x' :: hex 2 c.toNat
  else if c.toNat < 0x10000 then '\\' :: 'u' :: hex 4 c.toNat
  else '\\' :: 'U' :: hex 8 c.toNat

/-- The text between quotes, as diagnostics show it. -/
def reprQuote (s : String) : String :=
  let cs := s.toList
  let delim := if cs.contains '\x27' && !cs.contains '"' then '"' else '\x27'
  String.ofList (delim :: cs.flatMap (reprEscape delim) ++ [delim])

end Trellis.Text
