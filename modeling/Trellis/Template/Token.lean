/-!
# Template tokens

A template is read as a stream of tokens, each with the span of source it was read from.

* `Cursor`: a place in the source. Lines and columns count from one, offsets from zero, all in
  characters; only a line feed starts a new line.
* `Span`: where something starts, and the offsets it covers.
* `TokenStream`: the tokens of a template and the end-of-input token after them.
-/

namespace Trellis.Template

/-- A place in the source text. -/
structure Cursor where
  line : Nat := 1
  column : Nat := 1
  offset : Nat := 0
  deriving DecidableEq, Repr

/-- The place after one more character. -/
def Cursor.next (p : Cursor) (c : Char) : Cursor :=
  if c = '\n' then ⟨p.line + 1, 1, p.offset + 1⟩ else ⟨p.line, p.column + 1, p.offset + 1⟩

/-- The place after a run of characters. -/
def Cursor.skip (p : Cursor) (cs : List Char) : Cursor := cs.foldl Cursor.next p

/-- A stretch of source: the line and column of its start, and the offsets `start ≤ · < stop`. -/
structure Span where
  line : Nat
  column : Nat
  start : Nat
  stop : Nat
  deriving DecidableEq, Repr

/-- The stretch between two places. -/
def Span.between (a b : Cursor) : Span := ⟨a.line, a.column, a.offset, b.offset⟩

/-- The stretch that starts with `s` and ends where `t` ends, but not before `s` starts. -/
def Span.upTo (s t : Span) : Span := { s with stop := max t.stop s.start }

/-- The kinds of tokens. -/
inductive TokenKind where
  /-- `<` before a tag name. -/
  | tagOpen
  /-- The name of an opening or closing tag. -/
  | tagName
  /-- An attribute's name with its binding marks, such as `[value]` or `*if`. -/
  | attrName
  /-- `=` after an attribute's name. -/
  | attrEquals
  /-- An attribute's value without its quotes. -/
  | attrValue
  /-- `>`. -/
  | tagClose
  /-- `/>`. -/
  | tagSelfClose
  /-- `</`. -/
  | tagEndOpen
  /-- Text between tags. -/
  | text
  /-- The expression between doubled braces. -/
  | interpolation
  /-- The content of a comment. -/
  | comment
  /-- The end of the template. -/
  | eof
  deriving DecidableEq, Repr

/-- The name a kind has in diagnostics. -/
def TokenKind.label : TokenKind → String
  | .tagOpen => "TAG_OPEN"
  | .tagName => "TAG_NAME"
  | .attrName => "ATTR_NAME"
  | .attrEquals => "ATTR_EQUALS"
  | .attrValue => "ATTR_VALUE"
  | .tagClose => "TAG_CLOSE"
  | .tagSelfClose => "TAG_SELF_CLOSE"
  | .tagEndOpen => "TAG_END_OPEN"
  | .text => "TEXT"
  | .interpolation => "INTERPOLATION"
  | .comment => "COMMENT"
  | .eof => "EOF"

/-- All kinds. -/
def TokenKind.all : List TokenKind :=
  [.tagOpen, .tagName, .attrName, .attrEquals, .attrValue, .tagClose, .tagSelfClose, .tagEndOpen,
    .text, .interpolation, .comment, .eof]

/-- The kind with a given name. -/
def TokenKind.ofLabel? (name : String) : Option TokenKind :=
  TokenKind.all.find? (·.label == name)

/-- A token: its kind, its value and where it stands. -/
structure Token where
  kind : TokenKind
  value : String
  span : Span
  deriving DecidableEq, Repr

/-- The tokens of a template in source order, and the end-of-input token that closes them. -/
structure TokenStream where
  tokens : List Token
  eof : Token
  deriving DecidableEq, Repr

/-- The whole stream, end of input included. -/
def TokenStream.toList (s : TokenStream) : List Token := s.tokens ++ [s.eof]

end Trellis.Template
