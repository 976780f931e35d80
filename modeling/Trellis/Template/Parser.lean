import Trellis.Diagnostic
import Trellis.Template.Lexer
import Trellis.Template.Node

/-!
# Reading token streams into trees

A recursive-descent parser that never stops on malformed markup: problems are recorded as
`ParseError`s and the best tree that can be made is returned.

* `Parser` is a stream with a place in it: the tokens passed, the tokens ahead, and the errors
  recorded so far. No operation moves back, passes the end of input or drops an error.
* A closing tag closes the innermost open element of its name and every element inside it; one
  that names no open element is skipped.
* `parseTemplate` reads a source text into a document and its errors.
-/

namespace Trellis.Template

open Trellis.Text

/-- What is wrong with a piece of markup. -/
inductive Flaw where
  | expected (want got : TokenKind)
  | unclosedTag (tag : String)
  | missingValue (attr : String)
  deriving DecidableEq, Repr

/-- The flaw in words. -/
def Flaw.message : Flaw → String
  | .expected want got => "Expected " ++ want.label ++ " but got " ++ got.label
  | .unclosedTag tag => "Expected > or /> to close tag <" ++ tag ++ ">"
  | .missingValue attr => "Attribute " ++ attr ++ " has no value after ="

/-- The code under which the flaw is reported as a warning. -/
def Flaw.code : Flaw → WarningCode
  | .missingValue _ => .malformedAttribute
  | _ => .unclosedTag

/-- A flaw and where it was found. -/
structure ParseError where
  flaw : Flaw
  span : Span
  deriving DecidableEq, Repr

/-- The error in one line. -/
def ParseError.text (e : ParseError) : String :=
  "Parse error at line " ++ toString e.span.line ++ ", column " ++ toString e.span.column ++ ": " ++
    e.flaw.message

/-- The error as a warning. -/
def ParseError.warning (e : ParseError) : Warning := ⟨e.flaw.code, e.text, .warning⟩

/-- A place in a token stream: the tokens passed, last first, the tokens ahead, the end of input,
and the errors recorded so far, in order. -/
structure Parser where
  passed : List Token
  ahead : List Token
  eof : Token
  errors : List ParseError
  deriving Repr

namespace Parser

/-- The parser at the start of a stream. -/
def ofStream (s : TokenStream) : Parser := ⟨[], s.tokens, s.eof, []⟩

/-- How many tokens have been passed. -/
def position (p : Parser) : Nat := p.passed.length

/-- The token at the current place. -/
def current (p : Parser) : Token := p.ahead.headD p.eof

/-- The token passed last. -/
def previous? (p : Parser) : Option Token := p.passed.head?

/-- The token `offset` places ahead, or the end of input. -/
def peek (p : Parser) (offset : Nat := 1) : Token := p.ahead.getD offset p.eof

/-- No token is left but the end of input. -/
def isAtEnd (p : Parser) : Bool := p.ahead.isEmpty

/-- The current token is of kind `k`. -/
def at? (p : Parser) (k : TokenKind) : Bool := p.current.kind == k

/-- The place after the current token; the end of input is never passed. -/
def advance (p : Parser) : Parser :=
  match p.ahead with
  | [] => p
  | t :: ts => { p with passed := t :: p.passed, ahead := ts }

/-- Records an error. -/
def report (p : Parser) (flaw : Flaw) (span : Span) : Parser :=
  { p with errors := p.errors ++ [⟨flaw, span⟩] }

/-- Passes a token of kind `k`; any other token stays and is recorded as an error. -/
def expect (p : Parser) (k : TokenKind) : Option Token × Parser :=
  if p.at? k then (some p.current, p.advance)
  else (none, p.report (.expected k p.current.kind) p.current.span)

/-- The stretch from `first` to the end of the token passed last. -/
def spanFrom (p : Parser) (first : Token) : Span :=
  match p.previous? with
  | some t => first.span.upTo t.span
  | none => first.span.upTo first.span

/-- A token that opens a tag. -/
def opensTag (t : Token) : Bool := t.kind == .tagOpen || t.kind == .tagEndOpen

/-- A token that ends a tag. -/
def endsTag (t : Token) : Bool := t.kind == .tagClose || t.kind == .tagSelfClose

/-- Passes tokens through the end of the current tag, but none that opens another one. -/
def skipTagFrom (passed : List Token) : List Token → List Token × List Token
  | [] => (passed, [])
  | t :: ts =>
    if endsTag t || (ts.head?.map opensTag).getD false then (t :: passed, ts)
    else skipTagFrom (t :: passed) ts

/-- Passes the rest of the current tag. -/
def skipTag (p : Parser) : Parser :=
  let (passed, ahead) := skipTagFrom p.passed p.ahead
  { p with passed, ahead }

/-! ## Attributes -/

/-- The value after an attribute's name, if any. An `=` without a value is an error. -/
def parseValue (p : Parser) (name : Token) : Option String × Parser :=
  if p.at? .attrEquals then
    let p := p.advance
    if p.at? .attrValue then (some p.current.value, p.advance)
    else (none, p.report (.missingValue name.value) name.span)
  else
    (none, p)

theorem length_advance_le (p : Parser) : p.advance.ahead.length ≤ p.ahead.length := by
  unfold advance
  split <;> simp_all

theorem length_advance_lt {p : Parser} (h : p.ahead ≠ []) :
    p.advance.ahead.length < p.ahead.length := by
  unfold advance
  split <;> simp_all

theorem length_expect_le (p : Parser) (k : TokenKind) :
    (p.expect k).2.ahead.length ≤ p.ahead.length := by
  unfold expect
  split
  · exact length_advance_le p
  · exact Nat.le_refl _

theorem length_parseValue_le (p : Parser) (name : Token) :
    (p.parseValue name).2.ahead.length ≤ p.ahead.length := by
  unfold parseValue
  split
  · dsimp only
    split
    · exact Nat.le_trans (length_advance_le _) (length_advance_le _)
    · exact length_advance_le _
  · exact Nat.le_refl _

/-- The attributes at the current place. -/
def parseAttributes (p : Parser) : List Attribute × Parser :=
  match _h : p.ahead with
  | [] => ([], p)
  | name :: _ =>
    if name.kind = .attrName then
      let r := p.advance.parseValue name
      let later := r.2.parseAttributes
      (Attribute.ofRaw name.value r.1 (r.2.spanFrom name) :: later.1, later.2)
    else
      ([], p)
termination_by p.ahead.length
decreasing_by
  exact Nat.lt_of_le_of_lt (length_parseValue_le _ _) (length_advance_lt (by simp [_h]))

theorem length_parseAttributes_le (p : Parser) :
    p.parseAttributes.2.ahead.length ≤ p.ahead.length := by
  fun_induction parseAttributes p with
  | case1 => exact Nat.le_refl _
  | case2 p name rest h hk r later ih =>
    exact Nat.le_trans ih (Nat.le_trans (length_parseValue_le _ _) (length_advance_le _))
  | case3 => exact Nat.le_refl _

/-! ## Elements -/

/-- An opening tag as it stands: its first token, its name, its attributes, and whether it closes
itself. -/
structure OpeningTag where
  first : Token
  name : Token
  attributes : List Attribute
  selfClosing : Bool

/-- The opening tag at the current place. Without a name the rest of the tag is skipped; without
an end the error is recorded and the tag counts as closed. -/
def parseOpeningTag (p : Parser) : Option OpeningTag × Parser :=
  match p.advance.expect .tagName with
  | (none, q) => (none, q.skipTag)
  | (some name, q) =>
    let (attributes, q) := q.parseAttributes
    if q.at? .tagSelfClose then (some ⟨p.current, name, attributes, true⟩, q.advance)
    else if q.at? .tagClose then (some ⟨p.current, name, attributes, false⟩, q.advance)
    else
      (some ⟨p.current, name, attributes, false⟩, q.report (.unclosedTag name.value) name.span)

/-- The name of the closing tag at the current place, if there is one. -/
def closingName? (p : Parser) : Option String :=
  if p.at? .tagEndOpen && (p.peek).kind == .tagName then some (p.peek).value else none

/-- Passes the closing tag at the current place. -/
def passClosingTag (p : Parser) : Parser :=
  let q := p.advance.advance
  if q.at? .tagClose then q.advance else q

theorem length_skipTagFrom_le (passed ts : List Token) :
    (skipTagFrom passed ts).2.length ≤ ts.length := by
  fun_induction skipTagFrom passed ts with
  | case1 => exact Nat.le_refl _
  | case2 => exact Nat.le_succ _
  | case3 passed t ts _ ih => exact Nat.le_succ_of_le ih

theorem length_skipTag_le (p : Parser) : p.skipTag.ahead.length ≤ p.ahead.length :=
  length_skipTagFrom_le _ _

theorem length_parseOpeningTag_lt {p : Parser} (h : p.ahead ≠ []) :
    p.parseOpeningTag.2.ahead.length < p.ahead.length := by
  have ha := length_advance_lt h
  have he := length_expect_le p.advance .tagName
  unfold parseOpeningTag
  split
  · rename_i hq
    rw [hq] at he
    exact Nat.lt_of_le_of_lt (Nat.le_trans (length_skipTag_le _) he) ha
  · rename_i q hq
    rw [hq] at he
    have hp := length_parseAttributes_le q
    have hl : q.parseAttributes.2.ahead.length < p.ahead.length := by
      simp only at he
      omega
    dsimp only
    split
    · exact Nat.lt_of_le_of_lt (length_advance_le _) hl
    · split
      · exact Nat.lt_of_le_of_lt (length_advance_le _) hl
      · exact hl

mutual

/-- The node at the current place, inside the open elements `outer` (innermost first); nothing for
a stray closing tag or a token that starts no node. -/
def parseNodeIn (outer : List String) (p : Parser) : Option Node × Parser :=
  match h : p.ahead with
  | [] => (none, p)
  | t :: _ =>
    match t.kind with
    | .text => (some (.text t.value t.span), p.advance)
    | .interpolation => (some (.interpolation t.value t.span), p.advance)
    | .comment => (some (.comment t.value t.span), p.advance)
    | .tagOpen => parseElementIn outer p (by simp [h])
    | .tagEndOpen => (none, p.skipTag)
    | _ => (none, p.advance)
termination_by 4 * p.ahead.length + 1

/-- The element whose opening tag starts at the current place. -/
def parseElementIn (outer : List String) (p : Parser) (_h : p.ahead ≠ []) : Option Node × Parser :=
  let opened := p.parseOpeningTag
  match opened.1 with
  | none => (none, opened.2)
  | some tag =>
    let name := tag.name.value
    if tag.selfClosing || isVoid name then
      (some (.element name tag.selfClosing tag.attributes [] (opened.2.spanFrom tag.first)),
        opened.2)
    else
      let inside := parseChildrenIn (name :: outer) opened.2
      (some (.element name false tag.attributes inside.1 (inside.2.spanFrom tag.first)), inside.2)
termination_by 4 * p.ahead.length
decreasing_by
  have hless := length_parseOpeningTag_lt _h
  omega

/-- The children of the innermost of the open elements, through its closing tag. A closing tag of
an element further out ends the children and stays. -/
def parseChildrenIn (inner : List String) (p : Parser) : List Node × Parser :=
  if p.isAtEnd then ([], p)
  else
    match p.closingName? with
    | some name =>
      if inner.head? = some name then ([], p.passClosingTag)
      else if inner.tail.contains name then ([], p)
      else parseChildInto inner p
    | none => parseChildInto inner p
termination_by 4 * p.ahead.length + 3

/-- One node, and the children after it. -/
def parseChildInto (inner : List String) (p : Parser) : List Node × Parser :=
  let child := parseNodeIn inner p
  if child.2.ahead.length < p.ahead.length then
    let later := parseChildrenIn inner child.2
    (child.1.toList ++ later.1, later.2)
  else
    (child.1.toList, child.2)
termination_by 4 * p.ahead.length + 2
decreasing_by
  · omega
  · rename_i hless
    change child.2.ahead.length < p.ahead.length at hless
    change 4 * child.2.ahead.length + 3 < 4 * p.ahead.length + 2
    omega

end

/-- The node at the current place, outside of any element. -/
def parseNode (p : Parser) : Option Node × Parser := parseNodeIn [] p

/-- The element at the current place, whatever token stands there. -/
def parseElement (p : Parser) : Option Node × Parser :=
  if h : p.ahead = [] then
    let opened := p.parseOpeningTag
    (none, opened.2)
  else
    parseElementIn [] p h

/-- All nodes from the current place on. -/
def parseNodes (p : Parser) : List Node × Parser :=
  if p.isAtEnd then ([], p)
  else
    let child := p.parseNode
    if child.2.ahead.length < p.ahead.length then
      let later := child.2.parseNodes
      (child.1.toList ++ later.1, later.2)
    else
      (child.1.toList, child.2)
termination_by p.ahead.length

/-- The rest of the stream as a document. -/
def parseDocument (p : Parser) : Document × Parser :=
  let nodes := p.parseNodes
  (⟨nodes.1, nodes.2.spanFrom p.current⟩, nodes.2)

end Parser

/-- A template read into a tree, with the flaws found on the way. -/
structure Parsed where
  document : Document
  errors : List ParseError
  deriving Repr

/-- The template has no flaws. -/
def Parsed.ok (r : Parsed) : Bool := r.errors.isEmpty

/-- Reads a template. -/
def parseTemplate (source : String) : Parsed :=
  let (document, p) := (Parser.ofStream (tokenize source)).parseDocument
  ⟨document, p.errors⟩

end Trellis.Template
