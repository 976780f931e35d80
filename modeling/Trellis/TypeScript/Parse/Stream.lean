import Trellis.TypeScript.Group
import Trellis.TypeScript.Semicolon
import Trellis.TypeScript.Tree

/-!
# Parsing TypeScript: streams and combinators

A parser runs on the characters left and may fail; alternatives start again where the first one
did.

* `Rule` names the parts of the grammar that refer to each other. Each of them is a parser built
  from a parser `next` for all of them, which stands one level of nesting further down.
* `many` and `listUntil` repeat a parser, at most as many times as there are characters.
* `endOfStatement` takes a semicolon that is written or understood.
-/

namespace Trellis.TypeScript

/-- The characters after the token read last and its end, the next token with the characters from
it on and after it, the number of characters of the whole text, and whether parts that cannot be
read are passed over. -/
structure Stream where
  rest : List Char
  last : Nat
  ahead : List Char
  token : Option Token
  after : List Char
  size : Nat
  lenient : Bool

/-- The stream that goes on with the given characters. -/
def Stream.resume (s : Stream) (rest : List Char) (last : Nat) : Stream :=
  let gap := Lexer.gap last rest
  match Lexer.readToken gap with
  | some (token, after) => { s with rest, last, ahead := gap.rest, token := some token, after }
  | none => { s with rest, last, ahead := [], token := none, after := [] }

/-- The stream after the next token. -/
def Stream.advance? (s : Stream) : Option Stream := s.token.map fun t => s.resume s.after t.stop

/-- The stream of a text. -/
def Stream.ofChars (source : List Char) : Stream :=
  Stream.resume ⟨[], 0, [], none, [], source.length, false⟩ source 0

/-- A parser. -/
abbrev Parse := StateT Stream Option

/-- What an expression stands in: whether `in` is an operator of it, whether a statement can end
with it, whether a colon has to follow it, and whether a colon after parentheses in it can start
the result of an arrow function. -/
structure Mode where
  withIn : Bool := true
  ends : Bool := false
  beforeColon : Bool := false
  withResults : Bool := true
  deriving DecidableEq, Repr

/-- What can follow an expression. -/
def Mode.ending (m : Mode) : Ending := if m.ends then .value else .inside

/-- The parts of the grammar that refer to each other. -/
inductive Rule where
  | statement
  /-- A block of statements, and what can follow it. -/
  | block (ending : Ending)
  /-- An expression, with commas. -/
  | expression (mode : Mode)
  /-- An expression without commas. -/
  | assignment (mode : Mode)
  | unary (mode : Mode)
  /-- A pattern of brackets that binds names. -/
  | pattern
  /-- A type, and what can follow it. -/
  | type (ending : Ending)
  | typeOperand (ending : Ending)
  /-- A class, from the word `class` on. -/
  | classTail
  deriving DecidableEq, Repr

/-- The grammar: a parser for each rule. -/
abbrev Grammar := Rule → Parse Tree

namespace Parse

/-! ## Tokens -/

/-- The next token, which stays. -/
def peek? : Parse (Option Token) := do pure (← get).token

/-- The token after the next one. -/
def peekSecond? : Parse (Option Token) := do pure ((← get).advance?.bind (·.token))

/-- The second token after the next one. -/
def peekThird? : Parse (Option Token) := do
  pure (((← get).advance?.bind (·.advance?)).bind (·.token))

/-- Reads a token that satisfies `p`. -/
def tokenIf (p : Token → Bool) : Parse Token := do
  let s ← get
  match s.token with
  | none => failure
  | some t =>
    if p t then
      set (s.resume s.after t.stop)
      pure t
    else
      failure

/-- Reads any token. -/
def anyToken : Parse Token := tokenIf fun _ => true

/-- Passes the first characters of the next token. -/
def passChars (n : Nat) : Parse Unit := do
  let s ← get
  match s.token with
  | none => failure
  | some t => set (s.resume (s.ahead.drop n) (t.start + n))

/-- The token is the given mark. -/
def isMark (mark : String) (t : Token) : Bool := t.kind == .mark && t.text == mark

/-- The token is the given word. -/
def isWord (w : String) (t : Token) : Bool := t.kind == .word && t.text == w

/-- The token is some word. -/
def isAnyWord (t : Token) : Bool := t.kind == .word

/-- The token is one of the given marks. -/
def isOneOf (marks : List String) (t : Token) : Bool := t.kind == .mark && marks.contains t.text

/-- The token is one of the given words. -/
def isWordOf (words : List String) (t : Token) : Bool := t.kind == .word && words.contains t.text

/-- The next token satisfies `p`. -/
def nextIs (p : Token → Bool) : Parse Bool := do pure ((← peek?).any p)

/-- The token after the next one satisfies `p`. -/
def secondIs (p : Token → Bool) : Parse Bool := do pure ((← peekSecond?).any p)

/-- The second token after the next one satisfies `p`. -/
def thirdIs (p : Token → Bool) : Parse Bool := do pure ((← peekThird?).any p)

/-- Reads a mark. -/
def mark (m : String) : Parse Unit := do let _ ← tokenIf (isMark m)

/-- Reads a word. -/
def word (w : String) : Parse Unit := do let _ ← tokenIf (isWord w)

/-- Reads a mark, if it is next. -/
def tryMark (m : String) : Parse Bool := do
  if ← nextIs (isMark m) then
    mark m
    pure true
  else
    pure false

/-- Reads a word, if it is next. -/
def tryWord (w : String) : Parse Bool := do
  if ← nextIs (isWord w) then
    word w
    pure true
  else
    pure false

/-- Goes on only if the condition holds. -/
def check (b : Bool) : Parse Unit := if b then pure () else failure

/-! ## Nodes -/

/-- Where the next token starts. -/
def here : Parse Nat := do
  let s ← get
  pure ((s.token.map (·.start)).getD s.last)

/-- A node from `start` to the end of the token read last. -/
def close (kind : Kind) (start : Nat) (children : List Tree) : Parse Tree := do
  pure (.node kind start (← get).last children)

/-- A node around what a parser reads. -/
def node (kind : Kind) (p : Parse (List Tree)) : Parse Tree := do
  let start ← here
  let children ← p
  close kind start children

/-- A node of one token. -/
def leaf (kind : Kind) (p : Token → Bool) : Parse Tree := do
  let t ← tokenIf p
  pure (.node kind t.start t.stop [])

/-- A word, as a node. -/
def wordLeaf (kind : Kind) : Parse Tree := leaf kind isAnyWord

/-- What a parser reads, or nothing. -/
def optional (p : Parse Tree) : Parse (List Tree) :=
  (do pure [← p]) <|> pure []

/-- What a parser reads, if the next token satisfies `p`. -/
def optionalIf (p : Token → Bool) (q : Parse Tree) : Parse (List Tree) := do
  if ← nextIs p then pure [← q] else pure []

/-- The comments before the next token, as nodes. -/
def commentsHere : Parse (List Tree) := do
  pure (((← peek?).map (·.comments)).getD [] |>.map fun (a, b) => .node .comment a b [])

/-! ## Repetition -/

/-- The number of rounds that every repetition can do with. -/
def roundLimit : Parse Nat := do pure ((← get).size + 1)

/-- Repeats a parser until it fails, `rounds` times at most. -/
def manyFor (p : Parse (List Tree)) : Nat → Parse (List Tree)
  | 0 => pure []
  | rounds + 1 =>
    (do
      let first ← p
      let later ← manyFor p rounds
      pure (first ++ later)) <|> pure []

/-- Repeats a parser until it fails. -/
def many (p : Parse (List Tree)) : Parse (List Tree) := do manyFor p (← roundLimit)

/-- Items up to a closing mark, with commas between them; comments among them are kept. -/
def listFor (closing : String) (item : Parse Tree) : Nat → Parse (List Tree)
  | 0 => failure
  | rounds + 1 => do
    let comments ← commentsHere
    if ← tryMark closing then pure comments
    else if ← tryMark "," then pure (comments ++ (← listFor closing item rounds))
    else
      let first ← item
      check (← nextIs (isOneOf [",", closing]))
      let later ← listFor closing item rounds
      pure (comments ++ first :: later)

/-- Items up to a closing mark, with commas between them. -/
def listUntil (closing : String) (item : Parse Tree) : Parse (List Tree) := do
  listFor closing item (← roundLimit)

/-! ## Brackets -/

/-- What follows the group that the next token opens, so far as that can be told without reading
it. -/
def beyondGroup? : Parse (Option (List Char)) := do
  pure ((Lexer.beyondGroup (← get).ahead).map fun cs => (Lexer.gap 0 cs).rest)

/-- An arrow can follow the group that the next token opens. -/
def arrowAfterGroup : Parse Bool := do
  match ← beyondGroup? with
  | some cs => pure ("=>".toList.isPrefixOf cs)
  | none => pure true

/-- The group that the next token opens can be the parameters of an arrow function. If a colon
follows it, an arrow has to come later, and one colon more if the value stands before one. -/
def atArrowParameters (mode : Mode) : Parse Bool := do
  match ← beyondGroup? with
  | none => pure true
  | some (':' :: cs) =>
    match Lexer.outlook cs with
    | none => pure mode.withResults
    | some seen =>
      pure (mode.withResults && seen.hasArrow &&
        (!mode.beforeColon || seen.questions < seen.colons))
  | some cs => pure ("=>".toList.isPrefixOf cs)

/-- Passes tokens through the end of a bracket group, of which `depth` brackets are open. -/
def skipFor (depth : Nat) : Nat → Parse Unit
  | 0 => failure
  | rounds + 1 => do
    let t ← anyToken
    let depth :=
      if isOneOf ["(", "[", "\x7b"] t then depth + 1
      else if isOneOf [")", "]", "\x7d"] t then depth - 1
      else depth
    if depth == 0 then pure () else skipFor depth rounds

/-- Passes the bracket group that the next token opens, or the next token. -/
def skipGroup : Parse Unit := do skipFor 0 (← roundLimit)

/-! ## Semicolons -/

/-- A semicolon is understood here. -/
def semicolonHere (e : Ending) : Parse Bool := do pure (e.semicolon? (← get).rest).isSome

/-- A semicolon is understood after the next token. -/
def semicolonAfterNext (e : Ending) : Parse Bool := do
  pure ((← get).advance?.any fun s => (e.semicolon? s.rest).isSome)

/-- Ends a statement with a semicolon that is written or understood. -/
def endOfStatement (e : Ending) : Parse Unit := do
  if ← semicolonHere e then pure () else mark ";"

/-- Takes an understood semicolon along, with the comments before it. -/
def takeSemicolon (e : Ending) : Parse Unit := do
  let s ← get
  match e.semicolon? s.rest with
  | some n => set (s.resume (s.rest.drop n) (s.last + n))
  | none => pure ()

/-! ## Errors -/

/-- Reads with or without passing over what cannot be read. -/
def withLenience (lenient : Bool) (p : Parse Tree) : Parse Tree := do
  let before := (← get).lenient
  modify fun s => { s with lenient }
  let tree ← p
  modify fun s => { s with lenient := before }
  pure tree

/-- Reads without passing over anything. -/
def strictly (p : Parse Tree) : Parse Tree := withLenience false p

/-- Reads as it stands, or else passes over what cannot be read in it. -/
def leniently (p : Parse Tree) : Parse Tree := strictly p <|> withLenience true p

end Parse

end Trellis.TypeScript
