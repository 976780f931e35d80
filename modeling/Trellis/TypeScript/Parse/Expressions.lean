import Trellis.TypeScript.Parse.Types

/-!
# Parsing TypeScript: expressions

Operators are read without regard to precedence: an expression of operators is one flat node, as
nothing the compiler asks depends on how its operands are grouped. An assignment or an arrow
function can be the last operand, and takes all that follows it.

* Where a statement can end, an expression stops as soon as a semicolon is understood.
-/

namespace Trellis.TypeScript.Parse

/-- A token that can start an operand. -/
def startsOperand (t : Token) : Bool :=
  match t.kind with
  | .mark => isOneOf ["(", "[", "\x7b", "!", "~", "+", "-", "++", "--", "<", "@", "/", "\x60"] t
  | .word => !isWordOf ["in", "instanceof", "as", "satisfies", "of", "implements"] t
  | _ => true

/-! ## Functions -/

/-- A function, from the word `function` on or from `async` before it. -/
def functionExpression (next : Grammar) : Parse Tree :=
  node .function do
    let _ ← tryWord "async"
    word "function"
    let _ ← tryMark "*"
    let name ← optional (wordLeaf .name)
    let signature ← callSignature next .inside
    let body ← next (.block .value)
    pure (name ++ signature ++ [body])

/-- A brace here starts an object rather than a block, since a key follows it. -/
def atKey : Parse Bool := do pure ((← secondIs isAnyWord) && (← thirdIs (isMark ":")))

/-- The body of an arrow function: a block or an expression. -/
def arrowBody (next : Grammar) (mode : Mode) : Parse Tree := do
  mark "=>"
  let value := next (.assignment mode)
  let block := next (.block .value)
  if ← nextIs (isMark "\x7b") then
    if ← atKey then strictly value <|> block else strictly block <|> strictly value <|> block
  else
    value

/-- An arrow function with its parameters in parentheses. -/
def arrowWithParameters (next : Grammar) (mode : Mode) : Parse Tree :=
  node .function do
    let _ ← tryWord "async"
    let generics ← optionalIf (isMark "<") (typeParameters next)
    check (← atArrowParameters mode)
    let params ← parameters next
    let result ← optionalIf (isMark ":") <| node .typeClause do
      mark ":"
      pure [← resultType next .inside]
    let body ← arrowBody next mode
    pure (generics ++ params :: result ++ [body])

/-- An arrow function of one parameter without parentheses. -/
def arrowOfName (next : Grammar) (mode : Mode) : Parse Tree :=
  node .function do
    if ← secondIs isAnyWord then
      word "async"
    let param ← node .parameters do
      pure [← node .parameter do pure [← wordLeaf .identifier]]
    let body ← arrowBody next mode
    pure [param, body]

/-- An arrow function of one parameter without parentheses stands here. -/
def atArrowOfName (mode : Mode) : Parse Bool := do
  if ← secondIs (isMark "=>") then nextIs isAnyWord
  else if (← nextIs (isWord "async")) && (← secondIs isAnyWord) && (← thirdIs (isMark "=>")) then
    pure !(← semicolonAfterNext mode.ending)
  else
    pure false

/-! ## Object and array literals -/

/-- A member of an object literal. -/
def objectMember (next : Grammar) : Parse Tree := do
  let start ← here
  if ← tryMark "..." then
    let value ← next (.assignment {})
    close .spread start [value]
  else
    let marks ← memberMarks .inside
    let isPlainWord ← nextIs isAnyWord
    let name ← propertyName next
    if ← tryMark ":" then
      let value ← next (.assignment {})
      close .pair start [name, value]
    else if ← nextIs (isOneOf ["(", "<"]) then
      let signature ← callSignature next .inside
      let body ← next (.block .bare)
      close (.method marks.role marks.isAsync) start (name :: signature ++ [body])
    else if isPlainWord then
      let target := name.withKind .identifier
      if ← tryMark "=" then
        let value ← next (.assignment {})
        close .defaulted start [target, value]
      else
        close .shorthand start [target]
    else
      failure

/-- An object literal, or a pattern of the same form. -/
def objectLiteral (next : Grammar) : Parse Tree :=
  node .object do
    mark "\x7b"
    listUntil "\x7d" (objectMember next)

/-- An array literal, or a pattern of the same form. -/
def arrayLiteral (next : Grammar) : Parse Tree :=
  node .array do
    mark "["
    listUntil "]" (spreadable next)

/-- A pattern of brackets that binds names. -/
def pattern (next : Grammar) : Parse Tree := do
  let literal ← if ← nextIs (isMark "\x7b") then objectLiteral next else arrayLiteral next
  pure literal.asPattern

/-! ## Operands -/

/-- An index in brackets. -/
def indexSuffix (next : Grammar) (start : Nat) (object : Tree) : Parse Tree := do
  mark "["
  let index ← next (.expression {})
  mark "]"
  close .subscript start [object, index]

/-- The members and indices after the class of a `new` expression. -/
def newCallee (next : Grammar) (start : Nat) (object : Tree) : Nat → Parse Tree
  | 0 => pure object
  | rounds + 1 => do
    if ← tryMark "." then
      let name ← memberName
      newCallee next start (← close .member start [object, name]) rounds
    else if ← nextIs (isMark "[") then
      newCallee next start (← indexSuffix next start object) rounds
    else
      pure object

/-- A literal word or a name. -/
def wordOperand : Parse Tree := do
  let t ← tokenIf fun t => t.kind == .word || t.kind == .privateName
  let kind : Kind :=
    match t.text with
    | "this" => .thisRef
    | "true" => .trueLiteral
    | "false" => .falseLiteral
    | "null" => .nullLiteral
    | _ => .identifier
  pure (.node kind t.start t.stop [])

/-- An expression in parentheses, perhaps with a type. -/
def parenthesized (next : Grammar) : Parse Tree :=
  node .parenthesized do
    mark "("
    let inside ← next (.expression {})
    let type ← optionalIf (isMark ":") (typeClause next .inside)
    mark ")"
    pure (inside :: type)

/-- A class as a value, with its decorators. -/
def classExpression (next : Grammar) : Parse Tree := do
  let start ← here
  let marks ← decorators next
  match ← next .classTail with
  | .node _ _ stop cs => pure (.node .classExpression start stop (marks ++ cs))

/-- The class that a `new` expression makes an object of. -/
def newClass (next : Grammar) : Parse Tree := do
  let start ← here
  let first ←
    if ← nextIs (isMark "(") then parenthesized next
    else if ← nextIs (isWordOf ["class", "new", "function", "async"]) then next (.unary {})
    else if ← nextIs (isMark "[") then arrayLiteral next
    else if ← nextIs (isMark "\x7b") then objectLiteral next
    else wordOperand
  newCallee next start first (← roundLimit)

/-- A `new` expression. -/
def newExpression (next : Grammar) : Parse Tree :=
  node .expression do
    word "new"
    if ← tryMark "." then
      word "target"
      pure []
    else
      let callee ← newClass next
      let types ← optional do
        let types ← typeArguments next
        check !(← nextIs fun t => startsOperand t && !isOneOf ["(", "\x7b", "["] t)
        pure types
      let args ← optionalIf (isMark "(") (callArguments next)
      pure (callee :: types ++ args)

/-- The word `async` as an operand, or the function it starts. -/
def asyncPrimary (next : Grammar) (mode : Mode) : Parse Tree := do
  if ← semicolonAfterNext mode.ending then wordOperand
  else if ← secondIs (isWord "function") then functionExpression next
  else if ← secondIs (isOneOf ["(", "<"]) then arrowWithParameters next mode <|> wordOperand
  else wordOperand

/-- The word `new` as an operand, or the expression it starts. -/
def newPrimary (next : Grammar) (mode : Mode) : Parse Tree := do
  if ← semicolonAfterNext mode.ending then wordOperand
  else newExpression next <|> wordOperand

/-- An operand that starts with a word. -/
def wordPrimary (next : Grammar) (mode : Mode) (t : Token) : Parse Tree := do
  if ← atArrowOfName mode then arrowOfName next mode
  else if t.text == "function" then functionExpression next
  else if t.text == "class" then classExpression next
  else if t.text == "async" then asyncPrimary next mode
  else if t.text == "new" then newPrimary next mode
  else wordOperand

/-- A regular expression. -/
def regexLiteral : Parse Tree := do
  let s ← get
  match s.token, Lexer.cutRegex s.ahead with
  | some t, some (taken, rest) =>
    let stop := t.start + taken.length
    set (s.resume rest stop)
    pure (.node .regex t.start stop [])
  | _, _ => failure

/-- An operand without anything before or after it. -/
def primary (next : Grammar) (mode : Mode) : Parse Tree := do
  match ← peek? with
  | none => failure
  | some t =>
    match t.kind with
    | .word => wordPrimary next mode t
    | .privateName => wordOperand
    | .number => leaf .number fun _ => true
    | .string => leaf .string fun _ => true
    | .mark =>
      match t.text with
      | "(" => arrowWithParameters next mode <|> parenthesized next
      | "[" => arrayLiteral next
      | "\x7b" => objectLiteral next
      | "\x60" => templateLiteral (next (.expression {}))
      | "/" => regexLiteral
      | "/=" => regexLiteral
      | "@" => classExpression next
      | _ => failure

/-- A call with type arguments, or a value with type arguments alone. -/
def genericSuffix (next : Grammar) (mode : Mode) (start : Nat) (object : Tree) : Parse Tree := do
  let types ← typeArguments next
  if ← nextIs (isMark "(") then close .call start [object, types, ← callArguments next]
  else if ← nextIs (isMark "\x60") then
    close .expression start [object, types, ← templateLiteral (next (.expression {}))]
  else
    let ended ← semicolonHere mode.ending
    check (ended || !(← nextIs fun t => startsOperand t && !isMark "\x7b" t))
    close .expression start [object, types]

/-- What can follow an operand: members, indices, calls, templates and the mark `!`. -/
def suffix (next : Grammar) (mode : Mode) (start : Nat) (object : Tree) : Parse Tree := do
  check !(← semicolonHere mode.ending)
  match ← peek? with
  | none => failure
  | some t =>
    check (t.kind == .mark)
    match t.text with
    | "." => do
      mark "."
      close .member start [object, ← memberName]
    | "?." => do
      mark "?."
      if ← nextIs (isMark "(") then close .call start [object, ← callArguments next]
      else if ← nextIs (isMark "[") then indexSuffix next start object
      else if ← nextIs (isMark "<") then
        let types ← typeArguments next
        close .call start [object, types, ← callArguments next]
      else close .member start [object, ← memberName]
    | "[" => indexSuffix next start object
    | "(" => do close .call start [object, ← callArguments next]
    | "\x60" => do close .expression start [object, ← templateLiteral (next (.expression {}))]
    | "!" => do
      mark "!"
      close .nonNull start [object]
    | "<" => genericSuffix next mode start object
    | _ => failure

/-- All that follows an operand. -/
def suffixes (next : Grammar) (mode : Mode) (start : Nat) (object : Tree) : Nat → Parse Tree
  | 0 => pure object
  | rounds + 1 =>
    (do suffixes next mode start (← suffix next mode start object) rounds) <|> pure object

/-- The marks of assignments, longer ones first. -/
def assignmentMarks : List String :=
  [">>>=", ">>=", "=", "+=", "-=", "*=", "/=", "%=", "**=", "<<=", "&=", "|=", "^=", "&&=", "||=",
    "??="]

/-- The mark of an assignment, if one is next. -/
def assignmentMark? : Parse (Option String) := do
  let s ← get
  match s.token with
  | none => pure none
  | some t =>
    pure (assignmentMarks.find? fun m =>
      if t.text == ">" then m.toList.isPrefixOf s.ahead else isMark m t)

/-- An operand with what follows it: an increment, a decrement or an assignment included. -/
def postfixExpression (next : Grammar) (mode : Mode) : Parse Tree := do
  let start ← here
  let first ← primary next mode
  let operand ← suffixes next mode start first (← roundLimit)
  if ← semicolonHere mode.ending then pure operand
  else if ← nextIs (isOneOf ["++", "--"]) then
    let _ ← anyToken
    close .update start [operand]
  else
    match ← assignmentMark? with
    | none => pure operand
    | some m =>
      check operand.isTarget
      passChars m.length
      let value ← next (.assignment mode)
      close .assignment start [operand.asPattern, value]

/-- The marks before an operand. -/
def unaryMarks : List String := ["!", "~", "+", "-"]

/-- The words before an operand. -/
def unaryWords : List String := ["typeof", "void", "delete"]

/-- A `yield` and what it yields. -/
def yieldExpression (next : Grammar) (mode : Mode) : Parse Tree :=
  node .expression do
    word "yield"
    if ← tryMark "*" then pure [← next (.assignment mode)]
    else if ← semicolonHere mode.ending then pure []
    else if ← nextIs startsOperand then pure [← next (.assignment mode)]
    else pure []

/-- A type before a value that is said to have it. -/
def typeAssertion (next : Grammar) (mode : Mode) : Parse Tree :=
  node .expression do
    let types ← typeArguments next
    pure [types, ← next (.unary mode)]

/-- An operand with the operators before it. -/
def unary (next : Grammar) (mode : Mode) : Parse Tree := do
  match ← peek? with
  | none => failure
  | some t =>
    if isOneOf ["++", "--"] t then
      node .update do
        let _ ← anyToken
        pure [← next (.unary mode)]
    else if isOneOf unaryMarks t || isWordOf unaryWords t then
      node .expression do
        let _ ← anyToken
        pure [← next (.unary mode)]
    else if isWord "await" t && (← secondIs startsOperand) then
      node .expression do
        word "await"
        pure [← next (.unary mode)]
    else if isWord "yield" t then yieldExpression next mode
    else if isWord "using" t && (← secondIs isAnyWord) then
      word "using"
      next (.unary mode)
    else if isMark "<" t then arrowWithParameters next mode <|> typeAssertion next mode
    else
      postfixExpression next mode

/-! ## Operators -/

/-- The marks between two operands, but those that start with `>`. -/
def binaryMarks : List String :=
  ["+", "-", "*", "/", "%", "**", "&", "|", "^", "&&", "||", "??", "==", "!=", "===", "!==", "<",
    "<=", "<<"]

/-- The marks between two operands that start with `>`, longer ones first. -/
def greaterMarks : List String := [">>>", ">>", ">=", ">"]

/-- What can follow a value that is said to have a type. -/
def assertedTail (next : Grammar) (mode : Mode) : Parse (List Tree) := do
  check !(← semicolonHere mode.ending)
  if ← nextIs (isMark "(") then pure [← callArguments next]
  else
    mark "!"
    pure []

/-- An operator and the operand after it. -/
def operation (next : Grammar) (mode : Mode) : Parse (List Tree) := do
  check !(← semicolonHere mode.ending)
  match ← peek? with
  | none => failure
  | some t =>
    if isWordOf ["as", "satisfies"] t then
      let _ ← anyToken
      let type ← next (.type mode.ending)
      pure (type :: (← many (assertedTail next mode)))
    else if isWord "instanceof" t || (isWord "in" t && mode.withIn) then
      let _ ← anyToken
      pure [← next (.unary mode)]
    else if isMark ">" t then
      check (← assignmentMark?).isNone
      let s ← get
      match greaterMarks.find? fun m => m.toList.isPrefixOf s.ahead with
      | some m => passChars m.length
      | none => failure
      pure [← next (.unary mode)]
    else
      check (isOneOf binaryMarks t)
      let _ ← anyToken
      pure [← next (.unary mode)]

/-- Operands with operators between them. -/
def operations (next : Grammar) (mode : Mode) : Parse Tree := do
  let start ← here
  let first ← next (.unary mode)
  let before := (← get).last
  let others ← many (operation next mode)
  if (← get).last == before then pure first else close .expression start (first :: others)

/-- The value of a conditional or a case up to the colon after it. A colon after parentheses
belongs to an arrow function in it only if another colon follows. -/
def valueBeforeColon (p : Mode → Parse Tree) (withResults : Bool) : Parse Tree := do
  let s ← get
  let value ← p { beforeColon := true, withResults }
  if ← tryMark ":" then pure value
  else
    check withResults
    set s
    let value ← p { beforeColon := true, withResults := false }
    mark ":"
    pure value

/-- An expression without commas. -/
def assignment (next : Grammar) (mode : Mode) : Parse Tree := do
  let start ← here
  let first ← operations next mode
  if ← semicolonHere mode.ending then pure first
  else if ← tryMark "?" then
    let yes ← valueBeforeColon (fun m => next (.assignment m)) mode.withResults
    let no ← next (.assignment mode)
    close .expression start [first, yes, no]
  else
    pure first

/-- An expression, with commas. -/
def expression (next : Grammar) (mode : Mode) : Parse Tree := do
  let start ← here
  let first ← next (.assignment mode)
  let others ← many do
    mark ","
    pure [← next (.assignment mode)]
  if others.isEmpty then pure first else close .expression start (first :: others)

end Trellis.TypeScript.Parse
