import Trellis.TypeScript.Parse.Classes

/-!
# Parsing TypeScript: statements

Statements, declarations, imports and exports.

* A word such as `type` or `export` can be a name too, and is one if a semicolon is understood
  after it.
* A statement that cannot be read is passed over one token or bracket group at a time, so that the
  rest of the module is still read.
-/

namespace Trellis.TypeScript.Parse

/-- A condition in parentheses. -/
def condition (next : Grammar) : Parse Tree := parenthesized next

/-- An expression that stands as a statement. -/
def expressionStatement (next : Grammar) : Parse Tree :=
  node .statement do
    let value ← next (.expression { ends := true })
    endOfStatement .value
    pure [value]

/-! ## Variables -/

/-- One declared variable, and what can follow it. -/
def declarator (next : Grammar) (mode : Mode) : Parse (Tree × Ending) := do
  let start ← here
  let target ← binding next
  if ← semicolonHere .bare then pure (← close .declarator start [target], .bare)
  else
    let _ ← tryMark "!"
    let type ← optionalIf (isMark ":") (typeClause next .bare)
    let value ← initialValue next mode
    let tree ← close .declarator start (target :: type ++ value)
    pure (tree, if value.isEmpty then .bare else .value)

/-- Declared variables with commas between them, and what can follow the last one. -/
def declaratorsFor (next : Grammar) (mode : Mode) : Nat → Parse (List Tree × Ending)
  | 0 => failure
  | rounds + 1 => do
    let (first, ending) ← declarator next mode
    if ← tryMark "," then
      let (others, ending) ← declaratorsFor next mode rounds
      pure (first :: others, ending)
    else
      pure ([first], ending)

/-- A declaration of variables starts here. -/
def atVariables : Parse Bool := do
  if ← nextIs (isWordOf ["const", "var"]) then pure true
  else if ← nextIs (isWord "let") then
    secondIs fun t => isAnyWord t && !isWordOf ["in", "instanceof"] t || isOneOf ["\x7b", "["] t
  else
    pure false

/-- A declaration of variables. -/
def variableDeclaration (next : Grammar) : Parse Tree :=
  node .variableDeclaration do
    let _ ← anyToken
    let (bound, ending) ← declaratorsFor next { ends := true } (← roundLimit)
    endOfStatement ending
    pure bound

/-! ## Control flow -/

/-- `if`, with its `else`. -/
def ifStatement (next : Grammar) : Parse Tree :=
  node .controlFlow do
    word "if"
    let test ← condition next
    let yes ← next .statement
    let no ← if ← tryWord "else" then pure [← next .statement] else pure []
    pure (test :: yes :: no)

/-- The head of a loop over the keys or the values of something. -/
def iterationHead (next : Grammar) : Parse (List Tree) := do
  let target ←
    if ← atVariables then
      let isVar ← nextIs (isWord "var")
      let _ ← anyToken
      pure [← node .declarator do
        let bound ← binding next
        let value ← if isVar then initialValue next { withIn := false } else pure []
        pure (bound :: value)]
    else
      pure [(← next (.unary { withIn := false })).asPattern]
  check ((← tryWord "of") || (← tryWord "in"))
  let source ← next (.expression {})
  mark ")"
  pure (target ++ [source])

/-- An expression up to a closing mark, or the mark alone. -/
def expressionBefore (next : Grammar) (closing : String) : Parse (List Tree) := do
  if ← tryMark closing then pure []
  else
    let value ← next (.expression {})
    mark closing
    pure [value]

/-- The head of a counted loop. -/
def countingHead (next : Grammar) : Parse (List Tree) := do
  let first ←
    if ← atVariables then pure [← variableDeclaration next] else expressionBefore next ";"
  let test ← expressionBefore next ";"
  let step ← expressionBefore next ")"
  pure (first ++ test ++ step)

/-- A `for` loop. -/
def forStatement (next : Grammar) : Parse Tree :=
  node .controlFlow do
    word "for"
    let _ ← tryWord "await"
    mark "("
    let head ← iterationHead next <|> countingHead next
    pure (head ++ [← next .statement])

/-- A `while` loop. -/
def whileStatement (next : Grammar) : Parse Tree :=
  node .controlFlow do
    word "while"
    let test ← condition next
    pure [test, ← next .statement]

/-- A `do` loop, with the semicolon after it. -/
def doStatement (next : Grammar) : Parse Tree :=
  node .controlFlow do
    word "do"
    let body ← next .statement
    word "while"
    let test ← condition next
    let _ ← tryMark ";"
    pure [body, test]

/-- A label of a `switch`, or a statement under it. -/
def switchItem (next : Grammar) : Parse (List Tree) := do
  if ← tryWord "default" then
    mark ":"
    pure []
  else if ← tryWord "case" then
    pure [← valueBeforeColon (fun m => next (.expression m)) true]
  else
    check !(← nextIs (isMark "\x7d"))
    pure [← next .statement]

/-- A `switch`. -/
def switchStatement (next : Grammar) : Parse Tree :=
  node .controlFlow do
    word "switch"
    let value ← condition next
    mark "\x7b"
    let items ← many (switchItem next)
    mark "\x7d"
    pure (value :: items)

/-- A `try`, with its `catch` and `finally`. -/
def tryStatement (next : Grammar) : Parse Tree :=
  node .controlFlow do
    word "try"
    let body ← next (.block .bare)
    let handler ←
      if ← tryWord "catch" then
        let caught ← optionalIf (isMark "(") (parameters next)
        pure (caught ++ [← next (.block .bare)])
      else
        pure []
    let final ← if ← tryWord "finally" then pure [← next (.block .bare)] else pure []
    pure (body :: handler ++ final)

/-- A statement with an object whose members are names in it. -/
def withStatement (next : Grammar) : Parse Tree :=
  node .statement do
    word "with"
    let object ← condition next
    pure [object, ← next .statement]

/-! ## Declarations -/

/-- What goes on with a value, and starts no statement. -/
def goesOn (t : Token) : Bool :=
  isOneOf [".", "?.", ",", "?", "*", "%", "**", "&", "|", "^", "&&", "||", "??", "==", "!=", "===",
    "!==", "<=", "<<", ">"] t || isWordOf ["as", "satisfies", "in", "instanceof"] t

/-- A declaration that could be a value too: it is one if no value goes on after it. -/
def standalone (p : Parse Tree) : Parse Tree := do
  let tree ← p
  if ← semicolonHere .value then pure tree
  else
    check !(← nextIs goesOn)
    pure tree

/-- A function declaration; without a body it is a signature. -/
def functionDeclaration (next : Grammar) : Parse Tree :=
  node .function do
    let _ ← tryWord "async"
    word "function"
    let _ ← tryMark "*"
    let name ← wordLeaf .name
    let signature ← callSignature next .signature
    if ← semicolonHere .signature then pure (name :: signature)
    else if ← nextIs (isMark "\x7b") then
      pure (name :: signature ++ [← next (.block .value)])
    else
      endOfStatement .signature
      pure (name :: signature)

/-- A class declaration, from its decorators on. -/
def classDeclaration (next : Grammar) : Parse Tree := do
  let start ← here
  let marks ← decorators next
  let _ ← tryWord "abstract"
  match ← next .classTail with
  | .node kind a stop cs =>
    check ((Tree.node kind a stop cs).child? .name).isSome
    pure (.node .classDeclaration start stop (marks ++ cs))

/-- The name of a type, and its type parameters. -/
def typeName (next : Grammar) : Parse (List Tree) := do
  let _ ← wordLeaf .name
  optionalIf (isMark "<") (typeParameters next)

/-- An interface. -/
def interfaceDeclaration (next : Grammar) : Parse Tree :=
  node .statement do
    word "interface"
    let generics ← typeName next
    let parents ←
      if ← tryWord "extends" then
        let first ← next (.typeOperand .inside)
        let others ← many do
          mark ","
          pure [← next (.typeOperand .inside)]
        pure (first :: others)
      else
        pure []
    let body ← objectType next
    pure (generics ++ parents ++ [body])

/-- A name for a type. -/
def aliasDeclaration (next : Grammar) : Parse Tree :=
  node .statement do
    word "type"
    let generics ← typeName next
    mark "="
    let type ← next (.type .bare)
    endOfStatement .bare
    pure (generics ++ [type])

/-- An enumeration. -/
def enumDeclaration (next : Grammar) : Parse Tree :=
  node .statement do
    let _ ← tryWord "const"
    word "enum"
    let _ ← wordLeaf .name
    mark "\x7b"
    listUntil "\x7d" do
      node .statement do
        let name ← propertyName next
        pure (name :: (← initialValue next {}))

/-- Statements under a name; the name may stand alone. -/
def namespaceDeclaration (next : Grammar) : Parse Tree :=
  node .statement do
    check (← nextIs (isWordOf ["namespace", "module"]))
    let _ ← anyToken
    let _ ← tokenIf fun t => t.kind == .word || t.kind == .string
    let _ ← many do
      mark "."
      let _ ← wordLeaf .name
      pure []
    optionalIf (isMark "\x7b") (next (.block .bare))

/-- A name for a name of a namespace, or for a module. -/
def importAlias (next : Grammar) : Parse Tree :=
  node .statement do
    word "import"
    if (← nextIs (isWord "type")) && (← secondIs isAnyWord) then
      word "type"
    let _ ← wordLeaf .name
    mark "="
    let start ← here
    let first ← wordLeaf .identifier
    let _ ← dottedName start first (← roundLimit)
    let _ ← optionalIf (isMark "(") (callArguments next)
    endOfStatement .bare
    pure []

/-- A declaration of what is defined elsewhere. -/
def ambientDeclaration (next : Grammar) (declaration : Parse Tree) : Parse Tree :=
  node .statement do
    word "declare"
    if (← nextIs (isWord "global")) && (← secondIs (isMark "\x7b")) then
      word "global"
      pure [← next (.block .bare)]
    else
      pure [← declaration]

/-- A declaration that starts with a given word; `nested` reads one inside another. -/
def declarationOf (next : Grammar) (nested : Parse Tree) (w : String) : Parse Tree := do
  match w with
  | "function" => functionDeclaration next
  | "async" => functionDeclaration next
  | "class" => classDeclaration next
  | "abstract" => classDeclaration next
  | "interface" => interfaceDeclaration next
  | "type" => aliasDeclaration next
  | "enum" => enumDeclaration next
  | "namespace" => namespaceDeclaration next
  | "module" => namespaceDeclaration next
  | "import" => importAlias next
  | "declare" => ambientDeclaration next nested
  | _ =>
    check (← atVariables)
    if ← secondIs (isWord "enum") then enumDeclaration next else variableDeclaration next

/-- A declaration, `rounds` of them inside each other at most. -/
def declarationFor (next : Grammar) : Nat → Parse Tree
  | 0 => failure
  | rounds + 1 => do
    match ← peek? with
    | none => failure
    | some t =>
      if isMark "@" t then classDeclaration next
      else
        check (t.kind == .word)
        declarationOf next (declarationFor next rounds) t.text

/-- A declaration. -/
def declaration (next : Grammar) : Parse Tree := do declarationFor next (← roundLimit)

/-! ## Imports and exports -/

/-- A name of a module's list of names, perhaps under another name. -/
def moduleItem : Parse Tree :=
  node .statement do
    let named := fun (t : Token) => t.kind == .word || t.kind == .string
    let _ ← tokenIf named
    let _ ← many do
      let _ ← tokenIf named
      pure []
    pure []

/-- A list of names in braces. -/
def moduleItems : Parse Unit := do
  mark "\x7b"
  let _ ← listUntil "\x7d" moduleItem

/-- All names of a module, perhaps under one name. -/
def allItems : Parse Unit := do
  mark "*"
  if ← tryWord "as" then
    let _ ← tokenIf fun t => t.kind == .word || t.kind == .string

/-- The module that names are taken from, and what is said about it. -/
def moduleName (next : Grammar) : Parse Unit := do
  let _ ← tokenIf fun t => t.kind == .string
  if ← semicolonHere .bare then pure ()
  else if ← nextIs (isWordOf ["with", "assert"]) then
    let _ ← anyToken
    let _ ← objectLiteral next

/-- The names that an import binds, up to the word `from`. -/
def importedNames : Parse Unit := do
  if ← nextIs (isMark "*") then allItems
  else if ← nextIs (isMark "\x7b") then moduleItems
  else
    let _ ← wordLeaf .name
    if ← tryMark "," then
      if ← nextIs (isMark "*") then allItems else moduleItems

/-- An import. -/
def importStatement (next : Grammar) : Parse Tree :=
  node .statement do
    word "import"
    let fromNames : Parse Unit := do
      importedNames
      word "from"
    let typed : Parse Unit := do
      check (← nextIs (isWordOf ["type", "typeof"]))
      let _ ← anyToken
      fromNames
    if !(← nextIs fun t => t.kind == .string) then
      typed <|> fromNames
    moduleName next
    endOfStatement .bare
    pure []

/-- An export of names, or of a module's names. -/
def namesExport (next : Grammar) : Parse Unit := do
  if (← nextIs (isWord "type")) && (← secondIs (isOneOf ["*", "\x7b"])) then
    word "type"
  if ← nextIs (isMark "*") then
    allItems
    word "from"
    moduleName next
  else
    moduleItems
    if !(← semicolonHere .bare) then
      if ← tryWord "from" then
        moduleName next

/-- An export of one value for the whole module, or of the module under a name. -/
def wholeExport (next : Grammar) : Parse (List Tree) := do
  if ← tryMark "=" then
    let value ← next (.assignment { ends := true })
    endOfStatement .value
    pure [value]
  else
    word "as"
    word "namespace"
    let _ ← wordLeaf .name
    endOfStatement .bare
    pure []

/-- A value that is exported by default. -/
def defaultValue (next : Grammar) : Parse Tree := do
  let value ← next (.assignment { ends := true })
  endOfStatement .value
  pure value

/-- The words that start a declaration and are no names. -/
def declaringWords : List String := ["class", "abstract", "interface", "enum"]

/-- The words that start a declaration and can be names too. -/
def contextualWords : List String := ["async", "let", "type", "declare", "namespace", "module"]

/-- The next token is a word that is a name, since a semicolon is understood after it. -/
def atLoneWord : Parse Bool := do
  pure ((← nextIs (isWordOf ("export" :: contextualWords))) && (← semicolonAfterNext .value))

/-- What an `export` exports: a declaration, or a value by default. -/
def exportedDeclaration (next : Grammar) : Parse Tree := do
  if ← tryWord "default" then
    if ← atLoneWord then defaultValue next
    else standalone (declaration next) <|> defaultValue next
  else
    declaration next

/-- An export. -/
def exportStatement (next : Grammar) (start : Nat) (marks : List Tree) : Parse Tree := do
  word "export"
  (do
    let declared ← exportedDeclaration next
    close .exported start (marks ++ [declared])) <|> (do
    namesExport next
    endOfStatement .bare
    close .statement start marks) <|> (do
    let value ← wholeExport next
    close .statement start (marks ++ value))

/-- A class or an export with decorators before it. -/
def decoratedStatement (next : Grammar) : Parse Tree := do
  let start ← here
  let before ← get
  let marks ← decorators next
  if ← nextIs (isWord "export") then exportStatement next start marks
  else
    set before
    classDeclaration next

/-! ## Statements -/

/-- A jump out of a loop or a block, with a label. -/
def jumpStatement : Parse Tree :=
  node .statement do
    let _ ← anyToken
    if !(← semicolonHere .bare) then
      if ← nextIs isAnyWord then
        let _ ← anyToken
    endOfStatement .bare
    pure []

/-- `return`, with what it returns. -/
def returnStatement (next : Grammar) : Parse Tree :=
  node .returnStatement do
    word "return"
    if ← semicolonHere .bare then pure []
    else if ← tryMark ";" then pure []
    else
      let comments ← commentsHere
      let value ← next (.expression { ends := true })
      endOfStatement .value
      pure (comments ++ [value])

/-- `throw`. -/
def throwStatement (next : Grammar) : Parse Tree :=
  node .statement do
    word "throw"
    let value ← next (.expression { ends := true })
    endOfStatement .value
    pure [value]

/-- A statement under a label. -/
def labelledStatement (next : Grammar) : Parse Tree :=
  node .statement do
    let _ ← wordLeaf .name
    mark ":"
    pure [← next .statement]

/-- A statement that starts with a word that starts no declaration, or is a name. -/
def plainStatement (next : Grammar) : Parse Tree := do
  if ← secondIs (isMark ":") then labelledStatement next else expressionStatement next

/-- A statement that starts with a word. -/
def wordStatement (next : Grammar) (t : Token) : Parse Tree := do
  match t.text with
  | "if" => ifStatement next
  | "for" => forStatement next
  | "while" => whileStatement next
  | "do" => doStatement next
  | "switch" => switchStatement next
  | "try" => tryStatement next
  | "with" => withStatement next
  | "return" => returnStatement next
  | "throw" => throwStatement next
  | "break" => jumpStatement
  | "continue" => jumpStatement
  | "debugger" => jumpStatement
  | "const" => declaration next
  | "var" => declaration next
  | "function" => standalone (declaration next) <|> expressionStatement next
  | "import" => importStatement next <|> importAlias next <|> expressionStatement next
  | w =>
    if ← atLoneWord then plainStatement next
    else if w == "export" then exportStatement next (← here) [] <|> plainStatement next
    else if declaringWords.contains w || contextualWords.contains w then
      standalone (declaration next) <|> plainStatement next
    else
      plainStatement next

/-- A statement, or what is passed over in its place. -/
def statementOrError (next : Grammar) : Parse Tree := do
  if (← get).lenient then
    leniently (next .statement) <|> (node .statement do
      skipGroup
      pure [])
  else
    next .statement

/-- A block of statements, with an understood semicolon after it. -/
def block (next : Grammar) (e : Ending) : Parse Tree :=
  node .block do
    mark "\x7b"
    let inside ← many do
      check !(← nextIs (isMark "\x7d"))
      pure [← statementOrError next]
    mark "\x7d"
    takeSemicolon e
    pure inside

/-- A block that stands as a statement, or an object that starts one. -/
def braceStatement (next : Grammar) : Parse Tree := do
  let inner : Parse Tree := do pure ((← next (.block .bare)).withKind .statement)
  let value := strictly (expressionStatement next)
  if ← atKey then value <|> inner
  else
    strictly (standalone inner) <|> value <|> inner

/-- The next characters start or end a comment in the way of markup. -/
def atMarkupComment : Parse Bool := do
  let s ← get
  pure ("<!--".toList.isPrefixOf s.ahead || "-->".toList.isPrefixOf s.ahead)

/-- A line that starts with a comment in the way of markup, which counts as a statement. -/
def markupLine : Parse Tree :=
  node .statement do
    passChars ((← get).ahead.takeWhile (!Lexer.isLineEnd ·)).length
    pure []

/-- A statement. -/
def statement (next : Grammar) : Parse Tree := do
  match ← peek? with
  | none => failure
  | some t =>
    if ← atMarkupComment then markupLine
    else if t.kind == .word then wordStatement next t
    else if isMark "\x7b" t then braceStatement next
    else if isMark ";" t then leaf .statement fun _ => true
    else if isMark "@" t then decoratedStatement next
    else expressionStatement next

/-- The statements of a module. -/
def program (next : Grammar) : Parse Tree :=
  node .program do
    let s ← get
    if "#!".toList.isPrefixOf s.rest then
      let line := s.rest.takeWhile (!Lexer.isLineEnd ·)
      set (s.resume (s.rest.drop line.length) line.length)
    many do
      check (← peek?).isSome
      (do pure [← leniently (next .statement)]) <|> (do
        skipGroup
        pure [])

end Trellis.TypeScript.Parse
