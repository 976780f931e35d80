import Trellis.TypeScript.Parse.Names

/-!
# Parsing TypeScript: types

Types are read to know where they end, and for the values they ask about. Also here: parameters of
functions, and lists of type parameters.

* A type knows what can follow it, since a line break may end it.
-/

namespace Trellis.TypeScript.Parse

/-- A type parameter: modifiers, its name, a bound and a default. -/
def typeParameter (next : Grammar) : Parse Tree :=
  node .type do
    let _ ← many do
      check (← nextIs (isWordOf ["const", "in", "out"]))
      check (← secondIs isAnyWord)
      let _ ← anyToken
      pure []
    let _ ← wordLeaf .name
    let bound ←
      if (← tryWord "extends") || (← tryMark ":") then pure [← next (.type .inside)] else pure []
    let value ← if ← tryMark "=" then pure [← next (.type .inside)] else pure []
    pure (bound ++ value)

/-- A list of type parameters. -/
def typeParameters (next : Grammar) : Parse Tree :=
  node .type do
    check (← nextIs (isOneOf ["<", "<<"]))
    passChars 1
    listUntil ">" (typeParameter next)

/-- A type with the colon before it. -/
def typeClause (next : Grammar) (e : Ending) : Parse Tree :=
  node .typeClause do
    mark ":"
    pure [← next (.type e)]

/-! ## Parameters -/

/-- The words that can stand before a parameter's name. -/
def parameterModifiers : List String := ["public", "private", "protected", "override", "readonly"]

/-- A token that can start the name of a parameter. -/
def startsBinding (t : Token) : Bool := isAnyWord t || isOneOf ["\x7b", "[", "..."] t

/-- A modifier of a parameter. -/
def parameterModifier : Parse (List Tree) := do
  check (← nextIs (isWordOf parameterModifiers))
  check (← secondIs startsBinding)
  let t ← anyToken
  if t.text == "readonly" then pure [.node .readonlyMark t.start t.stop []]
  else if t.text == "override" then pure []
  else pure [.node .visibility t.start t.stop []]

/-- What a variable is bound by: a name, or a pattern of brackets. -/
def binding (next : Grammar) : Parse Tree := do
  if ← nextIs (isOneOf ["\x7b", "["]) then next .pattern
  else if ← nextIs (isWord "this") then wordLeaf .thisRef
  else wordLeaf .identifier

/-- What a parameter is bound by, possibly to all arguments left. -/
def parameterBinding (next : Grammar) : Parse Tree := do
  if ← nextIs (isMark "...") then
    node .spread do
      mark "..."
      pure [← binding next]
  else
    binding next

/-- A value after an equals sign. -/
def initialValue (next : Grammar) (mode : Mode) : Parse (List Tree) := do
  if ← tryMark "=" then
    let value ← next (.assignment mode)
    pure [.node .initial value.start value.stop [value]]
  else
    pure []

/-- A parameter of a function. -/
def parameter (next : Grammar) : Parse Tree :=
  node .parameter do
    let marks ← decorators next
    let modifiers ← many parameterModifier
    let bound ← parameterBinding next
    let _ ← tryMark "?"
    let type ← optionalIf (isMark ":") (typeClause next .inside)
    let value ← initialValue next {}
    pure (marks ++ modifiers ++ bound :: type ++ value)

/-- The parameters of a function, in parentheses. -/
def parameters (next : Grammar) : Parse Tree :=
  node .parameters do
    mark "("
    listUntil ")" (parameter next)

/-- The type of a function's result, which can be a statement about a value: `x is T`,
`asserts x`. -/
def resultType (next : Grammar) (e : Ending) : Parse Tree := do
  let asserted ← nextIs (isWord "asserts")
  if asserted && (← secondIs isAnyWord) then
    node .type do
      word "asserts"
      predicate
  else if (← secondIs (isWord "is")) && !(← semicolonAfterNext e) then
    node .type predicate
  else
    next (.type e)
where
  /-- A value, and the type it is said to have. -/
  predicate : Parse (List Tree) := do
    let _ ← wordLeaf .name
    if (← nextIs (isWord "is")) && !(← semicolonHere e) then
      word "is"
      pure [← next (.type e)]
    else
      pure []

/-- The parameters of a function and the type of its result. -/
def callSignature (next : Grammar) (e : Ending) : Parse (List Tree) := do
  let generics ← optionalIf (isMark "<") (typeParameters next)
  let params ← parameters next
  let result ← optionalIf (isMark ":") <| node .typeClause do
    mark ":"
    pure [← resultType next e]
  pure (generics ++ params :: result)

/-! ## Templates and queries -/

/-- The parts of a template literal after its opening mark, up to its closing one. -/
def templateParts (item : Parse Tree) : Nat → Parse (List Tree)
  | 0 => failure
  | rounds + 1 => do
    let s ← get
    let (text, rest) := Lexer.cutTemplateText s.rest
    let stop := s.last + text.length
    match rest with
    | '$' :: '\x7b' :: cs => do
      set (s.resume cs (stop + 2))
      let inside ← item
      mark "\x7d"
      let substitution ← close .substitution stop [inside]
      pure (substitution :: (← templateParts item rounds))
    | c :: cs => do
      check (c == '\x60')
      set (s.resume cs (stop + 1))
      pure []
    | [] => failure

/-- A template literal, whose substitutions are read by `item`. -/
def templateLiteral (item : Parse Tree) : Parse Tree :=
  node .template do
    mark "\x60"
    templateParts item (← roundLimit)

/-- The name of a member after a dot. -/
def memberName : Parse Tree := leaf .name fun t => t.kind == .word || t.kind == .privateName

/-- What can follow the value that a query asks about: members, indices and arguments. -/
def queryTail (next : Grammar) (e : Ending) (start : Nat) (object : Tree) : Nat → Parse Tree
  | 0 => pure object
  | rounds + 1 => do
    if ← semicolonHere e then pure object
    else if (← tryMark ".") || (← tryMark "?.") then
      if ← nextIs (isMark "[") then queryTail next e start object rounds
      else
        let name ← memberName
        queryTail next e start (← close .member start [object, name]) rounds
    else if (← nextIs (isMark "[")) &&
        (← secondIs fun t => t.kind == .string || t.kind == .number || isAnyWord t) &&
        (← thirdIs (isMark "]")) then
      let _ ← anyToken
      let _ ← anyToken
      mark "]"
      queryTail next e start (← close .subscript start [object]) rounds
    else if ← nextIs (isMark "(") then
      let args ← callArguments next
      queryTail next e start (← close .call start [object, args]) rounds
    else
      pure object

/-- The type of a value: a dotted name after `typeof`. -/
def typeQuery (next : Grammar) (e : Ending) : Parse (List Tree) := do
  word "typeof"
  let start ← here
  let first ← if ← nextIs (isWord "this") then wordLeaf .thisRef else wordLeaf .identifier
  let query ← queryTail next e start first (← roundLimit)
  let types ←
    if ← semicolonHere e then pure [] else optional (typeArguments next)
  pure (query :: types)

/-! ## Types of objects -/

/-- A key in brackets that stands for many: `[key: string]` or `[K in T]`. -/
def indexKey (next : Grammar) : Parse (List Tree) := do
  mark "["
  let _ ← wordLeaf .name
  if ← tryMark ":" then
    let key ← next (.type .inside)
    mark "]"
    pure [key]
  else
    word "in"
    let keys ← next (.type .inside)
    let renamed ← if ← tryWord "as" then pure [← next (.type .inside)] else pure []
    mark "]"
    pure (keys :: renamed)

/-- An index signature starts here. -/
def atIndexKey : Parse Bool := do
  pure ((← nextIs (isMark "[")) && (← secondIs isAnyWord) &&
    (← thirdIs fun t => isMark ":" t || isWord "in" t))

/-- The type of the members under an index key, which may be made optional or not. -/
def indexedType (next : Grammar) (e : Ending) : Parse Tree :=
  node .typeClause do
    if (← nextIs (isOneOf ["+", "-"])) then
      let _ ← anyToken
    let _ ← tryMark "?"
    mark ":"
    pure [← next (.type e)]

/-- A signature for many keys at once. -/
def indexSignature (next : Grammar) (e : Ending) : Parse (List Tree) := do
  let key ← indexKey next
  let type ← optionalIf (isOneOf [":", "?", "-", "+"]) (indexedType next e)
  pure (key ++ type)

/-- A member of the type of an object. -/
def typeMember (next : Grammar) : Parse Tree :=
  node .type do
    let start ← get
    if ← nextIs (isOneOf ["+", "-"]) then
      let _ ← anyToken
    let _ ← memberMarks .bare
    if ← atIndexKey then indexSignature next .bare
    else
      set start
      let _ ← memberMarks .bare
      if (← nextIs (isWord "new")) && (← secondIs (isOneOf ["(", "<"])) then
        word "new"
        callSignature next .bare
      else if ← nextIs (isOneOf ["(", "<"]) then callSignature next .bare
      else
        let name ← propertyName next
        if ← semicolonHere .bare then pure [name]
        else
          let _ ← tryMark "?"
          if ← nextIs (isOneOf ["(", "<"]) then pure (name :: (← callSignature next .bare))
          else pure (name :: (← optionalIf (isMark ":") (typeClause next .bare)))

/-- The members of the type of an object up to its closing brace. -/
def typeMembers (next : Grammar) : Nat → Parse (List Tree)
  | 0 => failure
  | rounds + 1 => do
    if ← tryMark "\x7d" then pure []
    else if (← tryMark ",") || (← tryMark ";") then typeMembers next rounds
    else
      let first ← typeMember next
      let ended ← semicolonHere .bare
      check (ended || (← nextIs (isOneOf [",", ";", "\x7d"])))
      pure (first :: (← typeMembers next rounds))

/-- The type of an object. -/
def objectType (next : Grammar) : Parse Tree :=
  node .type do
    mark "\x7b"
    typeMembers next (← roundLimit)

/-! ## Types -/

/-- A function type, from its parameters on. -/
def functionType (next : Grammar) (e : Ending) : Parse (List Tree) := do
  let generics ← optionalIf (isOneOf ["<", "<<"]) (typeParameters next)
  let params ← parameters next
  mark "=>"
  let result ← resultType next e
  pure (generics ++ [params, result])

/-- The words that are types by themselves. -/
def plainTypes : List String :=
  ["this", "any", "number", "boolean", "string", "symbol", "void", "unknown", "never", "object",
    "true", "false", "null", "undefined", "const"]

/-- A type named by a dotted name, with its arguments. -/
def namedType (next : Grammar) : Parse (List Tree) := do
  let first ← tokenIf isAnyWord
  if plainTypes.contains first.text then pure []
  else
    let args ←
      if first.text == "import" then optionalIf (isMark "(") (callArguments next) else pure []
    let _ ← many do
      mark "."
      let _ ← wordLeaf .name
      pure []
    let types ← optional (typeArguments next)
    pure (args ++ types)

/-- An element of a tuple type: perhaps named, optional or spread. -/
def tupleElement (next : Grammar) : Parse Tree :=
  node .type do
    let _ ← tryMark "..."
    if ← nextIs isAnyWord then
      let labelled ← secondIs (isMark ":")
      let marked ← secondIs (isMark "?")
      if labelled || (marked && (← thirdIs (isMark ":"))) then
        let _ ← anyToken
        let _ ← tryMark "?"
        mark ":"
    let type ← next (.type .inside)
    let _ ← tryMark "?"
    pure [type]

/-- A type without operators. -/
def primaryType (next : Grammar) : Parse Tree :=
  node .type do
    match ← peek? with
    | none => failure
    | some t =>
      match t.kind with
      | .word => namedType next
      | .string => pure [← leaf .string fun _ => true]
      | .number => pure [← leaf .number fun _ => true]
      | .mark =>
        match t.text with
        | "(" => do
          mark "("
          let inside ← next (.type .inside)
          mark ")"
          pure [inside]
        | "[" => do
          mark "["
          listUntil "]" (tupleElement next)
        | "\x7b" => pure [← objectType next]
        | "\x60" => pure [← templateLiteral (next (.type .inside))]
        | "?" => do
          mark "?"
          pure [← next (.typeOperand .inside)]
        | _ => do
          check (isOneOf ["-", "+"] t)
          let _ ← anyToken
          pure [← leaf .number fun t => t.kind == .number]
      | .privateName => failure

/-- The brackets after a type: arrays of it, and the types of its members. -/
def typeSuffix (next : Grammar) (e : Ending) : Parse (List Tree) := do
  check !(← semicolonHere e)
  mark "["
  if ← tryMark "]" then pure []
  else
    let index ← next (.type .inside)
    mark "]"
    pure [index]

/-- A type that is inferred, with its bound; the bound of a conditional type is not its own. -/
def inferredType (next : Grammar) (e : Ending) : Parse (List Tree) := do
  word "infer"
  let _ ← wordLeaf .name
  optional do
    check !(← semicolonHere e)
    word "extends"
    let bound ← next (.typeOperand e)
    check !(← nextIs (isMark "?"))
    pure bound

/-- A type between the marks of a union or an intersection. -/
def typeOperand (next : Grammar) (e : Ending) : Parse Tree :=
  node .type do
    match ← peek? with
    | none => failure
    | some t =>
      if isWordOf ["keyof", "readonly", "unique"] t then
        let _ ← anyToken
        pure [← next (.typeOperand e)]
      else if isWord "infer" t then inferredType next e
      else if isWord "typeof" t then
        let query ← typeQuery next e
        pure (query ++ (← many (typeSuffix next e)))
      else if isWord "abstract" t && (← secondIs (isWord "new")) then
        word "abstract"
        word "new"
        functionType next e
      else if isWord "new" t && (← secondIs (isOneOf ["(", "<"])) then
        word "new"
        functionType next e
      else if isOneOf ["<", "<<"] t then functionType next e
      else if isMark "(" t && (← arrowAfterGroup) then
        functionType next e <|> (do
          let first ← primaryType next
          pure (first :: (← many (typeSuffix next e))))
      else
        let first ← primaryType next
        pure (first :: (← many (typeSuffix next e)))

/-- Any type: a union or an intersection, or a conditional type. -/
def anyType (next : Grammar) (e : Ending) : Parse Tree :=
  node .type do
    if ← nextIs (isOneOf ["|", "&"]) then
      let _ ← anyToken
    let first ← next (.typeOperand e)
    let others ← many do
      check (← nextIs (isOneOf ["|", "&"]))
      let _ ← anyToken
      pure [← next (.typeOperand e)]
    let branches ← optional <| node .type do
      check !(← semicolonHere e)
      word "extends"
      let bound ← next (.type .inside)
      mark "?"
      let yes ← next (.type .inside)
      mark ":"
      let no ← next (.type e)
      pure [bound, yes, no]
    pure (first :: others ++ branches)

end Trellis.TypeScript.Parse
