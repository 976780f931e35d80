import Trellis.TypeScript.Parse.Stream

/-!
# Parsing TypeScript: names, modifiers and decorators

What stands at the head of a member of a class, an object or a type, and before a parameter.

* A modifier is a word that could be a name too: it is one if a name follows it, and if no
  semicolon is understood between them.
-/

namespace Trellis.TypeScript.Parse

/-- The name of a property or a member. -/
def propertyName (next : Grammar) : Parse Tree :=
  node .name do
    if ← tryMark "[" then
      let inside ← next (.assignment {})
      mark "]"
      pure [inside]
    else
      let t ← tokenIf fun t => t.kind != .mark
      if t.kind == .string then pure [.node .string t.start t.stop []] else pure []

/-- A token that can start the name of a member. -/
def startsName (t : Token) : Bool := t.kind != .mark || isMark "[" t

/-! ## Modifiers -/

/-- What stands before the name of a member: its role, and whether it is asynchronous. -/
structure MemberMarks where
  role : MethodRole := .plain
  isAsync : Bool := false

/-- The words that can stand before a member. -/
def memberModifiers : List String :=
  ["public", "private", "protected", "static", "override", "readonly", "declare", "abstract",
    "accessor", "async", "get", "set"]

/-- The next token is a modifier of the member after it. -/
def atModifier (e : Ending) : Parse Bool := do
  if ← nextIs (isWordOf memberModifiers) then
    let named ← secondIs fun t => startsName t || isMark "*" t
    pure (named && !(← semicolonAfterNext e))
  else
    pure false

/-- The words and the asterisk before the name of a member, after those in `marks`. -/
def memberMarksFor (e : Ending) (marks : MemberMarks) : Nat → Parse MemberMarks
  | 0 => pure marks
  | rounds + 1 => do
    if ← tryMark "*" then pure marks
    else if ← atModifier e then
      let t ← anyToken
      match t.text with
      | "get" => pure { marks with role := .getter }
      | "set" => pure { marks with role := .setter }
      | "async" => memberMarksFor e { marks with isAsync := true } rounds
      | _ => memberMarksFor e marks rounds
    else
      pure marks

/-- The words and the asterisk before the name of a member. -/
def memberMarks (e : Ending) : Parse MemberMarks := do memberMarksFor e {} (← roundLimit)

/-! ## Arguments and decorators -/

/-- A value, or all values of a list. -/
def spreadable (next : Grammar) : Parse Tree := do
  if ← nextIs (isMark "...") then
    node .spread do
      mark "..."
      pure [← next (.assignment {})]
  else
    next (.assignment {})

/-- The arguments of a call. -/
def callArguments (next : Grammar) : Parse Tree :=
  node .arguments do
    mark "("
    listUntil ")" (spreadable next)

/-- A list of type arguments. -/
def typeArguments (next : Grammar) : Parse Tree :=
  node .type do
    check (← nextIs (isOneOf ["<", "<<"]))
    passChars 1
    listUntil ">" (next (.type .inside))

/-- The dotted name of a decorator. -/
def dottedName (start : Nat) (object : Tree) : Nat → Parse Tree
  | 0 => pure object
  | rounds + 1 => do
    if ← tryMark "." then
      let name ← wordLeaf .name
      dottedName start (← close .member start [object, name]) rounds
    else
      pure object

/-- A dotted name, called or not. -/
def decoratorCall (next : Grammar) : Parse Tree := do
  let start ← here
  let first ← wordLeaf .identifier
  let callee ← dottedName start first (← roundLimit)
  let types ← optionalIf (isMark "<") (typeArguments next)
  if ← nextIs (isMark "(") then close .call start (callee :: types ++ [← callArguments next])
  else
    check types.isEmpty
    pure callee

/-- A decorator: a dotted name, called or not, perhaps in parentheses. Comments after its mark
belong to it. -/
def decorator (next : Grammar) : Parse Tree :=
  node .decorator do
    mark "@"
    let comments ← commentsHere
    if ← nextIs (isMark "(") then
      let grouped ← node .parenthesized do
        mark "("
        let inside ← decoratorCall next
        mark ")"
        pure [inside]
      pure (comments ++ [grouped])
    else
      pure (comments ++ [← decoratorCall next])

/-- The decorators at the current place. -/
def decorators (next : Grammar) : Parse (List Tree) :=
  many do pure [← decorator next]

end Trellis.TypeScript.Parse
