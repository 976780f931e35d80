import Trellis.TypeScript.Parse.Expressions

/-!
# Parsing TypeScript: classes

A class is its name, its heritage and its members. A member is a field, a method, a signature
without a body, or a static block.

* After a name or a modifier a semicolon is understood at a line break, so that a modifier on a
  line of its own is a field.
-/

namespace Trellis.TypeScript.Parse

/-- Ends a member. -/
def endOfMember (e : Ending) : Parse Unit := do
  if ← semicolonHere e then pure () else if ← tryMark "," then pure () else mark ";"

/-- A static block. -/
def staticBlock (next : Grammar) : Parse Tree :=
  node .signature do
    word "static"
    pure [← next (.block .bare)]

/-- A method from its parameters on, its body if it has one. -/
def methodTail (next : Grammar) (start : Nat) (marks : MemberMarks) (head : List Tree) :
    Parse Tree := do
  let signature ← callSignature next .signature
  let children := head ++ signature
  if ← semicolonHere .signature then close .signature start children
  else if ← nextIs (isMark "\x7b") then
    let body ← next (.block .bare)
    close (.method marks.role marks.isAsync) start (children ++ [body])
  else
    let tree ← close .signature start children
    endOfMember .signature
    pure tree

/-- A field from its type on. -/
def fieldTail (next : Grammar) (start : Nat) (isOptional isDefinite : Bool) (head : List Tree) :
    Parse Tree := do
  let type ← optionalIf (isMark ":") (typeClause next .bare)
  let value ← initialValue next { ends := true }
  let field ← close (.field isOptional isDefinite) start (head ++ type ++ value)
  endOfMember (if value.isEmpty then .bare else .value)
  pure field

/-- A field or a method, with its decorators and modifiers. -/
def fieldOrMethod (next : Grammar) : Parse Tree := do
  let start ← here
  let decorators ← decorators next
  let marks ← memberMarks .bare
  let name ← propertyName next
  let head := decorators ++ [name]
  if ← semicolonHere .bare then close (.field false false) start head
  else
    let isOptional ← tryMark "?"
    let isDefinite ← if isOptional then pure false else tryMark "!"
    if ← nextIs (isOneOf ["(", "<"]) then methodTail next start marks head
    else fieldTail next start isOptional isDefinite head

/-- A signature for many keys, with its modifiers. -/
def indexMember (next : Grammar) : Parse Tree :=
  node .signature do
    if ← nextIs (isOneOf ["+", "-"]) then
      let _ ← anyToken
    let _ ← memberMarks .bare
    check (← atIndexKey)
    let signature ← indexSignature next .bare
    endOfMember .bare
    pure signature

/-- A member of a class; a lone semicolon is none. -/
def classMember (next : Grammar) : Parse (List Tree) := do
  if ← tryMark ";" then pure []
  else if (← nextIs (isWord "static")) && (← secondIs (isMark "\x7b")) &&
      !(← semicolonAfterNext .bare) then
    pure [← staticBlock next]
  else
    (do pure [← indexMember next]) <|> (do pure [← fieldOrMethod next])

/-- A member of a class, or what is passed over in its place. -/
def memberOrError (next : Grammar) : Parse (List Tree) := do
  if (← get).lenient then
    let member := node .classBody (classMember next)
    (do pure (← leniently member).children) <|> (do
      skipGroup
      pure [])
  else
    classMember next

/-- The members of a class, in braces. -/
def classBody (next : Grammar) : Parse Tree :=
  node .classBody do
    mark "\x7b"
    let members ← many do
      check !(← nextIs (isMark "\x7d"))
      memberOrError next
    mark "\x7d"
    pure members

/-- What a class extends and implements. -/
def heritage (next : Grammar) : Parse (List Tree) :=
  many do
    if ← tryWord "extends" then
      let first ← next (.assignment {})
      let others ← many do
        mark ","
        pure [← next (.assignment {})]
      pure (first :: others)
    else
      word "implements"
      let first ← next (.type .inside)
      let others ← many do
        mark ","
        pure [← next (.type .inside)]
      pure (first :: others)

/-- A class, from the word `class` on. -/
def classTail (next : Grammar) : Parse Tree :=
  node .classDeclaration do
    word "class"
    let name ← optionalIf (fun t => isAnyWord t && !isWordOf ["extends", "implements"] t)
      (wordLeaf .name)
    let generics ← optionalIf (isMark "<") (typeParameters next)
    let parents ← heritage next
    let body ← classBody next
    pure (name ++ generics ++ parents ++ [body])

end Trellis.TypeScript.Parse
