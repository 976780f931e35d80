/-!
# TypeScript trees

The tree of a module keeps what the compiler asks about: classes and their members, the statements
of function bodies, and inside expressions the places where `this` is used, assigned to, or hidden
by a function of its own. Every node carries the offsets it covers; the text of a node is a slice
of the source.

The children of some kinds have fixed places:

* `member`: the object, then the name;
* `assignment`: the target, then the value; `update`: the target;
* `call`: the callee, then its arguments;
* `pair`: the key, then the value.
-/

namespace Trellis.TypeScript

/-- What a method is besides a function. -/
inductive MethodRole where
  | plain
  | getter
  | setter
  deriving DecidableEq, Repr

/-- The kinds of nodes. -/
inductive Kind where
  /-- A module. -/
  | program
  /-- An `export` of a declaration. -/
  | exported
  /-- A class that is declared by name. -/
  | classDeclaration
  /-- A class that is a value. -/
  | classExpression
  | classBody
  | decorator
  /-- A field of a class, with the marks `?` and `!` after its name. -/
  | field (isOptional isDefinite : Bool)
  /-- A method with a body. -/
  | method (role : MethodRole) (isAsync : Bool)
  /-- A method without a body, or an index signature. -/
  | signature
  | parameters
  | parameter
  /-- `public`, `private` or `protected` before a parameter. -/
  | visibility
  /-- `readonly` before a parameter. -/
  | readonlyMark
  /-- The name of a member, a property or a declaration. -/
  | name
  /-- A type with the colon before it. -/
  | typeClause
  /-- The value that a field or a variable starts with. -/
  | initial
  | type
  | block
  | returnStatement
  /-- Variables declared by `const`, `let` or `var`. -/
  | variableDeclaration
  /-- One declared variable: its pattern, type and initial value. -/
  | declarator
  /-- A conditional, a loop, a switch or a try statement. -/
  | controlFlow
  /-- Any other statement. -/
  | statement
  | comment
  /-- A function or an arrow function. -/
  | function
  | identifier
  | thisRef
  | string
  | template
  | substitution
  | number
  | regex
  | trueLiteral
  | falseLiteral
  | nullLiteral
  | array
  | object
  | pair
  /-- A property given by its name alone. -/
  | shorthand
  | spread
  | call
  | arguments
  | member
  /-- A value with an index in brackets. -/
  | subscript
  | parenthesized
  /-- A value with the mark `!` after it. -/
  | nonNull
  /-- An assignment, plain or with an operator. -/
  | assignment
  /-- A target with a default value, in a pattern. -/
  | defaulted
  /-- An increment or a decrement. -/
  | update
  /-- Any other expression. -/
  | expression
  deriving DecidableEq, Repr

/-- A node: its kind, the offsets it covers and its children in source order. -/
inductive Tree where
  | node (kind : Kind) (start stop : Nat) (children : List Tree)
  deriving Repr

namespace Tree

/-- The kind of a node. -/
def kind : Tree → Kind
  | .node k _ _ _ => k

/-- Where a node starts. -/
def start : Tree → Nat
  | .node _ a _ _ => a

/-- Where a node ends. -/
def stop : Tree → Nat
  | .node _ _ b _ => b

/-- The children of a node. -/
def children : Tree → List Tree
  | .node _ _ _ cs => cs

/-- A node with another kind. -/
def withKind (k : Kind) : Tree → Tree
  | .node _ a b cs => .node k a b cs

/-- The first child of a kind. -/
def child? (t : Tree) (k : Kind) : Option Tree := t.children.find? (·.kind == k)

/-- The kinds of values that can be assigned to. -/
def isTarget (t : Tree) : Bool :=
  match t.kind with
  | .identifier | .member | .subscript | .parenthesized | .nonNull | .array | .object => true
  | _ => false

/-- The children of a kind. -/
def childrenOf (t : Tree) (k : Kind) : List Tree := t.children.filter (·.kind == k)

/-- The children that are no comments. -/
def content (t : Tree) : List Tree := t.children.filter (·.kind != .comment)

mutual

/-- An expression read as the target of an assignment: what looks like an assignment inside is a
target with a default value. -/
def asPattern : Tree → Tree
  | .node .assignment a b cs => .node .defaulted a b (asPatternFirst cs)
  | .node .array a b cs => .node .array a b (asPatterns cs)
  | .node .object a b cs => .node .object a b (asPatterns cs)
  | .node .spread a b cs => .node .spread a b (asPatterns cs)
  | .node .pair a b cs => .node .pair a b (asPatternValues cs)
  | t => t

/-- All of a list read as targets. -/
def asPatterns : List Tree → List Tree
  | [] => []
  | t :: ts => asPattern t :: asPatterns ts

/-- The first of a list read as a target. -/
def asPatternFirst : List Tree → List Tree
  | [] => []
  | t :: ts => asPattern t :: ts

/-- All but the first of a list read as targets. -/
def asPatternValues : List Tree → List Tree
  | [] => []
  | t :: ts => t :: asPatterns ts

end

end Tree

end Trellis.TypeScript
