import Trellis.TypeScript.Parse.Statements

/-!
# Parsing TypeScript modules

The rules of the grammar tied together. Each use of a rule inside another goes one level of
nesting down, and a module cannot nest deeper than a fixed multiple of its number of characters,
so that the depth given by `parseModule` is always enough.
-/

namespace Trellis.TypeScript

/-- The grammar at a depth: the body of each rule, with the rules inside it one level down. -/
def grammar : Nat → Grammar
  | 0, _ => failure
  | depth + 1, rule =>
    let next := grammar depth
    match rule with
    | .statement => Parse.statement next
    | .block e => Parse.block next e
    | .expression mode => Parse.expression next mode
    | .assignment mode => Parse.assignment next mode
    | .unary mode => Parse.unary next mode
    | .pattern => Parse.pattern next
    | .type e => Parse.anyType next e
    | .typeOperand e => Parse.typeOperand next e
    | .classTail => Parse.classTail next

/-- The tree of a module. -/
def parseModule (source : List Char) : Tree :=
  match (Parse.program (grammar (8 * source.length + 8))).run (Stream.ofChars source) with
  | some (tree, _) => tree
  | none => .node .program 0 source.length []

end Trellis.TypeScript
