import Trellis.Text.Cut
import Trellis.TypeScript.Parse

/-!
# TypeScript sources

A source text with its tree, and what can be asked of a node: its text, the members of `this` it
uses and assigns, and its text with those members spelled in another way.

* `Source.render` replaces the span of every `this.member` and leaves all other characters alone.
-/

namespace Trellis.TypeScript

open Trellis.Text

/-- The characters from `start` up to `stop`. -/
def slice (cs : List Char) (start stop : Nat) : List Char := (cs.drop start).take (stop - start)

/-- A source text and its tree. -/
structure Source where
  chars : List Char
  tree : Tree

/-- Reads a source text. -/
def Source.ofString (text : String) : Source :=
  let chars := text.toList
  ⟨chars, parseModule chars⟩

/-- The text of a node. -/
def Source.textOf (s : Source) (t : Tree) : String := String.ofList (slice s.chars t.start t.stop)

/-! ## Members of `this` -/

namespace Tree

/-- The name in a node of the form `this.name`. -/
def thisName? : Tree → Option Tree
  | .node .member _ _ (.node .thisRef _ _ _ :: name :: _) => some name
  | _ => none

mutual

/-- The nodes of the form `this.name`, in source order. -/
def thisMembers : Tree → List Tree
  | .node k a b cs =>
    if (thisName? (.node k a b cs)).isSome then [.node k a b cs] else thisMembersOf cs

/-- The nodes of the form `this.name` below a list of nodes. -/
def thisMembersOf : List Tree → List Tree
  | [] => []
  | t :: ts => t.thisMembers ++ thisMembersOf ts

end

/-- The names of the members of `this` that a node uses, in source order. -/
def thisNames (t : Tree) : List Tree := t.thisMembers.filterMap thisName?

/-- The name of the member of `this` that a node itself assigns to. -/
def assignedHere? : Tree → Option Tree
  | .node .assignment _ _ (target :: _) => target.thisName?
  | .node .update _ _ (target :: _) => target.thisName?
  | _ => none

mutual

/-- The names of the members of `this` that a node assigns to, in source order. -/
def assignedNames : Tree → List Tree
  | .node k a b cs => (assignedHere? (.node k a b cs)).toList ++ assignedNamesOf cs

/-- The names of the members of `this` that a list of nodes assigns to. -/
def assignedNamesOf : List Tree → List Tree
  | [] => []
  | t :: ts => t.assignedNames ++ assignedNamesOf ts

end

end Tree

/-! ## Substitution -/

/-- A stretch of the source and what to put in its place. -/
structure Edit where
  start : Nat
  stop : Nat
  text : List Char

/-- The characters from `cursor` up to `stop` with the edits made, which come in order. -/
def splice (cs : List Char) (cursor stop : Nat) : List Edit → List Char
  | [] => slice cs cursor stop
  | e :: es => slice cs cursor e.start ++ e.text ++ splice cs e.stop stop es

/-- The edits that spell each member of `this` as `resolve` says. -/
def Source.editsOf (s : Source) (resolve : String → String) (t : Tree) : List Edit :=
  t.thisMembers.filterMap fun m => m.thisName?.map fun name =>
    ⟨m.start, m.stop, (resolve (s.textOf name)).toList⟩

/-- The text of a node with each member of `this` spelled as `resolve` says. -/
def Source.render (s : Source) (resolve : Option (String → String)) (t : Tree) : String :=
  match resolve with
  | none => s.textOf t
  | some f => String.ofList (splice s.chars t.start t.stop (s.editsOf f t))

end Trellis.TypeScript
