import Trellis.Table
import Trellis.Text.Quoted
import Trellis.TypeScript.Source

/-!
# Decorators and classes of a module

Decorators are read and never run: their options are the literal values in the first argument, and
everything that is no plain literal is kept as its source text.

* `Source.classes` lists the top-level classes of a module with their decorators.
-/

namespace Trellis.TypeScript

open Trellis.Text

/-- The value of a decorator option. Strings keep their escapes. -/
inductive OptionValue where
  | text (value : String)
  /-- The source text of a value that is no plain literal. -/
  | code (source : String)
  | bool (value : Bool)
  | null
  | list (items : List OptionValue)
  | record (rows : List (String × OptionValue))
  deriving Repr

/-- A text given as an option: a string, or the code that stands for one. -/
structure OptionText where
  text : String
  isCode : Bool := false
  deriving DecidableEq, Repr

/-- Options by name. -/
abbrev Options := List (String × OptionValue)

namespace OptionValue

/-- The characters of a string or of a piece of code. -/
def string? : OptionValue → Option OptionText
  | .text s => some ⟨s, false⟩
  | .code s => some ⟨s, true⟩
  | _ => none

/-- A truth value. -/
def bool? : OptionValue → Option Bool
  | .bool b => some b
  | _ => none

/-- The value counts as absent: false, null, or empty. -/
def isFalsy : OptionValue → Bool
  | .text s => s.isEmpty
  | .code s => s.isEmpty
  | .bool b => !b
  | .null => true
  | .list items => items.isEmpty
  | .record rows => rows.isEmpty

mutual

/-- The value inside another one, as diagnostics show it. -/
def repr : OptionValue → String
  | .text s => reprQuote s
  | .code s => reprQuote s
  | .bool true => "True"
  | .bool false => "False"
  | .null => "None"
  | .list items => "[" ++ ", ".intercalate (reprItems items) ++ "]"
  | .record rows => "\x7b" ++ ", ".intercalate (reprRows rows) ++ "\x7d"

/-- The values of a list, one text each. -/
def reprItems : List OptionValue → List String
  | [] => []
  | v :: vs => v.repr :: reprItems vs

/-- The rows of a record, one text each. -/
def reprRows : List (String × OptionValue) → List String
  | [] => []
  | (k, v) :: rows => (reprQuote k ++ ": " ++ v.repr) :: reprRows rows

end

/-- The value as text: a string as it is, anything else as diagnostics show it. -/
def display (v : OptionValue) : String := (v.string?.map (·.text)).getD v.repr

end OptionValue

/-- The option of a given name. -/
def Options.get? (options : Options) (key : String) : Option OptionValue := options.lookup key

/-- The first of the named options that is a string and not empty. -/
def Options.string? (options : Options) (keys : List String) : Option OptionText :=
  keys.findSome? fun key =>
    ((options.get? key).bind OptionValue.string?).filter fun s => !s.text.isEmpty

/-- The option of a given name, if it is a truth value. -/
def Options.bool? (options : Options) (key : String) : Option Bool :=
  (options.get? key).bind OptionValue.bool?

/-! ## Reading values -/

/-- The text without its delimiters. -/
def Source.unquoted (s : Source) (t : Tree) : String := inner (s.textOf t)

/-- The name of a property: its source text, or the inside of a string. -/
def Source.keyOf (s : Source) (t : Tree) : String :=
  match t.child? .string with
  | some q => if q.start == t.start then s.unquoted q else s.textOf t
  | none => s.textOf t

mutual

/-- The value of an expression. -/
def Source.valueOf (s : Source) : Tree → OptionValue
  | .node .string a b cs => .text (s.unquoted (.node .string a b cs))
  | .node .template a b cs =>
    if cs.isEmpty then .text (s.unquoted (.node .template a b cs))
    else .code (s.textOf (.node .template a b cs))
  | .node .trueLiteral _ _ _ => .bool true
  | .node .falseLiteral _ _ _ => .bool false
  | .node .nullLiteral _ _ _ => .null
  | .node .array _ _ cs => .list (s.valuesOf cs)
  | .node .object _ _ cs => .record (Table.ofList (s.rowsOf cs)).rows
  | t => .code (s.textOf t)

/-- The values of a list of expressions. -/
def Source.valuesOf (s : Source) : List Tree → List OptionValue
  | [] => []
  | t :: ts => s.valueOf t :: s.valuesOf ts

/-- The rows of the members of an object; methods and spreads give none. -/
def Source.rowsOf (s : Source) : List Tree → List (String × OptionValue)
  | [] => []
  | .node .pair _ _ [key, value] :: ts => (s.keyOf key, s.valueOf value) :: s.rowsOf ts
  | .node .shorthand a b cs :: ts =>
    let name := s.textOf (.node .shorthand a b cs)
    (name, .code name) :: s.rowsOf ts
  | _ :: ts => s.rowsOf ts

end

/-- The options in an object literal. -/
def Source.optionsOf (s : Source) (t : Tree) : Options :=
  if t.kind == .object then (Table.ofList (s.rowsOf t.children)).rows else []

/-! ## Decorators -/

/-- A decorator: its name without what stands before the last dot, its options, and whether it is
called. -/
structure Decorator where
  name : String
  options : Options := []
  called : Bool := false
  deriving Repr

/-- The name after the last dot. -/
def afterLastDot (name : String) : String := (splitOn '.' name).getLast?.getD name

/-- Reads a decorator. Options are read only if the first argument is an object literal. -/
def Source.decoratorOf (s : Source) (t : Tree) : Decorator :=
  match t.children with
  | [] => ⟨"", [], false⟩
  | expression :: _ =>
    match expression.kind, expression.children with
    | .call, callee :: rest =>
      let args := (rest.find? (·.kind == .arguments)).map (·.children)
      let options := ((args.bind (·.head?)).map s.optionsOf).getD []
      ⟨afterLastDot (s.textOf callee), options, true⟩
    | _, _ => ⟨afterLastDot (s.textOf expression), [], false⟩

/-- The decorators among the children of a node. -/
def Source.decoratorsOf (s : Source) (t : Tree) : List Decorator :=
  (t.childrenOf .decorator).map s.decoratorOf

/-- The first decorator of a given name. -/
def findDecorator (name : String) (decorators : List Decorator) : Option Decorator :=
  decorators.find? (·.name == name)

/-! ## Classes -/

/-- A class at the top level of a module. -/
structure ClassDeclaration where
  name : Option String
  tree : Tree
  decorators : List Decorator
  exported : Bool

/-- The class that a top-level statement declares, exported or not. -/
def Source.classOf? (s : Source) (t : Tree) : Option ClassDeclaration :=
  match t.kind with
  | .classDeclaration =>
    some ⟨(t.child? .name).map s.textOf, t, s.decoratorsOf t, false⟩
  | .exported =>
    (t.child? .classDeclaration).map fun c =>
      ⟨(c.child? .name).map s.textOf, c, s.decoratorsOf t ++ s.decoratorsOf c, true⟩
  | _ => none

/-- The classes at the top level of a module. -/
def Source.classes (s : Source) : List ClassDeclaration := s.tree.children.filterMap s.classOf?

/-- The class carries a decorator. -/
def ClassDeclaration.carries (c : ClassDeclaration) (decorator : String) : Bool :=
  (findDecorator decorator c.decorators).isSome

/-- The first class with a decorator; exported classes come first. -/
def Source.findClass (s : Source) (decorator : String) : Option ClassDeclaration :=
  let found := s.classes.filter (·.carries decorator)
  (found.find? (·.exported)).orElse fun _ => found.head?

/-- The name of the first exported class. -/
def Source.exportedClass (s : Source) : Option String :=
  (s.classes.filter (·.exported)).findSome? fun c => c.name.filter (!·.isEmpty)

end Trellis.TypeScript
