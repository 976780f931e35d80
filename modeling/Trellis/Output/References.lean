import Trellis.Naming
import Trellis.Text.Blank
import Trellis.Text.Letter
import Trellis.Text.Replacement
import Trellis.TypeScript.ClassModel

/-!
# References in templates

What the names in a template refer to in the generated function. Templates are changed as text,
name by name.

* `signalReferences` takes the value of a signal wherever its name is read.
* `serviceReferences` calls a service by the local that holds it.
-/

namespace Trellis.Output

open Trellis.Text
open Trellis.TypeScript (Dependency)

/-! ## Signals -/

/-- A character after which a name can stand that is not a member of something. -/
def opensReference (c : Char) : Bool := c == '\x7b' || c == '(' || c == '!' || isBlank c

/-- A character that can follow a name that is only read. -/
def followsReference (c : Char) : Bool := "\x7d&|?:.)]!=<>".toList.contains c

/-- What follows a name shows that it is read: it is not called, and its value is not yet taken. -/
def isRead (after : List Char) : Bool :=
  !".value".toList.isPrefixOf after &&
    ((after.dropWhile isBlank).head?.map followsReference).getD false

/-- Takes the value of one signal where it is read. -/
def signalRule (name : List Char) : Rule
  | _, c :: cs =>
    if opensReference c && name.isPrefixOf cs && isRead (cs.drop name.length) then
      some (name.length + 1, c :: name ++ ".value".toList)
    else none
  | _, [] => none

/-- The template with the values of signals taken where they are read, one signal after the
other. -/
def signalReferences (jsx : String) (names : List String) : String :=
  names.foldl (fun jsx name => substitute (signalRule name.toList) jsx) jsx

/-! ## Services -/

/-- Replaces `this.name.`, where `this` starts a word. -/
def ownServiceRule (name : List Char) (new : List ReplacementPart) : Rule := fun prev cs =>
  let pat := "this.".toList ++ name ++ ['.']
  if !(prev.map isWordChar).getD false && pat.isPrefixOf cs then
    some (pat.length, Replacement.fill new pat)
  else none

/-- Replaces `name.`, where the name is neither the end of a longer one nor a member. -/
def bareServiceRule (name : List Char) (new : List ReplacementPart) : Rule := fun prev cs =>
  let joined := (prev.map fun c => isWordChar c || c == '$' || c == '.').getD false
  let pat := name ++ ['.']
  if !joined && pat.isPrefixOf cs then some (pat.length, Replacement.fill new pat) else none

/-- The template with one service called by its local name, which is a replacement text. -/
def serviceReference (template : String) (d : Dependency) : Except ReplacementError String := do
  let new ← Replacement.parse (Naming.serviceVariable d.type ++ ".")
  let name := d.name.toList
  pure (substitute (bareServiceRule name new) (substitute (ownServiceRule name new) template))

/-- The template with each service called by its local name. -/
def serviceReferences (template : String) (dependencies : List Dependency) :
    Except ReplacementError String :=
  dependencies.foldlM serviceReference template

end Trellis.Output
