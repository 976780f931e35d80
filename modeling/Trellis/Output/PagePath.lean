import Trellis.Output.File
import Trellis.Project.View

/-!
# Addresses of pages

A page's address comes from where its source is: folders named `routes` and a leading `home` do not
show, and `home` itself is the index.

* `pagePath` is the file a page's module goes to, from its place or from the address it asks for.
-/

namespace Trellis.Output

open Trellis.Text
open Trellis.Project

/-- The first occurrence of a pattern replaced. -/
def replaceFirst (pat new cs : List Char) : List Char :=
  match breakAt? pat cs with
  | some (before, after) => before ++ new ++ after
  | none => cs

/-- The characters after a fixed beginning, or all of them. -/
def dropStart (start cs : List Char) : List Char :=
  if start.isPrefixOf cs then cs.drop start.length else cs

/-- The characters after a group in parentheses and its folder of pages, or all of them. -/
def dropGroup (cs : List Char) : List Char :=
  match cs with
  | '(' :: rest =>
    let name := rest.takeWhile (· != ')')
    let after := rest.drop name.length
    if !name.isEmpty && ")/routes/".toList.isPrefixOf after then after.drop 9 else cs
  | _ => cs

/-- A word that is the whole text, but for a final line feed, replaced. -/
def replaceWhole (word new cs : List Char) : List Char :=
  if beforeFinalBreak cs == word then new ++ cs.drop word.length else cs

/-- The characters without a final `_app`, with or without a slash after it; a final line feed
stays. -/
def dropApp (cs : List Char) : List Char :=
  let body := beforeFinalBreak cs
  let tail := cs.drop body.length
  let cut := ["_app/".toList, "_app".toList].find? (·.isSuffixOf body)
  match cut with
  | some word => body.take (body.length - word.length) ++ tail
  | none => cs

/-- The address of a page from where its source is. -/
def addressOf (relativePath : String) : String :=
  let cs := replaceFirst "/routes/".toList ['/'] relativePath.toList
  let cs := dropGroup (dropStart "routes/".toList cs)
  let cs := replaceWhole "home".toList "index".toList (dropStart "home/".toList cs)
  String.ofList (dropApp cs)

/-- The text without slashes at both ends. -/
def trimSlashes (s : String) : String := String.ofList (trimBoth (· == '/') s.toList)

/-- The file of a page's module. An address that the page asks for counts before its place, and a
source named in brackets keeps its name. -/
def pagePath (relativePath : String) (filename : String := "mod.ts")
    (explicit : Option String := none) : String :=
  let address := (explicit.map trimSlashes).getD (addressOf relativePath)
  match dynamicSegment? filename with
  | some segment => collapseSlashes ("routes/" ++ address ++ "/[" ++ segment ++ "].tsx")
  | none =>
    if address == "index" || address == "" then "routes/index.tsx"
    else if hasEnd address "/index" then
      collapseSlashes ("routes/" ++ dropLast 6 address ++ "/index.tsx")
    else collapseSlashes ("routes/" ++ address ++ ".tsx")

end Trellis.Output
