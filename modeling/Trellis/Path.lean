import Trellis.Text.Cut

/-!
# Paths

Slash-separated paths, as text with a normal form: empty segments and `.` are dropped, `..` is
kept, and a path that starts with exactly two slashes keeps both. Joining an absolute path onto
another one replaces it.

* `Path.resolve` removes `..` segments by going up, without regard to what the segments are.
-/

namespace Trellis

open Trellis.Text

/-- A path: the slashes it starts with, and its segments. -/
structure Path where
  root : String := ""
  segments : List String := []
  deriving DecidableEq, Repr

namespace Path

/-- The slashes that a path text starts with, as far as they count. -/
def rootOf (text : List Char) : String :=
  match text.takeWhile (· == '/') with
  | [] => ""
  | ['/', '/'] => "//"
  | _ => "/"

/-- The path that a text denotes. -/
def ofString (text : String) : Path :=
  ⟨rootOf text.toList, (splitOn '/' text).filter fun s => s != "" && s != "."⟩

/-- The path as text; the empty path is a single dot. -/
def toString (p : Path) : String :=
  if p.root.isEmpty && p.segments.isEmpty then "." else p.root ++ "/".intercalate p.segments

instance : ToString Path := ⟨Path.toString⟩

/-- The path starts at the root. -/
def isAbsolute (p : Path) : Bool := !p.root.isEmpty

/-- `q` seen from `p`; an absolute `q` is itself. -/
def join (p q : Path) : Path := if q.isAbsolute then q else ⟨p.root, p.segments ++ q.segments⟩

/-- The path that a text denotes, seen from `p`. -/
def child (p : Path) (text : String) : Path := p.join (ofString text)

/-- The path without its last segment. -/
def parent (p : Path) : Path := { p with segments := p.segments.dropLast }

/-- The last segment, empty if there is none. -/
def name (p : Path) : String := p.segments.getLast?.getD ""

/-- Where the extension of a file name starts: the last dot, unless it is the first or the last
character. -/
def splitExtension (name : String) : String × String :=
  let cs := name.toList
  let ext := (cs.reverse.takeWhile (· != '.')).reverse
  let stemLength := cs.length - ext.length - 1
  if ext.length < cs.length && 0 < stemLength && !ext.isEmpty then
    (String.ofList (cs.take stemLength), String.ofList ('.' :: ext))
  else
    (name, "")

/-- The extension of the last segment, with its dot. -/
def extension (p : Path) : String := (splitExtension p.name).2

/-- The path with the extension of its last segment taken off. -/
def withoutExtension (p : Path) : Path :=
  match p.segments.getLast? with
  | none => p
  | some name => { p with segments := p.segments.dropLast ++ [(splitExtension name).1] }

/-- The path below `base`, if it is there. -/
def relativeTo? (p base : Path) : Option Path :=
  if p.root == base.root && base.segments.isPrefixOf p.segments then
    some ⟨"", p.segments.drop base.segments.length⟩
  else
    none

/-- Segments without `..`: each one takes back the segment before it, and at the root nothing. -/
def resolveSegments (segments : List String) : List String :=
  segments.foldl (fun out s => if s = ".." then out.dropLast else out ++ [s]) []

/-- An absolute path without `..`. -/
def resolve (p : Path) : Path := ⟨p.root, resolveSegments p.segments⟩

end Path

end Trellis
