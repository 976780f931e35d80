import Trellis.Path

/-!
# File trees

The files and folders that a run reads and writes, as a value. A path is followed the way a file
system follows it: each segment but the last has to be a folder, and `..` goes up from where the
segments before it lead.

* `FileTree.readText` reads a text file: its bytes have to be valid, and every line break becomes a
  line feed.
* `FileTree.writeText` makes the folders above a file and puts the file in its place.
-/

namespace Trellis

open Trellis.Text

/-- What stands at a path. -/
inductive FileNode where
  | folder
  | file (bytes : ByteArray)

/-- Nodes by path. The paths hold no `..`, and the folders above a node are nodes too. -/
structure FileTree where
  nodes : List (Path × FileNode) := []

/-- Why a text cannot be read. -/
inductive ReadError where
  | missing
  | folder
  | notText
  deriving DecidableEq, Repr

/-- Why a file cannot be written. -/
inductive WriteError where
  /-- A file stands where a folder is needed. -/
  | occupied
  /-- A file stands above the folder that is needed. -/
  | belowFile
  /-- A folder stands where the file is to be. -/
  | folder
  deriving DecidableEq, Repr

namespace FileTree

/-! ## Looking -/

/-- The node at a path that holds no `..`. A path without segments is a folder. -/
def nodeAt? (t : FileTree) (p : Path) : Option FileNode :=
  if p.segments.isEmpty then some .folder else t.nodes.lookup p

/-- A folder is at a path that holds no `..`. -/
def hasFolder (t : FileTree) (p : Path) : Bool :=
  match t.nodeAt? p with
  | some .folder => true
  | _ => false

/-- Where the segments lead from a folder, if every one but the last is a folder. -/
def follow? (t : FileTree) (place : Path) : List String → Option Path
  | [] => some place
  | s :: rest =>
    if !t.hasFolder place then none
    else if s = ".." then t.follow? place.parent rest
    else t.follow? { place with segments := place.segments ++ [s] } rest

/-- The node at a path. -/
def node? (t : FileTree) (p : Path) : Option FileNode :=
  (t.follow? ⟨p.root, []⟩ p.segments).bind t.nodeAt?

/-- Something is at a path. -/
def contains (t : FileTree) (p : Path) : Bool := (t.node? p).isSome

/-- A folder is at a path. -/
def isFolder (t : FileTree) (p : Path) : Bool :=
  match t.node? p with
  | some .folder => true
  | _ => false

/-- The characters with every line break a line feed. -/
def unifyBreaks : List Char → List Char
  | [] => []
  | '\r' :: '\n' :: cs => '\n' :: unifyBreaks cs
  | c :: cs => (if c = '\r' then '\n' else c) :: unifyBreaks cs

/-- The text of bytes, which have to be valid. -/
def decode? (bytes : ByteArray) : Option String :=
  (String.fromUTF8? bytes).map fun s => String.ofList (unifyBreaks s.toList)

/-- The text of the file at a path. -/
def readText (t : FileTree) (p : Path) : Except ReadError String :=
  match t.node? p with
  | none => .error .missing
  | some .folder => .error .folder
  | some (.file bytes) =>
    match decode? bytes with
    | some text => .ok text
    | none => .error .notText

/-- The names and nodes in the folder at a path, by name. -/
def entries (t : FileTree) (p : Path) : List (String × FileNode) :=
  match t.follow? ⟨p.root, []⟩ p.segments with
  | none => []
  | some place =>
    let below := t.nodes.filter fun (q, _) => !q.segments.isEmpty && q.parent == place
    (below.map fun (q, n) => (q.name, n)).mergeSort fun a b => decide (a.1 ≤ b.1)

/-! ## Changing -/

/-- The tree with a node put at a path that holds no `..`. -/
def putNode (t : FileTree) (p : Path) (n : FileNode) : FileTree :=
  ⟨t.nodes.filter (fun (q, _) => q != p) ++ [(p, n)]⟩

/-- The tree with the folders that segments name, and where they lead. -/
def makeFolders (t : FileTree) (place : Path) : List String → Except WriteError (Path × FileTree)
  | [] => .ok (place, t)
  | s :: rest =>
    if s = ".." then t.makeFolders place.parent rest
    else
      let next : Path := { place with segments := place.segments ++ [s] }
      match t.nodeAt? next with
      | some .folder => t.makeFolders next rest
      | some (.file _) => .error (if rest.isEmpty then .occupied else .belowFile)
      | none => (t.putNode next .folder).makeFolders next rest

/-- The tree with a node at a path, and with the folders above it. -/
def put (t : FileTree) (p : Path) (n : FileNode) : Except WriteError FileTree := do
  let (place, t) ← t.makeFolders ⟨p.root, []⟩ p.parent.segments
  let target : Path := { place with segments := place.segments ++ [p.name] }
  match n, t.nodeAt? target with
  | .file _, some .folder => .error .folder
  | .folder, some .folder => pure t
  | .folder, some (.file _) => .error .occupied
  | _, _ => pure (t.putNode target n)

/-- The tree with a text in the file at a path. -/
def writeText (t : FileTree) (p : Path) (text : String) : Except WriteError FileTree :=
  t.put p (.file text.toUTF8)

/-- The tree without what is at a path and below it. -/
def remove (t : FileTree) (p : Path) : FileTree :=
  match t.follow? ⟨p.root, []⟩ p.segments with
  | none => t
  | some place => ⟨t.nodes.filter fun (q, _) => (q.relativeTo? place).isNone⟩

/-! ## All files below a folder -/

/-- The files below the folder at a path, each with its path from there and its bytes, in the order
of these paths. -/
def filesBelow (t : FileTree) (p : Path) : List (String × ByteArray) :=
  match t.follow? ⟨p.root, []⟩ p.segments with
  | none => []
  | some place =>
    let found := t.nodes.filterMap fun (q, n) =>
      match q.relativeTo? place, n with
      | some r, .file bytes => if r.segments.isEmpty then none else some (r.toString, bytes)
      | _, _ => none
    found.mergeSort fun a b => decide (a.1 ≤ b.1)

end FileTree

end Trellis
