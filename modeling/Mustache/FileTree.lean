import Mustache.Error
import Mustache.Text.Search

/-!
# File trees

The files that templates and partials are read from: a tree of directories and files below one
root, and the directory in it that work is done in, with paths as texts.

## Shape decisions

* **A place is what leads to it from the root,** one name for each directory on the way and one for
  itself. A tree is a function from places to what is there, so changing one place changes the
  function at one argument.
* **A path is walked component by component,** as its directories are found: `.` and an empty
  component stay where they are, `..` goes up, and each of them needs a directory to stand in. The
  root is above itself.
* **A walk starts at the root for an absolute path and in the working place for any other.** So the
  same path may lead elsewhere after a change of the working place, and an absolute one never does.
* **No node stands for another.** There are no links, so a place is where its name says it is.
-/

namespace Mustache

/-- What is at a place of a tree. -/
inductive FileNode
  | directory
  | file (bytes : List UInt8)
  deriving DecidableEq

/-- Directories and files in their places. The root and the working place are directories, whatever
`node?` has there. -/
structure FileTree where
  /-- What is in a place. -/
  node? : List String → Option FileNode
  /-- Where paths that are not absolute start. -/
  working : List String

namespace FileTree

/-- The tree that is nothing but a working place and the directories around it. -/
def around (working : List String) : FileTree :=
  ⟨fun place ↦ if place.isPrefixOf working then some .directory else none, working⟩

/-- A working place with nothing in it, two levels below the root. -/
def empty : FileTree :=
  around ["tmp", "work"]

/-- The tree with another node, or none, in one place. -/
def set (tree : FileTree) (place : List String) (node? : Option FileNode) : FileTree :=
  { tree with node? := fun other ↦ if other = place then node? else tree.node? other }

/-- The components of a path. -/
def components (path : String) : List String :=
  (Text.pieces (· == '/') path.toList).map String.ofList

/-- The greatest length of a component, in bytes. -/
def maxComponent : Nat := 255

/-- The length in bytes from which on a path is too long. -/
def maxPath : Nat := 4096

/-- Where the components of a path lead from a place, and what is there. -/
def walk (tree : FileTree) (place : List String) (node : FileNode) :
    List String → Except IoError (List String × FileNode)
  | [] => .ok (place, node)
  | c :: path =>
    match node with
    | .file _ => .error .notADirectory
    | .directory =>
      if c = "" ∨ c = "." then tree.walk place .directory path
      else if c = ".." then tree.walk place.dropLast .directory path
      else if maxComponent < c.utf8ByteSize then .error .nameTooLong
      else
        match tree.node? (place ++ [c]) with
        | none => .error .notFound
        | some next => tree.walk (place ++ [c]) next path

/-- Whether a path starts at the root. -/
def isAbsolute (path : String) : Bool :=
  path.toList.head? == some '/'

/-- Where the walk along a path starts. -/
def origin (tree : FileTree) (path : String) : List String :=
  if isAbsolute path then [] else tree.working

/-- Where the components of a path lead, and what is there. -/
def follow (tree : FileTree) (path : String) : Except IoError (List String × FileNode) :=
  tree.walk (tree.origin path) .directory (components path)

/-- Where a path leads, if it is a path at all, and what is there. -/
def find (tree : FileTree) (path : String) : Except IoError (List String × FileNode) :=
  if '\x00' ∈ path.toList then .error .nulInName
  else if path = "" then .error .notFound
  else if maxPath ≤ path.utf8ByteSize then .error .nameTooLong
  else tree.follow path

/-- Whether there is a file at a path. -/
def isFile (tree : FileTree) (path : String) : Bool :=
  match tree.find path with
  | .ok (_, .file _) => true
  | _ => false

/-- The text of the file at a path. -/
def readText (tree : FileTree) (path : String) : Except IoError String :=
  match tree.find path with
  | .error e => .error e
  | .ok (_, .directory) => .error .isADirectory
  | .ok (_, .file bytes) =>
    match String.fromUTF8? ⟨bytes.toArray⟩ with
    | some t => .ok t
    | none => .error .notUtf8

/-! ### Changes -/

/-- The directory and the last component of a path that names something in a directory. -/
def split (path : String) : List String × String :=
  ((components path).dropLast, (components path).getLast?.getD "")

/-- The tree with a file at a path. Nothing changes where the directory is missing or the path
names one. -/
def write (tree : FileTree) (path : String) (bytes : List UInt8) : FileTree :=
  let (directory, name) := split path
  match tree.walk (tree.origin path) .directory directory with
  | .ok (place, .directory) =>
    if name = "" ∨ name = "." ∨ name = ".." ∨ tree.node? (place ++ [name]) = some .directory then
      tree
    else tree.set (place ++ [name]) (some (.file bytes))
  | _ => tree

/-- The tree without the file at a path. -/
def remove (tree : FileTree) (path : String) : FileTree :=
  match tree.find path with
  | .ok (place, .file _) => tree.set place none
  | _ => tree

/-- The tree with a directory at a place below a directory, and the directories on the way. -/
def makeDirectories (tree : FileTree) (place : List String) : List String → FileTree
  | [] => tree
  | c :: path =>
    if c = "" ∨ c = "." then tree.makeDirectories place path
    else if c = ".." then tree.makeDirectories place.dropLast path
    else
      match tree.node? (place ++ [c]) with
      | some (.file _) => tree
      | some .directory => tree.makeDirectories (place ++ [c]) path
      | none => (tree.set (place ++ [c]) (some .directory)).makeDirectories (place ++ [c]) path

/-- The tree with a directory at a path. -/
def makeDirectory (tree : FileTree) (path : String) : FileTree :=
  tree.makeDirectories (tree.origin path) (components path)

end FileTree

end Mustache
