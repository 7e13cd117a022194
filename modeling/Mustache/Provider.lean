import Mustache.FileTree
import Mustache.Lookup

/-!
# Providers of partials

Where the text of a partial comes from. A provider is asked each time a partial is rendered. A
partial that does not exist has the empty text; failures are the provider's own.
-/

namespace Mustache

/-- What a provider answers, and what it reports on its way. -/
abbrev Fetched := Search (Except ProviderError String)

/-- A source of partials. The files at the time of asking are at its disposal. -/
structure Provider where
  fetch : FileTree → String → Fetched

/-! ### Partials in memory -/

/-- Partials held by their names. -/
structure Partials where
  texts : List (String × String)

namespace Partials

def empty : Partials :=
  ⟨[]⟩

/-- The partials with one more, in place of another of the same name. -/
def insert (p : Partials) (name text : String) : Partials :=
  ⟨Entries.insert name text p.texts⟩

/-- Partials given one after the other. -/
def ofList (texts : List (String × String)) : Partials :=
  ⟨Entries.ofList texts⟩

/-- The text of a partial. -/
def get (p : Partials) (name : String) : String :=
  (p.texts.lookup name).getD ""

/-- The partials as a provider. -/
def provider (p : Partials) : Provider where
  fetch _ name := .silent (.ok (p.get name))

end Partials

/-! ### Partials in files -/

/-- Partials in files below search paths. -/
structure FilePartials where
  /-- The directories to look in, in order. -/
  paths : List String
  /-- What is added to a name to make it the name of a file, in order. -/
  extensions : List String
  /-- Whether names may lead out of the search paths. -/
  allowsUnsafe : Bool

namespace FilePartials

/-- The extensions that are tried when no others are given. -/
def standardExtensions : List String :=
  ["", ".mustache", ".stache"]

/-- Partials below these directories. -/
def ofPaths (paths : List String) : FilePartials :=
  ⟨paths, standardExtensions, false⟩

/-- Partials in the current directory. -/
def standard : FilePartials :=
  ofPaths [""]

/-- The characters that part the components of a name. -/
def isPathSeparator (c : Char) : Bool :=
  c == '/' || c == '\\'

/-- The components of a name without detours, where those taken so far are given with the latest
first; `none` when the name leads above its start or into another volume. -/
def normalize? (taken : List (List Char)) : List (List Char) → Option (List (List Char))
  | [] => some taken.reverse
  | c :: rest =>
    if c = [] ∨ c = ['.'] then normalize? taken rest
    else if c = ['.', '.'] then
      match taken with
      | [] => none
      | _ :: taken => normalize? taken rest
    else if ':' ∈ c then none
    else normalize? (c :: taken) rest

/-- The components of a name that stays below a search path; `none` for any other name. -/
def safeComponents? (name : List Char) : Option (List (List Char)) :=
  if name.head?.any isPathSeparator then none
  else
    match normalize? [] (Text.pieces isPathSeparator name) with
    | none | some [] => none
    | some taken => some taken

/-- The name as the path of a file, extension aside. -/
def fileName? (p : FilePartials) (name : String) : Option String :=
  if p.allowsUnsafe then some name
  else (safeComponents? name.toList).map fun cs ↦ String.ofList (['/'].intercalate cs)

/-- The path of a file in a directory; an absolute path is one by itself. -/
def join (directory file : String) : String :=
  if FileTree.isAbsolute file ∨ directory = "" then file
  else if directory.toList.getLast? = some '/' then directory ++ file
  else directory ++ "/" ++ file

/-- The files a partial may be in, in the order they are tried. -/
def candidates (p : FilePartials) (fileName : String) : List String :=
  p.paths.flatMap fun path ↦ p.extensions.map fun extension ↦ join path (fileName ++ extension)

/-- The text of a partial: that of the first candidate that is a file. -/
def get (p : FilePartials) (files : FileTree) (name : String) : Fetched :=
  match p.fileName? name with
  | none => .silent (.error (.unsafeName name))
  | some fileName =>
    match (p.candidates fileName).find? files.isFile with
    | none => .silent (.ok "")
    | some file => ⟨[.found fileName file], (files.readText file).mapError .io⟩

/-- The files as a provider. -/
def provider (p : FilePartials) : Provider where
  fetch := p.get

end FilePartials

end Mustache
