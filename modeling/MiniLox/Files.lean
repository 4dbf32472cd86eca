/-!
Where programs are read from. A run only needs to know what is found under a
path: the bytes of a file, or nothing that can be opened.

`Directory` is a file tree held in memory, with paths as they are commonly
understood: names between slashes, a dot for the same directory and two dots
for the one around it, every step of the way a directory that is there.
Outside the tree only the null device is found, an empty file.
-/

namespace MiniLox

abbrev Files := String → Option ByteArray

/-- The names on the way from the root of a directory to an entry. -/
abbrev Names := List String

/-- A directory with everything below it. Directories on the way to an entry
need no entry of their own. -/
structure Directory where
  files : List (Names × ByteArray) := []
  directories : List Names := []

namespace Directory

/-- The names of a path, empty ones included. -/
def namesOf (path : String) : Names := (path.toList.splitOn '/').map String.ofList

/-- The names that lead from the root to what a path names. Two dots take the
last name back. -/
def entryNames (path : String) : Names :=
  (namesOf path).foldl
    (fun names name =>
      if name = "" ∨ name = "." then names
      else if name = ".." then names.dropLast
      else names ++ [name])
    []

def addFile (d : Directory) (path : String) (content : ByteArray) : Directory :=
  { d with files := (entryNames path, content) :: d.files }

def addDirectory (d : Directory) (path : String) : Directory :=
  { d with directories := entryNames path :: d.directories }

/-- Whether some names lead to a directory: the root, an entry of its own, or
one that lies on the way to an entry. -/
def isDirectory (d : Directory) (names : Names) : Bool :=
  names.isEmpty || d.directories.any names.isPrefixOf
    || d.files.any fun file => names.isPrefixOf file.1 && names != file.1

def find? (d : Directory) (here : Names) : Names → Option ByteArray
  | [] => none
  | "" :: rest => d.find? here rest
  | "." :: rest => d.find? here rest
  | ".." :: rest => if here.isEmpty then none else d.find? here.dropLast rest
  | name :: rest =>
    match d.files.lookup (here ++ [name]) with
    | some content => if rest.isEmpty then some content else none
    | none => if d.isDirectory (here ++ [name]) then d.find? (here ++ [name]) rest else none

/-- The number of bytes from which on a path is too long to be followed. -/
def pathLimit : Nat := 4096

/-- What is known of the directory that paths with a slash in front start at:
the null device, which is always empty. -/
def outside : Directory := ({} : Directory).addFile "dev/null" .empty

/-- The file under a path. A path that starts with a slash, and so the empty
path, leads outside. -/
def open? (d : Directory) : Files := fun path =>
  if pathLimit ≤ path.utf8ByteSize then none
  else
    match namesOf path with
    | "" :: names => outside.find? [] names
    | names => d.find? [] names

end Directory

end MiniLox
