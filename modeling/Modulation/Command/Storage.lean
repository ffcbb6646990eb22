import Modulation.Entries

set_option autoImplicit false

/-! # Storage

Commands read and write text files through `Storage`, whose paths are relative to the place of the
command. Writing makes the folders that are missing.

A `Directory` is a storage of its own: files and folders under one root, from which no path leads
out. Every name on a path must exist when a file is read. When one is written, the folders on its
path are made in turn, and those that were made remain even if the path turns out to name no
file. -/

namespace Modulation

/-- Places where text files are kept. -/
class Storage (m : Type → Type) where
  /-- The text of a file, if it can be read. -/
  read? : (path : String) → m (Option String)
  /-- Writes a file; the answer says whether it was written. -/
  write? : (path content : String) → m Bool

/-- Whether a name on a path leads to no other place: doubled slashes leave empty names, and a dot
    stands for the same place. -/
def staysHere (name : String) : Bool :=
  name = "" || name = "."

/-- The path of the folder in which a path ends. Trailing slashes and dots are no part of either. -/
def folderPath (path : String) : String :=
  let names := (path.splitOn "/").reverse.dropWhile staysHere
  "/".intercalate ((names.drop 1).dropWhile staysHere).reverse

/-- Files, by the names on their paths joined with slashes, and folders. -/
structure Directory where
  files : Entries String
  folders : List String
  deriving Repr

namespace Directory

/-- A place in a directory: the names on its path, the last one first. -/
abbrev Place := List String

/-- The path of a place. -/
def pathOf (place : Place) : String :=
  "/".intercalate place.reverse

/-- Whether a folder stands at a place; the root is one. -/
def hasFolder (directory : Directory) (place : Place) : Bool :=
  place.isEmpty || directory.folders.contains (pathOf place)

/-- Whether a file stands at a place. -/
def hasFile (directory : Directory) (place : Place) : Bool :=
  directory.files.has (pathOf place)

/-- The most bytes of a name. -/
def nameLimit : Nat := 255

/-- The most bytes of a path. -/
def pathLimit : Nat := 4095

/-- Whether a text can be handed over as a path: it is not too long and holds no null character. -/
def isPath (path : String) : Bool :=
  path.utf8ByteSize ≤ pathLimit && !path.contains '\x00'

/-- Follows names from a place through folders; there is no place when a name leads nowhere. Missing
    folders are made if `create` says so, and those made before a name fails remain. -/
def follow (create : Bool) : List String → Place → Directory → Option Place × Directory
  | [], place, directory => (some place, directory)
  | name :: rest, place, directory =>
    if staysHere name then follow create rest place directory
    else if name = ".." then
      match place with
      | [] => (none, directory)
      | _ :: parent => follow create rest parent directory
    else
      let place := name :: place
      if directory.hasFolder place then follow create rest place directory
      else if directory.hasFile place || name.utf8ByteSize > nameLimit || !create then
        (none, directory)
      else follow create rest place { directory with folders := pathOf place :: directory.folders }

/-- The folder that a path leads to, where missing folders are made. -/
def makeFolders (directory : Directory) (path : String) : Option Place × Directory :=
  if isPath path && !path.startsWith "/" then follow true (path.splitOn "/") [] directory
  else (none, directory)

/-- The names that lead to the last name on a path, and the last name. -/
def splitLast (path : String) : List String × String :=
  let names := path.splitOn "/"
  (names.dropLast, names.getLastD "")

/-- The place that a path names, if a file can stand there. -/
def filePlace? (directory : Directory) (path : String) : Option Place :=
  let (names, last) := splitLast path
  if !isPath path || path.startsWith "/" || staysHere last || last = ".."
      || last.utf8ByteSize > nameLimit then none
  else
    (follow false names [] directory).1.bind fun place =>
      if directory.hasFolder (last :: place) then none else some (last :: place)

/-- The text of a file. -/
def read? (directory : Directory) (path : String) : Option String := do
  directory.files.get? (pathOf (← directory.filePlace? path))

/-- Writes a file: the folder that the path mentions is made, and then the file. The answer says
    whether the file was written; folders remain even if it was not. -/
def write (directory : Directory) (path content : String) : Bool × Directory :=
  match directory.makeFolders (folderPath path) with
  | (none, directory) => (false, directory)
  | (some _, directory) =>
    match directory.filePlace? path with
    | none => (false, directory)
    | some place => (true, { directory with files := directory.files.set (pathOf place) content })

/-- The directory without files. -/
def empty : Directory :=
  ⟨[], []⟩

/-- The directory of some files; those that cannot be written are left out. -/
def ofFiles (files : List (String × String)) : Directory :=
  files.foldl (fun directory (path, content) => (directory.write path content).2) empty

instance : Storage (StateM Directory) where
  read? path := do return (← get).read? path
  write? path content := do
    let (written, directory) := (← get).write path content
    set directory
    return written

end Directory

end Modulation
