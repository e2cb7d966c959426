/-!
# File trees

The files that a command can reach, as a value: every file with its contents, below one directory.
A file name is a path relative to that directory, unless it starts with a slash. Names are resolved
component by component, as the operating system does it, with its errors. Of what is above the
directory, only the directories on the way up are known.

* `FileTree.read` gives the contents of a file.
* `FileTree.write` replaces the contents of a file, or makes it, in a directory that exists.
-/

namespace Dotted.Command

/-- Why a file cannot be read or written. -/
inductive FileError where
  | notFound
  | notADirectory
  | isADirectory
  | nameTooLong
  /-- The contents are not text. -/
  | notText
  /-- Some other reason, in the words of the operating system. -/
  | other (reason : String)
deriving DecidableEq

/-- The wording of a file error. -/
def FileError.message : FileError → String
  | .notFound => "No such file or directory (os error 2)"
  | .notADirectory => "Not a directory (os error 20)"
  | .isADirectory => "Is a directory (os error 21)"
  | .nameTooLong => "File name too long (os error 36)"
  | .notText => "stream did not contain valid UTF-8"
  | .other reason => reason

/-- What has a name in a file tree. -/
inductive Entry where
  | file (contents : ByteArray)
  | directory

/-- The component that leads to the directory above. -/
def upward : String := ".."

/-- The components of a name, from the root down. A place above the root has only steps upward. -/
abbrev Place := List String

/-- Whether a place is the root or above it. -/
def Place.isRootOrAbove (place : Place) : Bool := place.all (· = upward)

/-- Files and directories by their places. A directory that holds something need not be listed. -/
structure FileTree where
  entries : List (Place × Entry)

namespace FileTree

/-- The entry at a place. The root is a directory, and so is every place above it or with something
below. -/
def entry? (tree : FileTree) (place : Place) : Option Entry :=
  if place.isRootOrAbove then some .directory
  else
    match tree.entries.lookup place with
    | some entry => some entry
    | none =>
      if tree.entries.any fun entry => place.isPrefixOf entry.1 then some .directory else none

/-- The components of a file name, as they are between its slashes. -/
def components (name : String) : List String :=
  (name.toList.splitOn '/').map String.ofList

/-- A component can have this many bytes. -/
def maxComponent : Nat := 255

/-- A whole name can have this many bytes. -/
def maxName : Nat := 4095

/-- The place that one component leads to from a place, which must be a directory. -/
def enter (tree : FileTree) (place : Place) (component : String) : Except FileError Place :=
  match tree.entry? place with
  | none => .error .notFound
  | some (.file _) => .error .notADirectory
  | some .directory =>
    if component = "" ∨ component = "." then .ok place
    else if component = upward then
      .ok (if place.isRootOrAbove then place ++ [upward] else place.dropLast)
    else if component.utf8ByteSize > maxComponent then .error .nameTooLong
    else .ok (place ++ [component])

/-- Where a name starts: at the root, or, with a slash at its start, above. -/
def start (name : String) : Place := if name.toList.head? = some '/' then [upward] else []

/-- The place that the first components of a name lead to. -/
def resolve (tree : FileTree) (name : String) (components : List String) :
    Except FileError Place :=
  if name.utf8ByteSize > maxName then .error .nameTooLong
  else components.foldlM tree.enter (start name)

/-- The contents of a file. -/
def read (tree : FileTree) (name : String) : Except FileError ByteArray := do
  let place ← tree.resolve name (components name)
  match tree.entry? place with
  | none => .error .notFound
  | some .directory => .error .isADirectory
  | some (.file contents) => .ok contents

/-- The tree with other contents for the file at a place. -/
def put (tree : FileTree) (place : Place) (contents : ByteArray) : FileTree where
  entries := (tree.entries.filter fun entry => entry.1 ≠ place) ++ [(place, .file contents)]

/-- The components that lead to the directory of a file, and the name of the file in it, which is
empty if the name ends in a slash. -/
def splitName (name : String) : List String × String :=
  let components := (components name).reverse
  match components with
  | "" :: rest => ((rest.dropWhile (· = "")).tail.reverse, "")
  | last :: rest => (rest.reverse, last)
  | [] => ([], "")

/-- The tree after a file has been written. -/
def write (tree : FileTree) (name : String) (contents : ByteArray) :
    Except FileError FileTree := do
  let (parents, last) := splitName name
  let directory ← tree.resolve name parents
  let place ← tree.enter directory last
  if last = "" ∨ last = "." ∨ last = upward then .error .isADirectory
  else
    match tree.entry? place with
    | some .directory => .error .isADirectory
    | _ => .ok (tree.put place contents)

/-- The files below the root with their contents. -/
def files (tree : FileTree) : List (Place × ByteArray) :=
  tree.entries.filterMap fun (place, entry) =>
    match entry with
    | .file contents => if place.head? = some upward then none else some (place, contents)
    | .directory => none

end FileTree

end Dotted.Command
