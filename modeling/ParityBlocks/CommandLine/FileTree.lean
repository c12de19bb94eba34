/-!
# File trees

A `FileTree` is a tree of directories and files with a working directory, as a
program sees it through paths. A path is followed name by name
(`FileTree.locate`), and every name but the last has to lead to a directory.
`FileTree.read` is the content of a file, `FileTree.create` makes a file empty,
`FileTree.write` puts a content into it, and `FileTree.fresh` is where a program
starts in an empty directory.
-/

namespace ParityBlocks.CommandLine

/-- Why a file cannot be used. -/
inductive FileError
  | notFound
  | permissionDenied
  | notDirectory
  | isDirectory
  | nameTooLong
  | other (message : String)
deriving DecidableEq

/-- The error in words. -/
def FileError.message : FileError → String
  | notFound => "No such file or directory (os error 2)"
  | permissionDenied => "Permission denied (os error 13)"
  | notDirectory => "Not a directory (os error 20)"
  | isDirectory => "Is a directory (os error 21)"
  | nameTooLong => "File name too long (os error 36)"
  | other message => message

/-- A place in a tree: the names that lead to it from the root, the last one first. -/
abbrev Location := List String

/-- What is at a place. -/
inductive FileNode
  | directory
  | file (content : ByteArray)

/-- Directories and files below a root, and the directory where paths start that
do not start at the root. -/
structure FileTree where
  nodes : List (Location × FileNode)
  working : Location

namespace FileTree

/-- What is at a place, if anything. -/
def node? (t : FileTree) (l : Location) : Option FileNode :=
  if l.isEmpty then some .directory else t.nodes.lookup l

/-- The tree with a file at a place, in place of one that was there. -/
def put (t : FileTree) (l : Location) (content : ByteArray) : FileTree :=
  { t with nodes := (l, .file content) :: t.nodes }

/-- A name has at most this many bytes. -/
def nameLimit : Nat := 255

/-- A path has fewer bytes than this. -/
def pathLimit : Nat := 4096

/-- The place to which a name leads from a directory. Something need not be there. -/
def child (t : FileTree) (l : Location) (name : String) : Except FileError Location :=
  match t.node? l with
  | none => .error .notFound
  | some (.file _) => .error .notDirectory
  | some .directory =>
    if name = "." then .ok l
    else if name = ".." then .ok l.tail
    else if nameLimit < name.utf8ByteSize then .error .nameTooLong
    else .ok (name :: l)

/-- The names in a path. -/
def names (path : String) : List String :=
  ((path.toList.splitOn '/').filter fun name => !name.isEmpty).map String.ofList

/-- The place to which a path leads. Something need not be there. -/
def locate (t : FileTree) (path : String) : Except FileError Location :=
  if pathLimit ≤ path.utf8ByteSize then .error .nameTooLong
  else
    (names path).foldlM t.child (if path.toList.head? = some '/' then [] else t.working)

/-- The path ends like that of a directory. -/
def endsInSlash (path : String) : Bool := path.toList.getLast? == some '/'

/-- The content of a file. -/
def read (t : FileTree) (path : String) : Except FileError ByteArray := do
  match t.node? (← t.locate path) with
  | none => .error .notFound
  | some .directory => .error .isDirectory
  | some (.file content) => if endsInSlash path then .error .notDirectory else .ok content

/-- The tree after a file was made, or one that exists was emptied. A path that
ends like that of a directory makes no file. -/
def create (t : FileTree) (path : String) : Except FileError FileTree := do
  let l ← t.locate path
  match t.node? l with
  | some .directory => .error .isDirectory
  | some (.file _) | none =>
    if endsInSlash path then .error .isDirectory else .ok (t.put l ByteArray.empty)

/-- The tree after a content was put into a file. Where none can be, nothing changes. -/
def write (t : FileTree) (path : String) (content : ByteArray) : FileTree :=
  match t.locate path with
  | .ok l => t.put l content
  | .error _ => t

/-- The directories and the null device that every system has, and an empty
working directory. -/
def fresh : FileTree where
  nodes :=
    [(["dev"], .directory), (["null", "dev"], .file ByteArray.empty), (["tmp"], .directory),
     (["work", "tmp"], .directory)]
  working := ["work", "tmp"]

end FileTree

end ParityBlocks.CommandLine
