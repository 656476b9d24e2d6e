/-!
# Paths and trees of files

Paths are texts in which a slash divides the names of directories from what is in them.  A path
that starts with a slash is absolute.  Paths are looked up in a small tree of files, which stands
for a directory of its own.  Its files are written one after the other under names that are
seen from that directory, and what a name goes through is a directory from then on.  Two dots
in a name or in a path go up one directory.
-/

namespace Keypad

/-! ## Paths -/

namespace FilePath

def isAbsolute (path : String) : Bool := path.toList.head? == some '/'

/-- A path seen from a directory: an absolute one stays as it is, any other is put below the
directory. -/
def join (directory path : String) : String :=
  if isAbsolute path || directory.isEmpty then path
  else if directory.toList.getLast? == some '/' then directory ++ path
  else directory ++ "/" ++ path

/-- The names in a path, in order, with empty names and the dots that stand for the directory
itself left out. -/
def names (path : String) : List String :=
  ((path.toList.splitOn '/').map String.ofList).filter fun name => name != "" && name != "."

/-- Whether a path can only name a directory: it ends on a slash or on a dot for the directory
itself. -/
def namesDirectory (path : String) : Bool :=
  match (path.toList.splitOn '/').getLast? with
  | some last => last == [] || last == ['.']
  | none => true

end FilePath

/-! ## Trees -/

/-- What a path leads to. -/
inductive FileState where
  | missing
  | directory
  | file (bytes : List UInt8)
  deriving DecidableEq

namespace FileState

def isPresent : FileState → Bool
  | missing => false
  | _ => true

end FileState

/-- A place in a file system: the names of the directories on the way to it and its own name,
the last one first.  No name is two dots. -/
abbrev Place := List String

namespace Place

/-- The place that a name leads to.  Two dots lead one directory up, and the topmost directory
is its own parent. -/
def step (place : Place) (name : String) : Place :=
  if name == ".." then place.tail else name :: place

/-- The places from which names are followed, in order, and the place where they end. -/
def route (place : Place) : List String → List Place × Place
  | [] => ([], place)
  | name :: rest =>
    let (passed, last) := route (place.step name) rest
    (place :: passed, last)

def ofPath (path : String) : List Place × Place := route [] (FilePath.names path)

end Place

/-- Files that are written below a root directory. -/
structure FileTree where
  /-- The absolute path of the root directory. -/
  root : String
  /-- The name of each file and its bytes, in the order in which they are written. -/
  files : List (String × List UInt8)

namespace FileTree

/-- The route to a file with a name. -/
def routeTo (tree : FileTree) (name : String) : List Place × Place :=
  Place.ofPath (FilePath.join tree.root name)

/-- Whether a place is the root directory, one above it, or one that the name of a file goes
through. -/
def isDirectory (tree : FileTree) (place : Place) : Bool :=
  let (above, root) := Place.ofPath tree.root
  place == root || above.contains place ||
    tree.files.any fun (name, _) => (tree.routeTo name).1.contains place

/-- What is at a place: the file that was written there last, or a directory, or nothing. -/
def lookup (tree : FileTree) (place : Place) : FileState :=
  match tree.files.reverse.find? fun (name, _) => (tree.routeTo name).2 == place with
  | some (_, bytes) => .file bytes
  | none => if tree.isDirectory place then .directory else .missing

/-- What a path leads to.  Nothing is reached but through directories, and a file is not reached
by a path that can only name a directory.  A path that is not absolute leads nowhere. -/
def find (tree : FileTree) (path : String) : FileState :=
  let (passed, last) := Place.ofPath path
  if FilePath.isAbsolute path && passed.all fun place => tree.lookup place == .directory then
    match tree.lookup last with
    | .file bytes => if FilePath.namesDirectory path then .missing else .file bytes
    | state => state
  else .missing

end FileTree

end Keypad
