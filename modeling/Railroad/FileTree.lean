/-!
# Files in folders

A tree of files and folders, as much of it as can be told by reading files: which
paths lead to which bytes, and why other paths cannot be read.

Main definitions:

- Definition {lit}`FileTree.read`: the bytes of the file at a path.
-/

namespace Railroad

/-- Why a path cannot be read. -/
inductive ReadFailure where
  /-- Nothing is there. -/
  | notFound
  /-- A folder is there. -/
  | isFolder
  /-- The path goes on behind a file. -/
  | notFolder
  /-- The path, or a name in it, is longer than can be. -/
  | tooLong
  /-- The path holds a character that no path can hold. -/
  | badPath
  /-- There is some other reason. -/
  | other
deriving DecidableEq, Repr, Inhabited

/-- How files are read: the bytes at a path, or why there are none. -/
abbrev FileSource : Type := String → Except ReadFailure (List UInt8)

/-- What stands at a place of a tree. -/
inductive FileTree.Entry where
  | file (bytes : List UInt8)
  | folder
deriving DecidableEq, Repr, Inhabited

/-- The entries of a tree by the names that lead to them from the top folder, newest
first. -/
structure FileTree where
  entries : List (List String × FileTree.Entry)
deriving DecidableEq, Repr, Inhabited

namespace FileTree

/-- The tree without files. -/
def empty : FileTree :=
  ⟨[]⟩

/-! ## Paths -/

/-- How many bytes a name can have. -/
def maxName : Nat := 255

/-- How many bytes a path can have. -/
def maxPath : Nat := 4095

/-- The names between the slashes of a path. -/
def names (path : String) : List String :=
  path.splitOn "/"

/-- Whether a name means the folder in which one stands. -/
def isHere (name : String) : Bool :=
  name == "" || name == "."

/-- Whether a name means the folder above the one in which one stands. -/
def isAbove (name : String) : Bool :=
  name == ".."

/-- The place to which one name leads from another place. -/
def towards (place : List String) (name : String) : List String :=
  if isHere name then place
  else if isAbove name then place.dropLast
  else place ++ [name]

/-! ## Writing -/

/-- The tree with an entry at the place to which names lead from another place.  All
places on the way become folders. -/
def put (tree : FileTree) (entry : Entry) (place : List String) : List String → FileTree
  | [] => ⟨(place, entry) :: tree.entries⟩
  | name :: names => put ⟨(place, .folder) :: tree.entries⟩ entry (towards place name) names

/-- The tree with an entry put at a path. -/
def insert (tree : FileTree) (path : String) (entry : Entry) : FileTree :=
  tree.put entry [] (names path)

/-! ## Reading -/

/-- What the names `place` lead to.  No names at all lead to the top folder. -/
def find? (tree : FileTree) (place : List String) : Option Entry :=
  if place.isEmpty then some .folder else tree.entries.lookup place

/-- Where one stands on the way along a path. -/
inductive Spot where
  /-- In the folder with these names, of which the top one has none. -/
  | folder (place : List String)
  /-- At a file. -/
  | file (bytes : List UInt8)
  /-- In a folder above the tree, of which nothing is known. -/
  | outside
deriving DecidableEq, Repr, Inhabited

/-- Why a name leads nowhere from a folder that has no such entry. -/
def missing (name : String) : ReadFailure :=
  if maxName < name.utf8ByteSize then .tooLong else .notFound

/-- Follows one name of a path. -/
def follow (tree : FileTree) (spot : Spot) (name : String) : Except ReadFailure Spot :=
  match spot with
  | .file _ => .error .notFolder
  | .outside => if isHere name || isAbove name then .ok .outside else .error (missing name)
  | .folder place =>
    if isHere name then .ok (.folder place)
    else if isAbove name && place.isEmpty then .ok .outside
    else
      let place := towards place name
      match tree.find? place with
      | some (.file bytes) => .ok (.file bytes)
      | some .folder => .ok (.folder place)
      | none => .error (missing name)

/-- The bytes of the file at a path, seen from the top folder.  No name is followed
if the path itself cannot be one. -/
def read (tree : FileTree) : FileSource := fun path =>
  if path.toList.contains '\x00' then .error .badPath
  else if path.isEmpty then .error .notFound
  else if maxPath < path.utf8ByteSize then .error .tooLong
  else do
    let start : Spot := if path.startsWith "/" then .outside else .folder []
    match ← (names path).foldlM tree.follow start with
    | .file bytes => return bytes
    | .folder _ => throw .isFolder
    | .outside => throw .isFolder

end FileTree

end Railroad
