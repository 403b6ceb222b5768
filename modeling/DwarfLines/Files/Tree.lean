import DwarfLines.Files.FileSystem
import DwarfLines.Text.Path

/-!
# Trees of files

A tree holds directories and regular files by their names from the root, and knows its current
directory, from which relative paths are followed. There are no links: `..` leads to the directory
above, and from the root to the root. The tree is seen by one user, who owns all files: a file whose
permission bits keep its owner from reading cannot be read. The user may put files into all directories
that are not closed.
-/

namespace DwarfLines

/-- Whether the owner of a file may read it. -/
def File.isReadable (file : File) : Bool := file.mode &&& 0o400 != 0

/-- Directories and files by their names from the root. The root itself is always there. -/
structure Tree where
  nodes : List (List String × Node)
  /-- The place of the current directory. -/
  current : List String
  /-- The directories that are closed to new files. -/
  closed : List (List String)
  deriving DecidableEq, Repr

namespace Tree

/-- The tree that has only its root, which is closed to users. -/
def empty : Tree := { nodes := [], current := [], closed := [[]] }

/-- What stands at a place. -/
def lookup (tree : Tree) (place : List String) : Option Node :=
  if place.isEmpty then some .directory else tree.nodes.lookup place

/-- The tree without what stands at a place. -/
def erase (tree : Tree) (place : List String) : Tree :=
  { tree with nodes := tree.nodes.filter fun (other, _) => other != place }

/-- The tree with a node at a place, whatever stood there before. -/
def insert (tree : Tree) (place : List String) (node : Node) : Tree :=
  { tree with nodes := (place, node) :: (tree.erase place).nodes }

/-- The path of a place from the root. -/
def path (place : List String) : String := "/" ++ String.intercalate "/" place

/-- The files below the current directory, with their paths from it. -/
def files (tree : Tree) : List (String × File) :=
  tree.nodes.filterMap fun
    | (place, .file file) =>
      (tree.current.isPrefixOf? place).map fun names => (String.intercalate "/" names, file)
    | (_, .directory) => none

/-! ## Following paths -/

/-- The most bytes that a name may have. -/
def nameLimit : Nat := 255

/-- The number of bytes from which on a path is too long. -/
def pathLimit : Nat := 4096

/-- The directory that a piece of a path leads to from the directory `place`. -/
def enter (tree : Tree) (place : List String) (piece : String) : Except SystemError (List String) :=
  if piece == "" || piece == "." then .ok place
  else if piece == ".." then .ok place.dropLast
  else if nameLimit < piece.utf8ByteSize then .error .nameTooLong
  else
    match tree.lookup (place ++ [piece]) with
    | some .directory => .ok (place ++ [piece])
    | some (.file _) => .error .notDirectory
    | none => .error .noSuchFile

/-- The directory in which a path starts: the root, or else the current directory. -/
def start (tree : Tree) (path : String) : List String :=
  if Path.isAbsolute path then [] else tree.current

/-- A path up to its last piece. -/
structure Target where
  /-- The directory that the pieces before the last lead to. -/
  directory : List String
  /-- The last piece that is not empty, if there is one. -/
  last : Option String
  /-- Whether slashes follow the last piece. -/
  slash : Bool
  deriving DecidableEq, Repr

/-- Follows a path up to its last piece. -/
def target (tree : Tree) (path : String) : Except SystemError Target := do
  if path.isEmpty then throw .noSuchFile
  if pathLimit ≤ path.utf8ByteSize then throw .nameTooLong
  let pieces := (Path.pieces path).reverse
  let slash := Path.endsInSlash path
  match pieces.dropWhile (· == "") with
  | [] => return { directory := tree.start path, last := none, slash }
  | last :: before =>
    let directory ← before.reverse.foldlM tree.enter (tree.start path)
    return { directory, last := some last, slash }

/-- What a path leads to: a directory, or a file, or nothing. -/
def find (tree : Tree) (path : String) : Except SystemError (List String × Node) := do
  if Path.holdsNul path then throw .nulInName
  let target ← tree.target path
  match target.last with
  | none => return (target.directory, .directory)
  | some last =>
    if last == "." || last == ".." then
      return (← tree.enter target.directory last, .directory)
    if nameLimit < last.utf8ByteSize then throw .nameTooLong
    let place := target.directory ++ [last]
    match tree.lookup place with
    | none => throw .noSuchFile
    | some .directory => return (place, .directory)
    | some (.file file) =>
      if target.slash then throw .notDirectory
      return (place, .file file)

/-! ## Operations -/

/-- The contents of a file. -/
def read (tree : Tree) (path : String) : Except SystemError Bytes := do
  match ← tree.find path with
  | (_, .file file) => if file.isReadable then return file.contents else throw .permissionDenied
  | (_, .directory) => throw .isDirectory

/-- The permission bits of a file, or those that directories have. -/
def mode (tree : Tree) (path : String) : Except SystemError Mode := do
  match ← tree.find path with
  | (_, .file file) => return file.mode
  | (_, .directory) => return 0o755

/-- The names of temporary files: a number after `.tmp`, of six digits to begin with. -/
def temporaryName (n : Nat) : String := s!".tmp{100000 + n}"

/-- The first name for a temporary file that is free in a directory. Of one name more than the tree
has nodes, one is free. -/
def newName? (tree : Tree) (directory : List String) : Option String :=
  ((List.range (tree.nodes.length + 1)).map temporaryName).find? fun name =>
    (tree.lookup (directory ++ [name])).isNone

/-- The path of a temporary file as the system gets it: from the root, through the current directory
if `directory` is relative. -/
def temporaryPath (tree : Tree) (directory : String) : String :=
  Path.join (Path.join (path tree.current) directory) (temporaryName 0)

/-- The place of a new temporary file in a directory. -/
def temporaryPlace (tree : Tree) (directory : String) : Except SystemError (List String) := do
  if Path.holdsNul directory then throw .nulInName
  if pathLimit ≤ (tree.temporaryPath directory).utf8ByteSize then throw .nameTooLong
  let place ← (Path.pieces directory).foldlM tree.enter (tree.start directory)
  if tree.closed.contains place then throw .permissionDenied
  match tree.newName? place with
  | some name => return place ++ [name]
  | none => throw .fileExists

/-- Makes an empty file with a new name in a directory, and returns its place. -/
def createTemporary (tree : Tree) (directory : String) :
    Except (SystemError × String) (List String × Tree) :=
  match tree.temporaryPlace directory with
  | .error e => .error (e, tree.temporaryPath directory)
  | .ok place => .ok (place, tree.insert place (.file ⟨[], 0o600⟩))

/-- Changes the file at a place. -/
def modifyFile (tree : Tree) (place : List String) (change : File → File) :
    Except SystemError Tree :=
  match tree.lookup place with
  | some (.file file) => .ok (tree.insert place (.file (change file)))
  | some .directory => .error .isDirectory
  | none => .error .noSuchFile

/-- Gives the file at a place another path. The path must not lead to a directory, nor end as the
path of a directory does. -/
def rename (tree : Tree) (place : List String) (path : String) : Except SystemError Tree := do
  if Path.holdsNul path then throw .invalidArgument
  let target ← tree.target path
  match target.last with
  | none => throw .busy
  | some last =>
    if last == "." || last == ".." then throw .busy
    if nameLimit < last.utf8ByteSize then throw .nameTooLong
    if target.slash then throw .notDirectory
    let destination := target.directory ++ [last]
    match tree.lookup place with
    | none => throw .noSuchFile
    | some node =>
      if tree.closed.contains target.directory then throw .permissionDenied
      if tree.lookup destination = some .directory then throw .isDirectory
      return (tree.erase place).insert destination node

/-- The value of an operation that may change the tree; a tree stays as it is on errors. -/
def change {ε α : Type} (operation : Tree → Except ε (α × Tree)) : StateM Tree (Except ε α) := do
  match operation (← get) with
  | .ok (a, tree) =>
    set tree
    return .ok a
  | .error e => return .error e

/-- The operations on files, carried out on a tree. -/
def fileSystem : FileSystem (StateM Tree) (List String) where
  read path := return (← get).read path
  mode path := return (← get).mode path
  createTemporary directory := change fun tree => tree.createTemporary directory
  write place contents := change fun tree => do
    return ((), ← tree.modifyFile place fun file => { file with contents })
  flush _ := return .ok ()
  setMode place mode := change fun tree => do
    return ((), ← tree.modifyFile place fun file => { file with mode })
  rename place path := change fun tree => do return ((), ← tree.rename place path)
  discard place := modify fun tree => tree.erase place

end Tree

end DwarfLines
