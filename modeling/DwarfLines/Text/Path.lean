/-!
# Paths

Paths are text; their pieces are what slashes separate. Nothing here looks at a file system: `..`
is kept wherever it stands, because what it leads to depends on links.
-/

namespace DwarfLines.Path

/-- The text between slashes; the path `a//b` has an empty piece between its slashes. -/
def pieces (path : String) : List String :=
  ((path.toList.splitOn '/').map String.ofList)

/-- Whether a path starts at the root. -/
def isAbsolute (path : String) : Bool := path.toList.head? == some '/'

/-- Whether a path ends in a slash. -/
def endsInSlash (path : String) : Bool := path.toList.getLast? == some '/'

/-- Whether a path holds the character NUL, which no name can have. -/
def holdsNul (path : String) : Bool := path.toList.contains '\x00'

/-- The pieces that name something: neither empty nor `.`. -/
def names (path : String) : List String :=
  (pieces path).filter fun piece => piece != "" && piece != "."

/-- Puts a slash after a path, unless it is empty or has one. -/
def withSlash (path : String) : String :=
  if path == "" || endsInSlash path then path else path ++ "/"

/-- The path `path` taken from `base`: an absolute path replaces `base`. -/
def join (base path : String) : String :=
  if isAbsolute path then path else withSlash base ++ path

/-- The root that an absolute path starts at: exactly two slashes in front are a root of their own,
any other number is the root `/`. -/
def root (path : String) : String :=
  match path.toList with
  | '/' :: '/' :: '/' :: _ => "/"
  | '/' :: '/' :: _ => "//"
  | _ => "/"

/-- The absolute path that `path` stands for in the directory `directory`: its names in order, each
after one slash, and a slash at the end if `path` has one. -/
def absolute (directory path : String) : String :=
  let start := if isAbsolute path then root path else directory
  let full := (names path).foldl (fun base name => withSlash base ++ name) start
  if endsInSlash path then withSlash full else full

/-- The path that `path` stands for in a directory, if there is one: without a directory a relative path
is kept as it is. -/
def resolve (directory : Option String) (path : String) : String :=
  match directory with
  | some directory => absolute directory path
  | none => if isAbsolute path then absolute "/" path else path

/-- Drops the pieces at the end of a reversed list that name nothing. The first piece of a path may
be a `.` that counts. -/
def dropIdle : List String → List String
  | [] => []
  | [piece] => if piece == "" then [] else [piece]
  | piece :: before => if piece == "" || piece == "." then dropIdle before else piece :: before

/-- The path of the directory that holds the last component of `path`: the text in front of that
component, without slashes at its end. A path without components has none. -/
def parent? (path : String) : Option String :=
  let absolute := isAbsolute path
  match dropIdle (pieces path).reverse with
  | [] => none
  | _ :: before =>
    match dropIdle before with
    | [] => some (if absolute then "/" else "")
    | kept => some (String.intercalate "/" kept.reverse)

end DwarfLines.Path
