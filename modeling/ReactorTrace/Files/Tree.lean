import ReactorTrace.Files.Access
import ReactorTrace.Text.Utf8

/-! Files and directories in memory. A location is the list of names that leads to it from the root;
the entries map locations to files and directories. Paths are followed name by name from the
working directory, or from the root when they start with a slash: a dot stays, two dots go up, and
every name but the last must be that of a directory. -/

namespace ReactorTrace

abbrev Location := List String

inductive FileEntry
  | directory
  | file (bytes : List UInt8)
deriving DecidableEq, Inhabited

/-- The first entry of a location counts. The root is a directory and needs no entry. -/
structure FileTree where
  entries : List (Location × FileEntry)
  workingDirectory : Location
deriving DecidableEq, Inhabited

namespace FileTree

def entry? (tree : FileTree) (location : Location) : Option FileEntry :=
  if location = [] then some .directory else tree.entries.lookup location

/-- Replaces the entry of a location, or adds one. -/
def put (tree : FileTree) (location : Location) (entry : FileEntry) : FileTree :=
  { tree with
    entries := (location, entry) :: tree.entries.filter fun other => other.1 ≠ location }

/-- The longest name and the longest path, in bytes. -/
def maxName : Nat := 255

def maxPath : Nat := 4095

/-- Goes from a directory to the place of a name. -/
def step (location : Location) (name : String) : Location :=
  if name = "." then location
  else if name = ".." then location.dropLast
  else location ++ [name]

/-- The entry at a location, given the last name on the way to it. -/
def find (tree : FileTree) (location : Location) (name : String) : Except IoFault FileEntry :=
  if maxName < name.utf8ByteSize then .error .nameTooLong
  else
    match tree.entry? location with
    | some entry => .ok entry
    | none => .error .notFound

/-- Follows names that must all be those of directories. -/
def enter (tree : FileTree) : Location → List String → Except IoFault Location
  | location, [] => .ok location
  | location, name :: names =>
    match tree.find (step location name) name with
    | .error fault => .error fault
    | .ok (.file _) => .error .notDirectory
    | .ok .directory => tree.enter (step location name) names

/-- A path taken apart: where it starts, the names before the last, the last name unless there is
none, and whether a slash follows it. -/
structure Route where
  start : Location
  parents : List String
  last : Option String
  trailingSlash : Bool
deriving DecidableEq, Inhabited

def route (tree : FileTree) (path : String) : Except IoFault Route :=
  let chars := path.toList
  let names := (chars.splitOn '/').filter (· ≠ []) |>.map String.ofList
  if chars.contains '\x00' then .error .nulInName
  else if chars = [] then .error .notFound
  else if maxPath < path.utf8ByteSize then .error .nameTooLong
  else .ok
    { start := if chars.head? = some '/' then [] else tree.workingDirectory
      parents := names.dropLast
      last := names.getLast?
      trailingSlash := chars.getLast? = some '/' }

/-- The location to read for a path. It may be that of a directory. -/
def locateInput (tree : FileTree) (path : String) : Except IoFault Location := do
  let route ← tree.route path
  let parent ← tree.enter route.start route.parents
  match route.last with
  | none => return parent
  | some name =>
    match ← tree.find (step parent name) name with
    | .directory => return step parent name
    | .file _ =>
      if route.trailingSlash then throw .notDirectory
      else return step parent name

/-- The location of the file to make for a path. -/
def locateOutput (tree : FileTree) (path : String) : Except IoFault Location := do
  let route ← tree.route path
  let parent ← tree.enter route.start route.parents
  match route.last with
  | none => throw .isDirectory
  | some name =>
    if route.trailingSlash ∨ name = "." ∨ name = ".." then throw .isDirectory
    else
      match tree.find (step parent name) name with
      | .ok .directory => throw .isDirectory
      | .ok (.file _) | .error .notFound => return step parent name
      | .error fault => throw fault

/-- The stream of a location. Reading a directory fails at once. -/
def source (tree : FileTree) (location : Location) : Source :=
  match tree.entry? location with
  | some (.file bytes) => .plain bytes
  | some .directory => .ofBytes [] (.failure .isDirectory) .prompt
  | none => .ofBytes [] (.failure .notFound) .prompt

def create (tree : FileTree) (path : String) : Except IoFault Location × FileTree :=
  match tree.locateOutput path with
  | .ok location => (.ok location, tree.put location (.file []))
  | .error fault => (.error fault, tree)

def access : FileAccess (StateM FileTree) where
  Opened := Location
  Created := Location
  openFile path tree := (tree.locateInput path, tree)
  createFile path tree := tree.create path
  contents location tree := (tree.source location, tree)
  fill location text tree := ((), tree.put location (.file (Text.Utf8.encode text)))

end FileTree

end ReactorTrace
