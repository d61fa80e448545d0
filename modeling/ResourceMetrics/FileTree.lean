import ResourceMetrics.Path

/-! The files that can be seen: a finite tree from the root down. Entries are listed by the names
that lead to them, and a directory is there if it is listed itself, but for the root, which always
is. An absolute path is looked up from the root, any other one from the working directory. -/

namespace ResourceMetrics

inductive IoError
  | notFound
  | notADirectory
  | isADirectory
  | nameTooLong
  | nulInPath
  deriving Repr, DecidableEq

def IoError.message : IoError → String
  | .notFound => "No such file or directory (os error 2)"
  | .notADirectory => "Not a directory (os error 20)"
  | .isADirectory => "Is a directory (os error 21)"
  | .nameTooLong => "File name too long (os error 36)"
  | .nulInPath => "file name contained an unexpected NUL byte"

inductive Entry
  | file (contents : Bytes)
  | directory
  deriving Repr, DecidableEq

def Entry.isDirectory : Entry → Bool
  | .file _ => false
  | .directory => true

/-- The names that lead from the root to an entry. -/
abbrev Location := List Bytes

/-- Where a path is looked up from. -/
def Path.origin (directory : Location) (path : Path) : Location :=
  if path.isAbsolute then [] else directory

structure FileTree where
  entries : List (Location × Entry) := []
  /-- Where paths that are not absolute start. -/
  directory : Location := []
  deriving Repr, DecidableEq

namespace FileTree

def longestName : Nat := 255

/-- The longest path that is looked up at all. -/
def longestPath : Nat := 4095

/-- The entry at a location; the root is always there. -/
def entry? (tree : FileTree) (location : Location) : Option Entry :=
  if location.isEmpty then some .directory else tree.entries.lookup location

/-- Follows segments from a location. Every segment has to be looked up in a directory, also those
that lead nowhere new; above the root there is nothing but the root. -/
def follow (tree : FileTree) : Location → List Bytes → Except IoError Location
  | location, [] => .ok location
  | location, s :: rest =>
    match (tree.entry? location).map Entry.isDirectory with
    | none => .error .notFound
    | some false => .error .notADirectory
    | some true =>
      if !Path.isName s then follow tree location rest
      else if s = Path.parent then follow tree location.dropLast rest
      else if longestName < s.length then .error .nameTooLong
      else if (tree.entry? (location ++ [s])).isNone then .error .notFound
      else follow tree (location ++ [s]) rest

/-- The location that a path leads to. -/
def find (tree : FileTree) (path : Path) : Except IoError Location :=
  if path.contains 0 then .error .nulInPath
  else if path.isEmpty then .error .notFound
  else if longestPath < path.length then .error .nameTooLong
  else tree.follow (path.origin tree.directory) path.segments

/-- The entry that a path leads to. Opening a directory succeeds. -/
def openFile (tree : FileTree) (path : Path) : Except IoError Entry :=
  match tree.find path with
  | .error cause => .error cause
  | .ok location =>
    match tree.entry? location with
    | some entry => .ok entry
    | none => .error .notFound

def isDirectory (tree : FileTree) (path : Path) : Bool :=
  match tree.openFile path with
  | .ok entry => entry.isDirectory
  | .error _ => false

/-- The names of the entries of a directory. -/
def list (tree : FileTree) (path : Path) : Except IoError (List Bytes) :=
  match tree.find path with
  | .error cause => .error cause
  | .ok location =>
    match tree.entry? location with
    | some .directory =>
      .ok (tree.entries.filterMap fun e =>
        if e.1.isEmpty || e.1.dropLast != location then none else e.1.getLast?)
    | _ => .error .notADirectory

/-- Puts an entry at a location, in place of the one that is there. -/
def put (tree : FileTree) (location : Location) (entry : Entry) : FileTree :=
  if location.isEmpty then tree
  else { tree with entries := tree.entries.filter (·.1 != location) ++ [(location, entry)] }

/-- Makes sure that a directory is at a location. -/
def ensureDirectory (tree : FileTree) (location : Location) : FileTree :=
  if (tree.entry? location) = some .directory then tree else tree.put location .directory

/-- Goes through segments from a location and makes the directories on the way. The last name is
kept apart, as the place for a new entry. -/
def makeWay (tree : FileTree) : Location → List Bytes → FileTree × Location
  | location, [] => (tree, location)
  | location, s :: rest =>
    if !Path.isName s then makeWay tree location rest
    else if s = Path.parent then
      makeWay (tree.ensureDirectory location) location.dropLast rest
    else makeWay (tree.ensureDirectory location) (location ++ [s]) rest

/-- Takes away all that is at a location or below it. -/
def clear (tree : FileTree) (location : Location) : FileTree :=
  { tree with entries := tree.entries.filter fun e => !location.isPrefixOf e.1 }

/-- Writes a file or makes a directory, with the directories above it. -/
def write (tree : FileTree) (path : Path) (entry : Entry) : FileTree :=
  let (tree, location) := tree.makeWay (path.origin tree.directory) path.segments
  match entry with
  | .file _ => (tree.clear location).put location entry
  | .directory => tree.ensureDirectory location

/-- Removes an entry; a directory goes with all that is in it. -/
def remove (tree : FileTree) (path : Path) : FileTree :=
  match tree.find path with
  | .ok location => tree.clear location
  | .error _ => tree

/-- A tree with nothing but the working directory and those above it. -/
def emptyAt (directory : Location) : FileTree :=
  let (tree, location) := makeWay { directory } [] directory
  tree.ensureDirectory location

/-- A tree with an entry at each of some paths, relative ones below the working directory. -/
def ofList (entries : List (Path × Entry))
    (directory : Location := [Path.ofString "work"]) : FileTree :=
  entries.foldl (fun tree e => tree.write e.1 e.2) (emptyAt directory)

end FileTree

/-- The contents of an opened entry. A directory can be opened but not read. -/
def Entry.contents : Entry → Except IoError Bytes
  | .file contents => .ok contents
  | .directory => .error .isADirectory

/-- Why the contents of a file could not be made sense of: it could not be opened, not be read, or
not be parsed, with what the format says of it. -/
inductive FileError (ε : Type)
  | opening (path : Path) (cause : IoError)
  | reading (path : Path) (cause : IoError)
  | parsing (path : Path) (cause : ε)
  deriving Repr, DecidableEq

def openingMessage (path : Path) (cause : IoError) : String :=
  "failed to open file `" ++ path.display ++ "`: " ++ cause.message

def FileError.message {ε : Type} (explain : ε → String) : FileError ε → String
  | .opening path cause => openingMessage path cause
  | .reading path cause => "failed to read file `" ++ path.display ++ "`: " ++ cause.message
  | .parsing path cause => "failed to read file `" ++ path.display ++ "`: " ++ explain cause

/-- Reads a file in some format. -/
def FileTree.parse {ε α : Type} (tree : FileTree) (path : Path)
    (format : Bytes → Except ε α) : Except (FileError ε) α :=
  match tree.openFile path with
  | .error cause => .error (.opening path cause)
  | .ok entry =>
    match entry.contents with
    | .error cause => .error (.reading path cause)
    | .ok contents =>
      match format contents with
      | .error cause => .error (.parsing path cause)
      | .ok a => .ok a

end ResourceMetrics
