import Schematic.File.Path
import Schematic.Table

/-! # File trees

A file system as a value: directories and files by their place. -/

namespace Schematic

/-- What stands at a place. -/
inductive Entry where
  | file (content : String)
  | directory
  deriving DecidableEq, Repr

abbrev Place := List String

/-- A file system with a working directory. -/
structure FileTree where
  entries : Table Place Entry := []
  current : Place := []
  home : String := "/"

/-- What a path leads to. -/
inductive Status where
  | missing
  | blocked
  | tooLong
  | invalid
  | directory
  | file (content : String)
  deriving DecidableEq, Repr

namespace FileTree

def placeOf (tree : FileTree) (path : String) : Place :=
  if Path.isAbsolute path then Path.resolved path
  else Path.resolved ("/" ++ "/".intercalate tree.current ++ "/" ++ path)

def absolute (place : Place) : String :=
  "/" ++ "/".intercalate place

def above (place : Place) : List Place :=
  (List.range place.length).map fun count => place.take count

def isFileAt (tree : FileTree) (place : Place) : Bool :=
  match tree.entries.find? place with
  | some (.file _) => true
  | _ => false

def statusAt (tree : FileTree) (place : Place) : Status :=
  match tree.entries.find? place with
  | some (.file content) => .file content
  | some .directory => .directory
  | none =>
    if place.isEmpty then .directory
    else if (above place).any tree.isFileAt then .blocked
    else .missing

def step (place : Place) (element : String) : Place :=
  if element = "" || element = "." then place
  else if element = ".." then place.dropLast
  else place ++ [element]

def longestName : Nat := 255

def longestPath : Nat := 4095

def walk (tree : FileTree) (place : Place) : List String → Status
  | [] => tree.statusAt place
  | element :: rest =>
    match tree.statusAt place with
    | .directory =>
      if longestName < element.utf8ByteSize then .tooLong
      else walk tree (step place element) rest
    | .file _ => .blocked
    | status => status

def startOf (tree : FileTree) (path : String) : Place :=
  if Path.isAbsolute path then [] else tree.current

def status (tree : FileTree) (path : String) : Status :=
  if path = "" then .missing
  else if path.toList.contains '\x00' then .invalid
  else if longestPath < path.utf8ByteSize then .tooLong
  else tree.walk (tree.startOf path) (Text.splitAt '/' path)

def hasDirectoryOf (tree : FileTree) (path : String) : Bool :=
  match tree.walk (tree.startOf path) (Text.splitAt '/' path).dropLast with
  | .directory => path ≠ ""
  | _ => false

def has (tree : FileTree) (path : String) : Bool :=
  match tree.status path with
  | .directory => true
  | .file _ => true
  | _ => false

def isDirectory (tree : FileTree) (path : String) : Bool :=
  match tree.status path with
  | .directory => true
  | _ => false

def isFile (tree : FileTree) (path : String) : Bool :=
  match tree.status path with
  | .file _ => true
  | _ => false

inductive ReadError where
  | missing (path : String)
  | blocked (path : String)
  | tooLong (path : String)
  | invalid (path : String)
  | directory (path : String)
  deriving DecidableEq, Repr

def ReadError.message : ReadError → String
  | .invalid path => "open " ++ path ++ ": invalid argument"
  | .tooLong path => "open " ++ path ++ ": file name too long"
  | .missing path => "open " ++ path ++ ": no such file or directory"
  | .blocked path => "open " ++ path ++ ": not a directory"
  | .directory path => "read " ++ path ++ ": is a directory"

def ReadError.isMissing : ReadError → Bool
  | .missing _ => true
  | _ => false

def read (tree : FileTree) (path : String) : Except ReadError String :=
  match tree.status path with
  | .missing => .error (.missing path)
  | .blocked => .error (.blocked path)
  | .tooLong => .error (.tooLong path)
  | .invalid => .error (.invalid path)
  | .directory => .error (.directory path)
  | .file content => .ok content

def addDirectories (tree : FileTree) (place : Place) : FileTree :=
  let entries := (above place ++ [place]).foldl
    (fun entries place =>
      if place.isEmpty || entries.has place then entries else entries.insert place .directory)
    tree.entries
  { tree with entries }

def addFile (tree : FileTree) (place : Place) (content : String) : FileTree :=
  let tree := tree.addDirectories place.dropLast
  { tree with entries := tree.entries.insert place (.file content) }

/-- Why a directory cannot be made. -/
inductive DirectoryError where
  | occupied (path : String)
  | crossed (path : String)
  | tooLong (path : String)
  | invalid (path : String)
  deriving DecidableEq, Repr

def DirectoryError.message : DirectoryError → String
  | .occupied path => "mkdir " ++ path ++ ": not a directory"
  | .crossed path => "mkdir " ++ path ++ ": file exists"
  | .tooLong path => "mkdir " ++ path ++ ": file name too long"
  | .invalid path => "mkdir " ++ path ++ ": invalid argument"

def beginnings (path : String) : List String :=
  let pieces := Text.splitAt '/' path
  (List.range (pieces.length - 1)).map fun count =>
    "/".intercalate (pieces.take (count + 1)) ++ "/"

def makeOne (tree : FileTree) (path : String) : Except DirectoryError FileTree :=
  match tree.status path with
  | .directory => .ok tree
  | .file _ => .error (.occupied path)
  | .blocked => .error (.crossed path)
  | .tooLong => .error (.tooLong path)
  | .invalid => .error (.invalid path)
  | .missing => .ok (tree.addDirectories (tree.placeOf path))

def makeAll (tree : FileTree) : List String → FileTree × Option DirectoryError
  | [] => (tree, none)
  | path :: rest =>
    match tree.makeOne path with
    | .ok tree => makeAll tree rest
    | .error e => (tree, some e)

def makeDirectory (tree : FileTree) (path : String) : FileTree × Option DirectoryError :=
  tree.makeAll (beginnings path ++ [path])

def write (tree : FileTree) (path content : String) : FileTree :=
  tree.addFile (tree.placeOf path) content

def remove (tree : FileTree) (path : String) : FileTree :=
  let place := tree.placeOf path
  { tree with entries := tree.entries.filter fun entry => !place.isPrefixOf entry.1 }

def below (tree : FileTree) (place : Place) : List (Place × Entry) :=
  tree.entries.filterMap fun (inner, entry) =>
    if place.isPrefixOf inner && inner ≠ place then some (inner.drop place.length, entry)
    else none

def names (tree : FileTree) (path : String) : List String :=
  (tree.below (tree.placeOf path)).filterMap fun (place, _) =>
    match place with
    | [name] => some name
    | _ => none

def filesFrom (tree : FileTree) (path : String) : List (String × String) :=
  match tree.status path with
  | .file content => [(path, content)]
  | _ =>
    (tree.below (tree.placeOf path)).filterMap fun (place, entry) =>
      match entry with
      | .file content => some (Path.join (path :: place), content)
      | .directory => none

end FileTree

end Schematic
