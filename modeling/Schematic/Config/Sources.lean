import Schematic.Config.Basic
import Schematic.File.Search

/-! # Configuration sources

The files that a design may refer to are found by the search patterns of the project. -/

namespace Schematic.Config

def isSource (path : String) : Bool :=
  [".vhd", ".vhdl", ".v", ".sv"].contains (Text.lower (Path.extension path))

def rooted (root pattern : String) : String :=
  if Path.isAbsolute pattern then pattern else Path.join [root, pattern]

def searched (tree : FileTree) (root pattern : String) : Except Failure (List String) :=
  let pattern := rooted root pattern
  match tree.search pattern with
  | .error e => .error (.error ("search path " ++ pattern ++ ": " ++ e.message))
  | .ok paths => .ok ((paths.filter isSource).map Path.clean)

def excluded (tree : FileTree) (root pattern : String) : List String :=
  match tree.search (rooted root pattern) with
  | .error _ => []
  | .ok paths => paths.map Path.clean

def sourceFiles (config : Config) (tree : FileTree) (root : String) :
    Except Failure (List String) := do
  let found ← config.searchPaths.mapM (searched tree root)
  let out := config.exclude.flatMap (excluded tree root)
  let kept := found.flatten.filter fun path => !out.contains path
  return Table.keys (Table.ofList (kept.map fun path => (path, ())))

def resolveSource (config : Config) (tree : FileTree) (root name : String) :
    Except Failure String := do
  let candidates := if Path.isAbsolute name then [name] else [name, Path.join [root, name]]
  match candidates.find? tree.isFile with
  | some path => return path
  | none =>
    let files ← config.sourceFiles tree root
    match files.filter fun path => Path.base path = Path.base name with
    | [] =>
      throw (.error ("external source " ++ name ++ " not found in " ++
        Text.bracketed config.searchPaths))
    | [path] => return path
    | paths =>
      throw (.error ("external source " ++ name ++ " is ambiguous: " ++ ", ".intercalate paths))

def library (config : Config) (tree : FileTree) (root : String) : Library where
  locate := config.resolveSource tree root
  read path := (tree.read path).mapError (·.message)

def fileName : String := "hdlgen.json"

def loadFile (tree : FileTree) (path : String) : Except Failure Config :=
  match tree.read path with
  | .error e => .error (.error ("reading config file: " ++ e.message))
  | .ok text => parse path text

def namesIn (directory : String) : List String :=
  [Path.join [directory, fileName], Path.join [directory, "." ++ fileName]]

def candidates (tree : FileTree) (root : String) : List String :=
  let inRoot :=
    if tree.isDirectory root && tree.placeOf root ≠ tree.current then namesIn root else []
  namesIn (FileTree.absolute tree.current) ++ inRoot ++
    [Path.join [tree.home, ".config", "hdlgen", "config.json"]]

def load (tree : FileTree) (root : String) : Except Failure Config :=
  match (candidates tree root).find? tree.has with
  | some path => loadFile tree path
  | none => .ok {}

end Schematic.Config
