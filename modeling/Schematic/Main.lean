import Schematic.Command.Facts
import Schematic.Command.Generate

/-! # Command line

Reads the files that a command may look at, runs the command on the tree of them, and writes back
what it changed. -/

namespace Schematic.CommandLine

def diskEntry (place : Place) : IO.FS.DirEntry where
  root := FileTree.absolute place.dropLast
  fileName := place.getLastD ""

partial def load (tree : FileTree) (entry : IO.FS.DirEntry) : IO FileTree := do
  let place := Path.resolved entry.path.toString
  if ← entry.path.isDir then
    match ← entry.path.readDir.toBaseIO with
    | .ok inner => inner.foldlM load (tree.addDirectories place)
    | .error _ => return tree.addDirectories place
  else
    match ← (IO.FS.readFile entry.path).toBaseIO with
    | .ok content => return tree.addFile place content
    | .error _ => return tree

def reach (tree : FileTree) (path : String) : IO FileTree := do
  let place := tree.placeOf path
  let mut tree := tree
  for above in FileTree.above place do
    if ← (diskEntry above).path.isDir then
      tree := tree.addDirectories above
  load tree (diskEntry place)

def save (earlier later : FileTree) : IO Unit :=
  for (place, entry) in later.entries do
    if earlier.entries.find? place ≠ some entry then
      match entry with
      | .directory => IO.FS.createDirAll (diskEntry place).path
      | .file content => IO.FS.writeFile (diskEntry place).path content

def variableText (name : String) : IO String :=
  return (← IO.getEnv name).getD ""

def reachAll (tree : FileTree) (paths : List String) : IO FileTree :=
  let outside := paths.filter fun path =>
    path ≠ "" && !tree.current.isPrefixOf (tree.placeOf path)
  outside.foldlM reach tree

def startingTree (paths : List String) : IO FileTree := do
  let current := Path.resolved (← IO.currentDir).toString
  let home ← variableText "HOME"
  let tree ← load { current, home := if home = "" then "/" else home } (diskEntry current)
  reachAll tree <| paths ++
    if home = "" then [] else [Path.join [home, ".config", "hdlgen", "config.json"]]

def searchedDirectory (pattern : String) : String :=
  Path.directory (String.ofList
    (pattern.toList.takeWhile fun c => !(['*', '?', '[', '\x7b'].contains c)))

def configuredPaths (config : Config) : List String :=
  [config.output, config.timingPath, config.metricsFile] ++
    config.searchPaths.map searchedDirectory

def ask (question : String) : IO String := do
  if question = "" then return ""
  IO.print question
  (← IO.getStdout).flush
  (← IO.getStdin).getLine

def generate (arguments : List String) : IO (FileTree × Answer) := do
  let timingPath ← variableText "HDLGEN_TIMING_JSONL"
  let tree ← startingTree (timingPath :: arguments)
  let config : Except Failure Config :=
    match GenerateCommand.Options.parse arguments with
    | .ok options =>
      if options.config = "" then Config.load tree "." else Config.loadFile tree options.config
    | .error _ => .ok {}
  let tree ← match config with
    | .ok config => reachAll tree (configuredPaths config)
    | .error _ => pure tree
  let input ← ask (GenerateCommand.questionBefore tree arguments)
  return (tree, GenerateCommand.run tree timingPath arguments input)

def surveyFacts (arguments : List String) : IO (FileTree × Answer) := do
  let tree ← startingTree <|
    match FactsCommand.Options.read {} arguments with
    | .ok options => [options.output, options.deltaFrom, options.deltaOut] ++ options.inputs
    | .error _ => []
  return (tree, FactsCommand.run (← IO.appPath).toString tree arguments)

end Schematic.CommandLine

open Schematic in
def main (arguments : List String) : IO UInt32 := do
  let facts := (← IO.appPath).fileName = some "hdlgen-facts"
  let (earlier, answer) ←
    if facts then CommandLine.surveyFacts arguments else CommandLine.generate arguments
  CommandLine.save earlier answer.tree
  IO.print answer.output
  IO.eprint (linesText (answer.complaints.flatMap Complaint.lines))
  return answer.exit.toUInt32
