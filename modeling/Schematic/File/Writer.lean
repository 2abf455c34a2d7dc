import Schematic.File.Tree
import Schematic.Hdl.Unit
import Schematic.Report

/-! # Writing modules

A module of which a file exists is left out with a warning, so a second run against a full tree
changes nothing. -/

namespace Schematic

open Hdl

namespace FileTree

def temporary (path : String) : String :=
  let directory := Path.directory path
  (if Text.endsWith directory "/" then directory else directory ++ "/") ++ ".tmp-N"

def renameObstacle? (tree : FileTree) (path : String) : Option String :=
  match tree.status path with
  | .directory => some "file exists"
  | .tooLong => some "file name too long"
  | .invalid => some "invalid argument"
  | .missing => if path = "" then some "no such file or directory" else none
  | _ => none

def replace (tree : FileTree) (path content : String) : FileTree × Option Failure :=
  match tree.makeDirectory (Path.directory path) with
  | (tree, some e) => (tree, some (.error ("output dir: " ++ e.message)))
  | (tree, none) =>
    match tree.renameObstacle? path with
    | some obstacle =>
      (tree, some (.error ("rename output file: rename " ++ temporary path ++ " " ++ path ++ ": " ++
        obstacle)))
    | none => (tree.write path content, none)

/-- Why a file cannot be opened for writing. -/
inductive WriteError where
  | missing (path : String)
  | blocked (path : String)
  | tooLong (path : String)
  | invalid (path : String)
  | directory (path : String)
  deriving DecidableEq, Repr

def WriteError.message : WriteError → String
  | .tooLong path => "open " ++ path ++ ": file name too long"
  | .invalid path => "open " ++ path ++ ": invalid argument"
  | .missing path => "open " ++ path ++ ": no such file or directory"
  | .blocked path => "open " ++ path ++ ": not a directory"
  | .directory path => "open " ++ path ++ ": is a directory"

def endsAsDirectory (tree : FileTree) (path : String) : Bool :=
  let elements := Text.dropEndWhile (· == "") (Text.splitAt '/' path)
  Text.endsWith path "/" && tree.status path ≠ .invalid &&
    tree.walk (tree.startOf path) elements.dropLast = .directory

def overwrite (tree : FileTree) (path content : String) : Except WriteError FileTree :=
  if tree.endsAsDirectory path then .error (.directory path)
  else match tree.status path with
  | .file _ => .ok (tree.write path content)
  | .directory => .error (.directory path)
  | .blocked => .error (.blocked path)
  | .tooLong => .error (.tooLong path)
  | .invalid => .error (.invalid path)
  | .missing =>
    if tree.hasDirectoryOf path then .ok (tree.write path content)
    else .error (.missing path)

def create (tree : FileTree) (path content : String) : FileTree × Option Failure :=
  if tree.has path then (tree, some (.error (path ++ ": file already exists")))
  else tree.replace path content

end FileTree

/-- The state of writing modules below a root. -/
structure Writer where
  root : String
  dialect : Dialect
  tree : FileTree
  written : List String := []
  skipped : List String := []
  messages : List Message := []

namespace Writer

def shortened (writer : Writer) (path : String) : String :=
  match Path.relative? writer.root path with
  | some short => if Text.startsWith short ".." then path else short
  | none => path

def existsWarning (writer : Writer) (unit : DesignUnit) (path content existing : String) :
    Message :=
  let text := writer.shortened path ++
    if existing = content then " already exists, left untouched"
    else " already exists with different content, left untouched " ++
      "(clear the output directory to regenerate)"
  ⟨.warning, "", unit.name, text⟩

def inspect (writer : Writer) (unit : DesignUnit) :
    List (String × String) → Except Failure (Option Message)
  | [] => .ok none
  | (path, content) :: rest =>
    match writer.tree.read path with
    | .ok existing => .ok (some (writer.existsWarning unit path content existing))
    | .error e =>
      if e.isMissing then inspect writer unit rest
      else .error (.fatal "" unit.name ("inspect " ++ path ++ ": " ++ e.message))

def writeAll (writer : Writer) (module : String) :
    List (String × String) → Writer × Option Failure
  | [] => (writer, none)
  | (path, content) :: rest =>
    match writer.tree.create path content with
    | (tree, some failure) => ({ writer with tree }, some (failure.asFatal module))
    | (tree, none) => writeAll { writer with tree, written := writer.written ++ [path] } module rest

def writeUnit (writer : Writer) (unit : DesignUnit) : Writer × Option Failure :=
  if unit.behavior.isEmpty && unit.verbatim.isNone then
    (writer, some (.fatal "" unit.name "generated body is empty"))
  else
    let files := unit.files writer.root writer.dialect
    match writer.inspect unit files with
    | .error failure => (writer, some failure)
    | .ok (some warning) =>
      ({ writer with
        skipped := writer.skipped ++ [unit.name]
        messages := writer.messages ++ [warning] }, none)
    | .ok none => writer.writeAll unit.name files

end Writer

end Schematic
