import Schematic.Facts.Tables
import Schematic.File.Tree
import Schematic.Hdl.Unit
import Schematic.Text.Digest

/-! # Surveys

Every file of a tree is recorded with its role and the digest of its content, and source files also
with their facts. -/

namespace Schematic

abbrev DependencyGraph := Table String (List String)

namespace DependencyGraph

def needs (graph : DependencyGraph) (file : String) : List String :=
  (graph.find? file).getD []

def addNeed (graph : DependencyGraph) (file needed : String) : DependencyGraph :=
  match graph.find? file with
  | none => graph
  | some needs =>
    let set := Table.insert needed () (needs.map fun need => (need, ()))
    graph.insert file (Table.keys set)

/-- The files that are needed before others, as far as a walk has come. -/
structure Walk where
  met : List String := []
  order : List String := []

def visit (graph : DependencyGraph) : (depth : Nat) → Walk → String → Walk
  | 0, walk, _ => walk
  | depth + 1, walk, file =>
    if walk.met.contains file then walk
    else
      let walk := (graph.needs file).foldl (visit graph depth)
        { walk with met := file :: walk.met }
      { walk with order := walk.order ++ [file] }

def order (graph : DependencyGraph) : List String :=
  let bound := graph.length + (graph.flatMap (·.2)).length + 1
  (graph.keys.foldl (visit graph bound) {}).order

end DependencyGraph

namespace FactTables

def interfaceOf? (file : String) : Option String :=
  let stem := Path.withoutExtension file
  if Text.endsWith stem Hdl.behaviorSuffix then
    some (Text.withoutEnd Hdl.behaviorSuffix stem ++ Hdl.entitySuffix ++ Path.extension file)
  else none

def declaringFiles (tables : FactTables) : Table String (List String) :=
  tables.moduleFiles.foldl
    (fun table (name, files) => table.insert (Text.lower name) files) []

def dependencyGraph (tables : FactTables) : DependencyGraph :=
  let sources := (tables.files.filter (·.language ≠ "")).map (·.path)
  let nodes : DependencyGraph := Table.ofList (sources.map fun path => (path, []))
  let declaring := tables.declaringFiles
  let used := tables.instances.foldl
    (fun graph row =>
      ((declaring.find? (Text.lower row.target)).getD []).foldl
        (fun graph file => if file = row.file then graph else graph.addNeed row.file file) graph)
    nodes
  nodes.keys.foldl
    (fun graph file =>
      match interfaceOf? file with
      | some interface => if nodes.has interface then graph.addNeed file interface else graph
      | none => graph)
    used

def compileOrder (tables : FactTables) : List String :=
  tables.dependencyGraph.order

end FactTables

/-- What a file of a tree is for. -/
inductive FileRole where
  | entity
  | behavior
  | module
  | memory
  | constraint
  | blackBox
  deriving DecidableEq, Repr

def FileRole.name : FileRole → String
  | .entity => "entity"
  | .behavior => "behavior"
  | .module => "module"
  | .memory => "memory"
  | .constraint => "constraint"
  | .blackBox => "blackbox"

namespace FileRole

def isConstraint (path : String) : Bool :=
  [".xdc", ".qsf", ".lpf"].contains (Text.lower (Path.extension path))

def ofSuffix? (path : String) : Option FileRole :=
  let stem := Path.withoutExtension (Path.base path)
  if Text.endsWith stem Hdl.entitySuffix then some .entity
  else if Text.endsWith stem Hdl.behaviorSuffix then some .behavior
  else none

def ofUnit (dialect : Hdl.Dialect) (unit : Hdl.DesignUnit) (path : String) : FileRole :=
  if isConstraint path then .constraint
  else if Text.lower (Path.extension path) ≠ "." ++ dialect.extension then .memory
  else if unit.verbatim.isSome then .blackBox
  else (ofSuffix? path).getD .module

def ofName (path : String) : FileRole :=
  if isConstraint path then .constraint
  else
    match Scan.dialectOf? path with
    | none => .memory
    | some .verilog => .module
    | some .vhdl => (ofSuffix? path).getD .blackBox

end FileRole

structure SurveyedFile where
  path : String
  role : FileRole
  content : String

def SurveyedFile.facts? (file : SurveyedFile) : Option SourceFacts :=
  (Scan.dialectOf? file.path).map fun dialect =>
    ⟨file.path, dialect, Scan.facts dialect file.content⟩

def SurveyedFile.row (file : SurveyedFile) : FileRow where
  path := file.path
  language := ((Scan.dialectOf? file.path).map (·.name)).getD ""
  role := file.role.name
  hash := Digest.ofText file.content

def Scan.factsOfFile (tree : FileTree) (path : String) : Except Failure Scan.Facts :=
  match tree.read path with
  | .error e => .error (.error ("reading file: " ++ e.message))
  | .ok content =>
    match dialectOf? path with
    | none => .error (.error (path ++ ": not an HDL source"))
    | some dialect => .ok (facts dialect content)

namespace FactTables

def ofSurvey (files : List SurveyedFile) : FactTables :=
  build (files.filterMap SurveyedFile.facts?) (files.map SurveyedFile.row)

def orderFile : String := "compile_order.txt"

def isRunRecord (name : String) : Bool :=
  name = orderFile || Path.extension name = ".jsonl"

def isHidden (name : String) : Bool :=
  Text.startsWith name "."

def surveyed (tree : FileTree) (place : Place) : List SurveyedFile :=
  (tree.below place).filterMap fun (inner, entry) =>
    match entry with
    | .directory => none
    | .file content =>
      if inner.any isHidden || isRunRecord (inner.getLastD "") then none
      else
        let path := "/".intercalate inner
        some ⟨path, .ofName path, content⟩

def survey (tree : FileTree) (path : String) : Except Failure FactTables :=
  let failed (reason : String) : Failure :=
    .error ("scan " ++ path ++ ": lstat " ++ path ++ ": " ++ reason)
  match tree.status path with
  | .missing => .error (failed "no such file or directory")
  | .blocked => .error (failed "not a directory")
  | .tooLong => .error (failed "file name too long")
  | .invalid => .error (failed "invalid argument")
  | .directory => .ok (ofSurvey (surveyed tree (tree.placeOf path)))
  | .file content =>
    if isRunRecord (Path.base path) then .ok {}
    else .ok (ofSurvey [⟨".", .ofName ".", content⟩])

end FactTables

end Schematic
