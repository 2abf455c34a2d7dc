import Schematic.Scan.Record
import Schematic.Table

/-! # Fact tables

The facts of all files of a tree as six relations. -/

namespace Schematic

/-- A file; only source files have a language. -/
structure FileRow where
  path : String
  language : String := ""
  role : String := ""
  hash : String := ""
  deriving DecidableEq, Repr

structure ModuleRow where
  name : String
  file : String
  line : Int
  deriving DecidableEq, Repr

structure PortRow where
  module : String
  name : String
  direction : String
  type : String
  width : Int
  file : String
  line : Int
  deriving DecidableEq, Repr

structure SignalRow where
  name : String
  type : String
  file : String
  line : Int
  scope : String
  deriving DecidableEq, Repr

structure InstanceRow where
  name : String
  target : String
  file : String
  line : Int
  inModule : String
  deriving DecidableEq, Repr

/-- A library, use or include clause. -/
structure DependencyRow where
  file : String
  target : String
  kind : String
  line : Int
  deriving DecidableEq, Repr

structure FactTables where
  files : List FileRow := []
  modules : List ModuleRow := []
  ports : List PortRow := []
  signals : List SignalRow := []
  instances : List InstanceRow := []
  dependencies : List DependencyRow := []
  deriving DecidableEq, Repr

/-- The facts of one source file. -/
structure SourceFacts where
  file : String
  dialect : Hdl.Dialect
  facts : Scan.Facts

namespace FactTables

def size (tables : FactTables) : Nat :=
  tables.files.length + tables.modules.length + tables.ports.length + tables.signals.length +
    tables.instances.length + tables.dependencies.length

def firstOfPath (rows : List FileRow) : List FileRow :=
  rows.foldl (fun kept row => if kept.any (·.path == row.path) then kept else kept ++ [row]) []

def build (sources : List SourceFacts) (rows : List FileRow) : FactTables :=
  let all := firstOfPath
    (rows ++ sources.map fun source => { path := source.file, language := source.dialect.name })
  let modules := sources.flatMap fun source =>
    source.facts.entities.map fun entity => (⟨entity.name, source.file, entity.line⟩ : ModuleRow)
  { files := all.mergeSort fun a b => a.path ≤ b.path
    modules := modules.mergeSort fun a b => a.file ≤ b.file
    ports := sources.flatMap fun source =>
      source.facts.entities.flatMap fun entity =>
        entity.ports.map fun port =>
          ⟨entity.name, port.name, port.direction, port.type, port.width, source.file, port.line⟩
    signals := sources.flatMap fun source =>
      source.facts.signals.map fun signal =>
        ⟨signal.name, signal.type, source.file, signal.line, signal.inModule⟩
    instances := sources.flatMap fun source =>
      (source.facts.uses.filter (·.isInstance)).map fun use =>
        ⟨use.name, use.target, source.file, use.line, use.inModule⟩
    dependencies := sources.flatMap fun source =>
      source.facts.dependencies.map fun dependency =>
        ⟨source.file, dependency.target, dependency.kind, dependency.line⟩ }

def moduleFiles (tables : FactTables) : Table String (List String) :=
  tables.modules.foldl
    (fun table row => table.insert row.name ((table.find? row.name).getD [] ++ [row.file])) []

end FactTables

/-- The rows that came and the rows that went between two snapshots. -/
structure Delta where
  added : FactTables
  removed : FactTables
  deriving DecidableEq, Repr

def rowKey (fields : List String) : String :=
  "|".intercalate fields

def FileRow.key (row : FileRow) : String :=
  rowKey [row.path, row.language, row.role, row.hash]

def ModuleRow.key (row : ModuleRow) : String :=
  rowKey [row.name, row.file, toString row.line]

def PortRow.key (row : PortRow) : String :=
  rowKey [row.module, row.name, row.direction, row.type, toString row.width, row.file,
    toString row.line]

def SignalRow.key (row : SignalRow) : String :=
  rowKey [row.name, row.type, row.file, toString row.line, row.scope]

def InstanceRow.key (row : InstanceRow) : String :=
  rowKey [row.name, row.target, row.file, toString row.line, row.inModule]

def DependencyRow.key (row : DependencyRow) : String :=
  rowKey [row.file, row.target, row.kind, toString row.line]

def newRows {α : Type} (key : α → String) (earlier rows : List α) : List α :=
  let known := earlier.map key
  rows.filter fun row => !known.contains (key row)

namespace FactTables

def newSince (tables earlier : FactTables) : FactTables where
  files := newRows FileRow.key earlier.files tables.files
  modules := newRows ModuleRow.key earlier.modules tables.modules
  ports := newRows PortRow.key earlier.ports tables.ports
  signals := newRows SignalRow.key earlier.signals tables.signals
  instances := newRows InstanceRow.key earlier.instances tables.instances
  dependencies := newRows DependencyRow.key earlier.dependencies tables.dependencies

def ofFiles (tables : FactTables) (files : List String) : FactTables where
  files := tables.files.filter fun row => files.contains row.path
  modules := tables.modules.filter fun row => files.contains row.file
  ports := tables.ports.filter fun row => files.contains row.file
  signals := tables.signals.filter fun row => files.contains row.file
  instances := tables.instances.filter fun row => files.contains row.file
  dependencies := tables.dependencies.filter fun row => files.contains row.file

end FactTables

namespace Delta

def between (earlier later : FactTables) : Delta :=
  ⟨later.newSince earlier, earlier.newSince later⟩

def isEmpty (delta : Delta) : Bool :=
  delta.added.size == 0 && delta.removed.size == 0

def ofFiles (delta : Delta) (files : List String) : Delta :=
  ⟨delta.added.ofFiles files, delta.removed.ofFiles files⟩

end Delta

end Schematic
