import Schematic.Facts.Tables
import Schematic.Schema.Basic

/-! # Fact records

The relations are written as one object. A relation that a text leaves out is absent, not empty. -/

namespace Schematic

open Json.Decoder

def FileRow.toJson (row : FileRow) : Json :=
  .object [("path", .string row.path), ("language", .string row.language),
    ("role", .string row.role), ("hash", .string row.hash)]

def ModuleRow.toJson (row : ModuleRow) : Json :=
  .object [("name", .string row.name), ("file", .string row.file), ("line", .ofInt row.line)]

def PortRow.toJson (row : PortRow) : Json :=
  .object [("module", .string row.module), ("name", .string row.name),
    ("direction", .string row.direction), ("type", .string row.type), ("width", .ofInt row.width),
    ("file", .string row.file), ("line", .ofInt row.line)]

def SignalRow.toJson (row : SignalRow) : Json :=
  .object [("name", .string row.name), ("type", .string row.type), ("file", .string row.file),
    ("line", .ofInt row.line), ("scope", .string row.scope)]

def InstanceRow.toJson (row : InstanceRow) : Json :=
  .object [("name", .string row.name), ("target", .string row.target), ("file", .string row.file),
    ("line", .ofInt row.line), ("in_module", .string row.inModule)]

def DependencyRow.toJson (row : DependencyRow) : Json :=
  .object [("file", .string row.file), ("target", .string row.target), ("kind", .string row.kind),
    ("line", .ofInt row.line)]

def FileRow.decode : Json.Decoder FileRow := record fun name row value =>
  if selects "path" name then (text row.path value).map fun path => { row with path }
  else if selects "language" name then
    (text row.language value).map fun language => { row with language }
  else if selects "role" name then (text row.role value).map fun role => { row with role }
  else if selects "hash" name then (text row.hash value).map fun hash => { row with hash }
  else some row

def ModuleRow.decode : Json.Decoder ModuleRow := record fun name row value =>
  if selects "name" name then (text row.name value).map fun name => { row with name }
  else if selects "file" name then (text row.file value).map fun file => { row with file }
  else if selects "line" name then (integer row.line value).map fun line => { row with line }
  else some row

def PortRow.decode : Json.Decoder PortRow := record fun name row value =>
  if selects "module" name then (text row.module value).map fun module => { row with module }
  else if selects "name" name then (text row.name value).map fun name => { row with name }
  else if selects "direction" name then
    (text row.direction value).map fun direction => { row with direction }
  else if selects "type" name then (text row.type value).map fun type => { row with type }
  else if selects "width" name then (integer row.width value).map fun width => { row with width }
  else if selects "file" name then (text row.file value).map fun file => { row with file }
  else if selects "line" name then (integer row.line value).map fun line => { row with line }
  else some row

def SignalRow.decode : Json.Decoder SignalRow := record fun name row value =>
  if selects "name" name then (text row.name value).map fun name => { row with name }
  else if selects "type" name then (text row.type value).map fun type => { row with type }
  else if selects "file" name then (text row.file value).map fun file => { row with file }
  else if selects "line" name then (integer row.line value).map fun line => { row with line }
  else if selects "scope" name then (text row.scope value).map fun scope => { row with scope }
  else some row

def InstanceRow.decode : Json.Decoder InstanceRow := record fun name row value =>
  if selects "name" name then (text row.name value).map fun name => { row with name }
  else if selects "target" name then (text row.target value).map fun target => { row with target }
  else if selects "file" name then (text row.file value).map fun file => { row with file }
  else if selects "line" name then (integer row.line value).map fun line => { row with line }
  else if selects "in_module" name then
    (text row.inModule value).map fun inModule => { row with inModule }
  else some row

def DependencyRow.decode : Json.Decoder DependencyRow := record fun name row value =>
  if selects "file" name then (text row.file value).map fun file => { row with file }
  else if selects "target" name then (text row.target value).map fun target => { row with target }
  else if selects "kind" name then (text row.kind value).map fun kind => { row with kind }
  else if selects "line" name then (integer row.line value).map fun line => { row with line }
  else some row

/-- The relations as read: one that the text leaves out is absent. -/
structure FactRecord where
  files : Option (List FileRow) := none
  modules : Option (List ModuleRow) := none
  ports : Option (List PortRow) := none
  signals : Option (List SignalRow) := none
  instances : Option (List InstanceRow) := none
  dependencies : Option (List DependencyRow) := none
  deriving DecidableEq, Repr

structure FactForm where
  files : Option (Json.Slots FileRow) := none
  modules : Option (Json.Slots ModuleRow) := none
  ports : Option (Json.Slots PortRow) := none
  signals : Option (Json.Slots SignalRow) := none
  instances : Option (Json.Slots InstanceRow) := none
  dependencies : Option (Json.Slots DependencyRow) := none

namespace FactForm

def decode : Json.Decoder FactForm := record fun name form value =>
  if selects "files" name then
    (optional {} (slots ⟨"", "", "", ""⟩ FileRow.decode) form.files value).map
      fun files => { form with files }
  else if selects "modules" name then
    (optional {} (slots ⟨"", "", 0⟩ ModuleRow.decode) form.modules value).map
      fun modules => { form with modules }
  else if selects "ports" name then
    (optional {} (slots ⟨"", "", "", "", 0, "", 0⟩ PortRow.decode) form.ports value).map
      fun ports => { form with ports }
  else if selects "signals" name then
    (optional {} (slots ⟨"", "", "", 0, ""⟩ SignalRow.decode) form.signals value).map
      fun signals => { form with signals }
  else if selects "instances" name then
    (optional {} (slots ⟨"", "", "", 0, ""⟩ InstanceRow.decode) form.instances value).map
      fun instances => { form with instances }
  else if selects "dependencies" name then
    (optional {} (slots ⟨"", "", "", 0⟩ DependencyRow.decode) form.dependencies value).map
      fun dependencies => { form with dependencies }
  else some form

def record (form : FactForm) : FactRecord where
  files := form.files.map (·.items)
  modules := form.modules.map (·.items)
  ports := form.ports.map (·.items)
  signals := form.signals.map (·.items)
  instances := form.instances.map (·.items)
  dependencies := form.dependencies.map (·.items)

end FactForm

namespace FactRecord

def decode? (value : Json) : Option FactRecord :=
  (FactForm.decode {} value).map FactForm.record

def relationJson {α : Type} (encode : α → Json) : Option (List α) → Json
  | none => .null
  | some rows => .array (rows.map encode)

def toJson (record : FactRecord) : Json :=
  .object [("files", relationJson FileRow.toJson record.files),
    ("modules", relationJson ModuleRow.toJson record.modules),
    ("ports", relationJson PortRow.toJson record.ports),
    ("signals", relationJson SignalRow.toJson record.signals),
    ("instances", relationJson InstanceRow.toJson record.instances),
    ("dependencies", relationJson DependencyRow.toJson record.dependencies)]

def tables (record : FactRecord) : FactTables where
  files := record.files.getD []
  modules := record.modules.getD []
  ports := record.ports.getD []
  signals := record.signals.getD []
  instances := record.instances.getD []
  dependencies := record.dependencies.getD []

end FactRecord

def FactTables.record (tables : FactTables) : FactRecord where
  files := some tables.files
  modules := some tables.modules
  ports := some tables.ports
  signals := some tables.signals
  instances := some tables.instances
  dependencies := some tables.dependencies

def FactTables.toJson (tables : FactTables) : Json :=
  tables.record.toJson

def Delta.toJson (delta : Delta) : Json :=
  .object [("added", delta.added.toJson), ("removed", delta.removed.toJson)]

def FactTables.isValid (tables : FactTables) : Bool :=
  Schema.factTables.acceptsValue tables.toJson

def FactTables.faults (tables : FactTables) : List String :=
  (tables.ports.zipIdx.filterMap fun (port, index) =>
    if port.width < 0 then
      some s!"#FactTables.ports.{index}.width: invalid value {port.width} (out of bound >=0)"
    else none) ++
  tables.instances.zipIdx.filterMap fun (row, index) =>
    if row.target = "" then
      some s!"#FactTables.instances.{index}.target: invalid value \"\" (out of bound !=\"\")"
    else none

def FactTables.refusal (tables : FactTables) : String :=
  if tables.toJson.compact.toList.contains '\ufeff' then
    "compiling JSON as CUE: illegal byte order mark"
  else
    match tables.faults with
    | [] => Failure.offSchema.message
    | [fault] => "#FactTables schema validation failed: " ++ fault
    | fault :: more =>
      s!"#FactTables schema validation failed: {fault} (and {more.length} more errors)"

end Schematic
