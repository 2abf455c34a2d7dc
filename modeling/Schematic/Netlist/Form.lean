import Schematic.Netlist.Design

/-! # Design files

A form is a design file while it is decoded. Its lists remember what their slots held before, so
that a member that is stated twice adds to what it said first. -/

namespace Schematic

open Json

def Point.blank : Point := ⟨0, 0⟩

open Json.Decoder in
def Point.decode : Decoder Point := record fun name point value =>
  if selects "net" name then (integer point.net value).map fun net => { point with net }
  else if selects "bit" name then (integer point.bit value).map fun bit => { point with bit }
  else some point

def Point.decodeAll : Decoder (Slots Point) :=
  Decoder.slots Point.blank Point.decode

structure NetForm where
  id : Int := 0
  width : Int := 0
  forcedRoot : Bool := false
  sources : Slots Point := {}
  sinks : Slots (Slots Point) := {}
  clockTree : Option Int := none

namespace NetForm

open Json.Decoder in
def decode : Decoder NetForm := record fun name net value =>
  if selects "id" name then (integer net.id value).map fun id => { net with id }
  else if selects "width" name then (integer net.width value).map fun width => { net with width }
  else if selects "forcedRoot" name then
    (truth net.forcedRoot value).map fun forcedRoot => { net with forcedRoot }
  else if selects "sources" name then
    (Point.decodeAll net.sources value).map fun sources => { net with sources }
  else if selects "sinks" name then
    (slots {} Point.decodeAll net.sinks value).map fun sinks => { net with sinks }
  else if selects "clockTree" name then
    (optional 0 integer net.clockTree value).map fun clockTree => { net with clockTree }
  else some net

def net (form : NetForm) : Net where
  id := form.id
  width := form.width
  forcedRoot := form.forcedRoot
  sources := form.sources.items
  sinks := form.sinks.items.map (·.items)
  clockTree := form.clockTree

end NetForm

structure EndForm where
  name : String := ""
  output : Bool := false
  points : Slots Point := {}

namespace EndForm

open Json.Decoder in
def decode : Decoder EndForm := record fun name e value =>
  if selects "name" name then (text e.name value).map fun name => { e with name }
  else if selects "output" name then (truth e.output value).map fun output => { e with output }
  else if selects "points" name then
    (Point.decodeAll e.points value).map fun points => { e with points }
  else some e

def port (form : EndForm) : End :=
  ⟨form.name, form.output, form.points.items⟩

end EndForm

structure ComponentForm where
  id : Int := 0
  kind : Kind := Kind.named ""
  attributes : Attributes := []
  ends : Slots EndForm := {}
  circuit : String := ""

namespace ComponentForm

open Json.Decoder in
def decode : Decoder ComponentForm := record fun name component value =>
  if selects "id" name then (integer component.id value).map fun id => { component with id }
  else if selects "kind" name then
    (text component.kind.name value).map fun kind => { component with kind := Kind.named kind }
  else if selects "attrs" name then
    (Attributes.decode component.attributes value).map fun attributes =>
      { component with attributes }
  else if selects "ends" name then
    (slots {} EndForm.decode component.ends value).map fun ends => { component with ends }
  else if selects "circuit" name then
    (text component.circuit value).map fun circuit => { component with circuit }
  else some component

def component (form : ComponentForm) : Component where
  id := form.id
  kind := form.kind
  attributes := form.attributes
  ends := form.ends.items.map EndForm.port
  circuit := form.circuit

end ComponentForm

def Component.decode? (value : Json) : Option Component :=
  (ComponentForm.decode {} value).map ComponentForm.component

open Json.Decoder in
def BlackBox.decode : Decoder BlackBox := record fun name box value =>
  if selects "file" name then (text box.file value).map fun file => { box with file }
  else if selects "language" name then
    (text box.language value).map fun language => { box with language }
  else some box

structure CircuitForm where
  name : String := ""
  nets : Slots NetForm := {}
  components : Slots (Option ComponentForm) := {}
  blackBox : Option BlackBox := none

namespace CircuitForm

open Json.Decoder in
def decode : Decoder CircuitForm := record fun name circuit value =>
  if selects "name" name then (text circuit.name value).map fun name => { circuit with name }
  else if selects "nets" name then
    (slots {} NetForm.decode circuit.nets value).map fun nets => { circuit with nets }
  else if selects "components" name then
    (slots none (optional {} ComponentForm.decode) circuit.components value).map
      fun components => { circuit with components }
  else if selects "blackBox" name then
    (optional ⟨"", ""⟩ BlackBox.decode circuit.blackBox value).map
      fun blackBox => { circuit with blackBox }
  else some circuit

def draft (form : CircuitForm) : DraftCircuit where
  name := form.name
  nets := form.nets.items.map NetForm.net
  components := form.components.items.map fun component => component.map ComponentForm.component
  blackBox := form.blackBox

end CircuitForm

open Json.Decoder in
def ClockTree.decode : Decoder ClockTree := record fun name tree value =>
  if selects "id" name then (integer tree.id value).map fun id => { tree with id }
  else if selects "highTicks" name then
    (integer tree.highTicks value).map fun highTicks => { tree with highTicks }
  else if selects "lowTicks" name then
    (integer tree.lowTicks value).map fun lowTicks => { tree with lowTicks }
  else if selects "phase" name then
    (integer tree.phase value).map fun phase => { tree with phase }
  else some tree

structure DesignForm where
  name : String := ""
  top : String := ""
  circuits : Slots (Option CircuitForm) := {}
  clockTrees : Slots ClockTree := {}

namespace DesignForm

open Json.Decoder in
def decode : Decoder DesignForm := record fun name design value =>
  if selects "name" name then (text design.name value).map fun name => { design with name }
  else if selects "top" name then (text design.top value).map fun top => { design with top }
  else if selects "circuits" name then
    (slots none (optional {} CircuitForm.decode) design.circuits value).map
      fun circuits => { design with circuits }
  else if selects "clockTrees" name then
    (slots ⟨0, 0, 0, 0⟩ ClockTree.decode design.clockTrees value).map
      fun clockTrees => { design with clockTrees }
  else some design

def draft (form : DesignForm) : Draft where
  name := form.name
  top := form.top
  circuits := form.circuits.items.map fun circuit => circuit.map CircuitForm.draft
  clockTrees := form.clockTrees.items

end DesignForm

def Draft.decode? (value : Json) : Option Draft :=
  (DesignForm.decode {} value).map DesignForm.draft

end Schematic
