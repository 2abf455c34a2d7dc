import Schematic.Board.Basic
import Schematic.Clock.Source
import Schematic.Report

/-! # The module around a design

The ports of this module are pins of the device and the oscillator of the board. Every bit of the
design that reaches outwards is placed in turn. -/

namespace Schematic

open Hdl

/-- A bit of the design that reaches outwards. -/
structure OuterBit where
  direction : Direction
  position : Int
  signal : Expr
  source : String
  bit : BoardBit
  deriving Repr

def wrapperWire (port : String) : String :=
  "s_" ++ port

def boardBit (board : Option Board) (path : String) (bit : Nat) : BoardBit :=
  (board.map fun board => board.bitAt path bit).getD {}

def HiddenBit.outer (board : Option Board) (total : HiddenCount) (hidden : HiddenBit) : OuterBit :=
  let signal : Expr := match hidden.direction with
    | .input => .bitOf (wrapperWire hiddenInput) total.inputs hidden.index
    | .output => .bitOf (wrapperWire hiddenOutput) total.outputs hidden.index
    | .bidirectional => .bitOf hiddenInout total.inouts hidden.index
  { direction := hidden.direction
    position := hidden.index
    signal
    source := s!"{hidden.path} bit {hidden.bit}"
    bit := boardBit board hidden.path hidden.bit }

def Component.outerBits (pin : Component) (board : Option Board) (port : String) :
    List OuterBit :=
  (List.range pin.pinWidth).map fun position : Nat =>
    { direction := pin.pinDirection
      position
      signal := .bitOf (wrapperWire port) pin.pinWidth position
      source :=
        if pin.pinWidth > 1 then s!"{pin.pathName} bit {position}" else pin.pathName
      bit := boardBit board pin.pathName position }

def pinStem : Direction → String
  | .input => "FPGA_INPUT_PIN_"
  | .output => "FPGA_OUTPUT_PIN_"
  | .bidirectional => "FPGA_INOUT_PIN_"

/-- How the bits so far are placed. -/
structure Placements where
  ports : List PlacedPort := []
  inputs : List Assignment := []
  outputs : List Assignment := []
  inouts : List String := []

namespace Placements

/-- No port yet, and room for a number of ports that reach both ways. -/
def blank (inouts : Nat) : Placements :=
  { inouts := List.replicate inouts "" }

def nextPort (placements : Placements) (direction : Direction) : String :=
  s!"{pinStem direction}{(placements.ports.filter (·.direction = direction)).length}"

def addPort (placements : Placements) (outer : OuterBit) (pin : String) : Placements :=
  { placements with
    ports := placements.ports ++
      [⟨placements.nextPort outer.direction, pin, outer.direction, outer.source⟩] }

def inverted (bit : BoardBit) (expression : Expr) : Expr :=
  if bit.inverted then .complement expression else expression

def drive (circuit : String) (placements : Placements) (outer : OuterBit) :
    Reporting Placements := do
  let driven (placements : Placements) (source : Expr) : Placements :=
    { placements with inputs := placements.inputs ++ [⟨outer.signal, source⟩] }
  match outer.bit.placement with
  | .pin pin =>
    let port := placements.nextPort .input
    return driven (placements.addPort outer pin) (inverted outer.bit (.signal port))
  | .constant value => return driven placements (.bit (value != outer.bit.inverted))
  | .unused => return driven placements (.bit false)
  | .unmapped =>
    Reporting.report ⟨.warning, circuit, wrapperModule,
      "input " ++ outer.source ++ " is not mapped to the board, tied to 0"⟩
    return driven placements (.bit false)

def sample (circuit : String) (placements : Placements) (outer : OuterBit) :
    Reporting Placements := do
  match outer.bit.placement with
  | .pin pin =>
    let port := placements.nextPort .output
    let placements := placements.addPort outer pin
    return { placements with
      outputs := placements.outputs ++ [⟨.signal port, inverted outer.bit outer.signal⟩] }
  | .constant _ =>
    throw (.fatal "" wrapperModule ("output " ++ outer.source ++ " cannot be mapped to a constant"))
  | .unused => return placements
  | .unmapped =>
    Reporting.report ⟨.warning, circuit, wrapperModule,
      "output " ++ outer.source ++ " is not mapped to the board, left open"⟩
    return placements

def join (placements : Placements) (outer : OuterBit) : Reporting Placements :=
  match outer.bit.placement, outer.bit.inverted with
  | .pin pin, false =>
    let port := placements.nextPort .bidirectional
    let placements := placements.addPort outer pin
    if 0 ≤ outer.position ∧ outer.position < placements.inouts.length then
      pure { placements with inouts := placements.inouts.set outer.position.toNat port }
    else throw (.abort .index)
  | _, _ =>
    throw (.fatal "" wrapperModule
      ("inout " ++ outer.source ++ " must be mapped to a non-inverted board pin"))

def place (circuit : String) (placements : Placements) (outer : OuterBit) :
    Reporting Placements :=
  match outer.direction with
  | .input => placements.drive circuit outer
  | .output => placements.sample circuit outer
  | .bidirectional => placements.join outer

def inoutAssociations (placements : Placements) (dialect : Dialect) : List Association :=
  let ports := placements.inouts
  if ports.isEmpty then []
  else
    match dialect with
    | .vhdl =>
      ports.mapIdx fun position port =>
        ⟨.bitOf hiddenInout ports.length position, some (.signal port)⟩
    | .verilog => [.bound hiddenInout (.concat (ports.reverse.map .signal))]

def entries (placements : Placements) : List PortEntry :=
  placements.ports.map fun placed => ⟨placed.direction, placed.port, .bits 1⟩

end Placements

structure Wrapper where
  unit : DesignUnit
  ports : List PlacedPort

namespace Design

def tickSettings (design : Design) (period : Int) : Clock.TickSettings :=
  let control := design.topCircuit?.bind (design.dynamicClock? period)
  ⟨.ofPeriod period, period, ((control.map Component.width).getD 0 : Nat)⟩

def valueAssociations (values : List (String × Int)) : List Association :=
  values.map fun (name, value) => .bound name (.number value)

def tickControl? (design : Design) (period : Int) (tick : Clock.TickSettings) (top : Circuit) :
    Option Component :=
  if tick.mode = .dynamic then design.dynamicClock? period top else none

def tickInstance (tick : Clock.TickSettings) (control : Option Component) : Instance where
  label := "TICK_GENERATOR"
  target := Clock.tickModule
  generics := valueAssociations tick.values
  ports :=
    [.bound Clock.tickClockPort (.signal globalClockPort),
      .bound Clock.tickOutPort (.signal (wrapperWire tickSignal))] ++
    if control.isSome then
      [.bound Clock.tickReloadPort (.signal (wrapperWire dynamicClockPort))]
    else []

def sourceInstance (tree : ClockTree) : Instance where
  label := s!"CLOCK_SOURCE_{tree.id}"
  target := Clock.sourceModule
  generics := valueAssociations
    (⟨tree.highTicks, tree.lowTicks, tree.phase⟩ : Clock.ClockSource).values
  ports :=
    [.bound Clock.sourceClockPort (.signal globalClockPort),
      .bound Clock.sourceTickPort (.signal (wrapperWire tickSignal)),
      .bound Clock.sourceBusPort (.signal (wrapperWire (clockTreePort tree.id)))]

def clockSection (design : Design) (tick : Clock.TickSettings) (control : Option Component) :
    BodySection :=
  let trees := design.treesInOrder
  ⟨"Clock generation",
    if trees.isEmpty then []
    else .instantiate (tickInstance tick control) ::
      trees.flatMap fun tree => [.gap, .instantiate (sourceInstance tree)]⟩

def outerBits (design : Design) (layouts : Layouts) (board : Option Board)
    (pins : List (Component × String)) (total : HiddenCount) : List OuterBit :=
  (design.hiddenBits layouts).map (HiddenBit.outer board total) ++
    pins.flatMap fun (pin, port) => pin.outerBits board port

def fixedWires (design : Design) (control : Option Component) (total : HiddenCount) :
    List (String × Nat) :=
  let trees := design.treeIds
  let reload := match control with
    | some control => if trees.isEmpty then [] else [(dynamicClockPort, control.width)]
    | none => []
  reload ++ trees.map (fun tree => (clockTreePort tree, Clock.busWidth)) ++
    (if 0 < total.inputs then [(hiddenInput, total.inputs.toNat)] else []) ++
    if 0 < total.outputs then [(hiddenOutput, total.outputs.toNat)] else []

def wireAssociation (wire : String × Nat) : Association :=
  .bound wire.1 (.signal (wrapperWire wire.1))

def wrapperEntries (design : Design) (placements : Placements) : List PortEntry :=
  (if design.clockTrees.isEmpty then [] else [⟨.input, globalClockPort, .bits 1⟩]) ++
    placements.entries

/-- The ports of the design that have wires of their own in the module around it. -/
def wiredPorts (design : Design) (names : Names) (layouts : Layouts) (period : Int)
    (tick : Clock.TickSettings) (top : Circuit) : List (String × Nat) :=
  (if design.clockTrees.isEmpty then [] else [(tickSignal, 1)]) ++
    (design.fixedWires (design.tickControl? period tick top) (layouts.ofCircuit top.name).total ++
      (top.componentsOf .pin).map fun pin =>
        ((names.port? top.name pin.pathName).getD "", pin.pinWidth))

def wrapperInterface (design : Design) (names : Names) (layouts : Layouts) (period : Int)
    (tick : Clock.TickSettings) (top : Circuit) (placements : Placements) : Interface :=
  (({} : Interface).addPorts (design.wrapperEntries placements)).addWires
    ((design.wiredPorts names layouts period tick top).map fun port =>
      (wrapperWire port.1, .bits port.2))

/-- The modules that the module around a design declares as components. -/
def wrapperDeclarations (design : Design) (tick : Clock.TickSettings) (module : String)
    (inner : Interface) : List (String × Interface) :=
  (if design.clockTrees.isEmpty then []
    else [(Clock.tickModule, tick.interface),
      (Clock.sourceModule, Clock.ClockSource.interface (tick.mode = .raw))]) ++ [(module, inner)]

end Design

/-- What the module around a design is written from. -/
structure Outline where
  top : Circuit
  module : String
  inner : Interface
  inouts : Nat
  placements : Placements

namespace Design

def plannedPins (names : Names) (top : Circuit) : List (Component × String) :=
  (top.componentsOf .pin).map fun pin => (pin, (names.port? top.name pin.pathName).getD "")

def outline (design : Design) (period : Int) (names : Names) (layouts : Layouts)
    (board : Option Board) : Reporting Outline := do
  let some top := design.topCircuit?
    | throw (.fatal "" wrapperModule "design has no top circuit")
  let some module := names.circuit? top.name
    | throw (.fatal "" wrapperModule
        ("top circuit " ++ top.name ++ " has no planned module name"))
  let inner ← match top.ports design period names layouts with
    | .ok inner => pure inner
    | .error failure => throw (failure.asFatal wrapperModule)
  let total := (layouts.ofCircuit top.name).total
  let inouts ← match storable 16 total.inouts with
    | .ok count => pure count
    | .error reason => throw (.abort reason)
  let placements ← (design.outerBits layouts board (plannedPins names top) total).foldlM
    (Placements.place top.name) (.blank inouts)
  return ⟨top, module, inner, inouts, placements⟩

end Design

namespace Outline

def interface (outline : Outline) (design : Design) (settings : Settings) (names : Names)
    (layouts : Layouts) (tick : Clock.TickSettings) : Interface :=
  design.wrapperInterface names layouts settings.period tick outline.top outline.placements

def use (outline : Outline) (design : Design) (settings : Settings) (names : Names)
    (layouts : Layouts) (tick : Clock.TickSettings) : Instance where
  label := "CircuitUnderTest"
  target := outline.module
  ports :=
    (design.fixedWires (design.tickControl? settings.period tick outline.top)
      (layouts.ofCircuit outline.top.name).total).map Design.wireAssociation ++
    outline.placements.inoutAssociations settings.dialect ++
    ((outline.top.componentsOf .pin).map fun pin =>
      ((names.port? outline.top.name pin.pathName).getD "", pin.pinWidth)).map
        Design.wireAssociation

def sections (outline : Outline) (design : Design) (settings : Settings) (names : Names)
    (layouts : Layouts) (tick : Clock.TickSettings) : List BodySection :=
  [design.clockSection tick (design.tickControl? settings.period tick outline.top),
    ⟨"Input mappings", outline.placements.inputs.map .assign⟩,
    ⟨"Output mappings", outline.placements.outputs.map .assign⟩,
    ⟨"Circuit under test", [.instantiate (outline.use design settings names layouts tick)]⟩]

def wrapper (outline : Outline) (design : Design) (settings : Settings) (names : Names)
    (layouts : Layouts) (tick : Clock.TickSettings) (board : Option Board) : Wrapper where
  unit :=
    { DesignUnit.write settings.dialect wrapperModule "toplevel"
        (outline.interface design settings names layouts tick)
        ((design.wrapperDeclarations tick outline.module outline.inner).map fun declaration =>
          componentLines declaration.1 declaration.2)
        (BodySection.spell settings.dialect (outline.sections design settings names layouts tick))
        ["Kind      : FPGA top level", "Circuit   : " ++ outline.top.name] with
      attachments := match board with
        | some board =>
          [⟨settings.vendor.constraintFile,
            board.constraints settings.vendor outline.placements.ports⟩]
        | none => [] }
  ports := outline.placements.ports

end Outline

/-- The module around a design, written from its outline. -/
def Design.wrapper (design : Design) (settings : Settings) (names : Names) (layouts : Layouts)
    (tick : Clock.TickSettings) (board : Option Board) : Reporting Wrapper := do
  let outline ← design.outline settings.period names layouts board
  return outline.wrapper design settings names layouts tick board

end Schematic
