import Schematic.Clock.Tick
import Schematic.Component.Variant

/-! # Component ports

The generics and ports of the module of each variant. -/

namespace Schematic

/-- The numbers of hidden bits in each direction. -/
structure HiddenCount where
  inputs : Int
  outputs : Int
  inouts : Int
  deriving DecidableEq, Repr

def hiddenInput : String := "LOGISIM_HIDDEN_FPGA_INPUT"

def hiddenOutput : String := "LOGISIM_HIDDEN_FPGA_OUTPUT"

def hiddenInout : String := "LOGISIM_HIDDEN_FPGA_INOUT"

namespace HiddenCount

def none : HiddenCount := ⟨0, 0, 0⟩

def add (a b : HiddenCount) : HiddenCount :=
  ⟨Word.wrap (a.inputs + b.inputs), Word.wrap (a.outputs + b.outputs),
    Word.wrap (a.inouts + b.inouts)⟩

def isNone (count : HiddenCount) : Bool :=
  count.inputs == 0 && count.outputs == 0 && count.inouts == 0

def entries (count : HiddenCount) : List Hdl.PortEntry :=
  (if 0 < count.inputs then [⟨.input, hiddenInput, .bits count.inputs.toNat⟩] else []) ++
    (if 0 < count.outputs then [⟨.output, hiddenOutput, .bits count.outputs.toNat⟩] else []) ++
    if 0 < count.inouts then [⟨.bidirectional, hiddenInout, .bits count.inouts.toNat⟩] else []

end HiddenCount

/-- A port of a module that a component connects. -/
structure PortSpec where
  name : String
  terminal : String
  required : Bool := false
  idle : Bool := false
  clock : Bool := false
  deriving DecidableEq, Repr

def PortSpec.plain (name : String) : PortSpec :=
  { name, terminal := name }

def clockBusPort : String := "ClockBus"

def PortSpec.clockBus : PortSpec :=
  { name := clockBusPort, terminal := "Clock", clock := true }

namespace Variant

open Hdl

def gateInput (number : Nat) : String := s!"Input_{number}"

def gateInputNames (inputs : Nat) : List String :=
  (List.range inputs).map fun i => gateInput (i + 1)

def muxInput (number : Int) : String := s!"MuxIn_{number}"

def muxSize (select : Nat) : Int := Word.shiftOne select

def muxInputNames (select : Nat) : List String :=
  (List.range (muxSize select).toNat).map fun i : Nat => muxInput i

def dataPort (lanes lane : Nat) : String :=
  if lanes = 1 then "Data" else s!"Data_{lane}"

def dataPorts (lanes : Nat) : List String :=
  (List.range lanes).map (dataPort lanes)

def dataWidth (bus : Bool) : Width :=
  if bus then .generic 1 else .bits 1

def sized (bus : Bool) : Interface :=
  if bus then ({} : Interface).addGeneric 1 "NrOfBits" else {}

def sizedTwice (bus : Bool) (computed : String) : Interface :=
  if bus then (sized bus).addDerived 2 computed else {}

def computedWidth (bus : Bool) : Width :=
  if bus then .generic 2 else .bits 2

def hidden : Variant → HiddenCount
  | .led => ⟨0, 1, 0⟩
  | .button => ⟨1, 0, 0⟩
  | .dipSwitch width => ⟨width, 0, 0⟩
  | .portIO width => ⟨0, 0, width⟩
  | _ => .none

def externalPorts : Except PortListError (List ExternalPort) → List ExternalPort
  | .ok ports => ports
  | .error _ => []

def generics : Variant → Interface
  | .gate _ _ bus => sized bus
  | .buffer _ bus => sized bus
  | .mux _ bus => sized bus
  | .adder bus => sizedTwice bus "NrOfBits+1"
  | .multiplier bus => sizedTwice bus "2*NrOfBits"
  | .register bus _ => sized bus
  | _ => {}

def openEntries : Variant → List PortEntry
  | .gate _ inputs bus =>
    (gateInputNames inputs).map (⟨.input, ·, dataWidth bus⟩) ++
      [⟨.output, "Result", dataWidth bus⟩]
  | .buffer _ bus => [⟨.input, gateInput 1, dataWidth bus⟩, ⟨.output, "Result", dataWidth bus⟩]
  | .mux select bus =>
    (muxInputNames select).map (⟨.input, ·, dataWidth bus⟩) ++
      [⟨.input, "Sel", .bits select⟩, ⟨.input, "Enable", .bits 1⟩,
        ⟨.output, "MuxOut", dataWidth bus⟩]
  | .adder bus =>
    [⟨.input, "DataA", dataWidth bus⟩, ⟨.input, "DataB", dataWidth bus⟩,
      ⟨.input, "CarryIn", .bits 1⟩, ⟨.output, "Result", dataWidth bus⟩,
      ⟨.output, "CarryOut", .bits 1⟩]
  | .multiplier bus =>
    [⟨.input, "INP_A", dataWidth bus⟩, ⟨.input, "INP_B", dataWidth bus⟩,
      ⟨.output, "Mult", computedWidth bus⟩]
  | .register bus _ =>
    [⟨.input, "D", dataWidth bus⟩, ⟨.input, clockBusPort, .bits Clock.busWidth⟩,
      ⟨.input, "Enable", .bits 1⟩, ⟨.input, "Reset", .bits 1⟩, ⟨.output, "Q", dataWidth bus⟩]
  | .rom addressBits dataBits lanes =>
    ⟨.input, "Address", .bits addressBits⟩ ::
      (dataPorts lanes).map (⟨.output, ·, .bits dataBits⟩)
  | .ram addressBits dataBits _ =>
    [⟨.input, "Address", .bits addressBits⟩, ⟨.input, "DataIn", .bits dataBits⟩,
      ⟨.input, "WE", .bits 1⟩, ⟨.input, clockBusPort, .bits Clock.busWidth⟩,
      ⟨.output, "DataOut", .bits dataBits⟩]
  | .led => [⟨.input, "Input", .bits 1⟩]
  | .button => [⟨.output, "Output", .bits 1⟩]
  | .dipSwitch width => [⟨.output, "Output", .bits width⟩]
  | .portIO width =>
    [⟨.input, "DataIn", .bits width⟩, ⟨.input, "OutputEnable", .bits 1⟩,
      ⟨.output, "DataOut", .bits width⟩]
  | .external ports =>
    (externalPorts ports).map fun port => ⟨port.direction, port.name, .bits port.width⟩

def entries (variant : Variant) : List PortEntry :=
  variant.openEntries ++ variant.hidden.entries

def ports (variant : Variant) : Interface :=
  variant.generics.addPorts variant.entries

def specs : Variant → List PortSpec
  | .gate operator inputs _ =>
    let idle := operator = .and || operator = .nand
    (gateInputNames inputs).map (fun name => { PortSpec.plain name with idle }) ++
      [.plain "Result"]
  | .buffer _ _ => [.plain (gateInput 1), .plain "Result"]
  | .mux select _ =>
    (muxInputNames select).map .plain ++
      [.plain "Sel", { PortSpec.plain "Enable" with idle := true }, .plain "MuxOut"]
  | .adder _ => ["DataA", "DataB", "CarryIn", "Result", "CarryOut"].map .plain
  | .multiplier _ => ["INP_A", "INP_B", "Mult"].map .plain
  | .register _ _ =>
    [.plain "D", .clockBus, { PortSpec.plain "Enable" with idle := true }, .plain "Reset",
      .plain "Q"]
  | .rom _ _ lanes =>
    { PortSpec.plain "Address" with required := true } :: (dataPorts lanes).map .plain
  | .ram _ _ _ =>
    [{ PortSpec.plain "Address" with required := true }, .plain "DataIn", .plain "WE", .clockBus,
      .plain "DataOut"]
  | .led => [.plain "Input"]
  | .button => [.plain "Output"]
  | .dipSwitch _ => [.plain "Output"]
  | .portIO _ =>
    [.plain "DataIn", { PortSpec.plain "OutputEnable" with idle := true }, .plain "DataOut"]
  | .external ports => (externalPorts ports).map fun port => .plain port.name

def busValues (bus : Bool) (width : Nat) : Table Nat Int :=
  if bus then [(1, (width : Int))] else []

def values (width : Nat) : Variant → Table Nat Int
  | .gate _ _ bus => busValues bus width
  | .buffer _ bus => busValues bus width
  | .mux _ bus => busValues bus width
  | .adder bus => if bus then [(1, (width : Int)), (2, Word.wrap (width + 1))] else []
  | .multiplier bus => if bus then [(1, (width : Int)), (2, Word.wrap (2 * width))] else []
  | .register bus _ => busValues bus width
  | _ => []

end Variant

end Schematic
