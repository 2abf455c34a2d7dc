import Schematic.Component.Unit
import Schematic.Naming.Registry

/-! # Layouts and ports

A circuit passes the hidden bits of its components on through hidden ports of its own, one component
after the other. -/

namespace Schematic

/-- The part of the hidden ports of a circuit that belongs to one component. -/
structure Share where
  offset : HiddenCount
  size : HiddenCount
  deriving DecidableEq, Repr

/-- The hidden ports of a circuit: their sizes, and the shares of its components. -/
structure Layout where
  total : HiddenCount := .none
  shares : List (Int × Share) := []
  deriving DecidableEq, Repr

abbrev Layouts := List (String × Layout)

namespace Layout

def share? (layout : Layout) (component : Int) : Option Share :=
  layout.shares.lookup component

def add (layout : Layout) (component : Int) (size : HiddenCount) : Layout :=
  if size.isNone then layout
  else
    ⟨layout.total.add size, layout.shares ++ [(component, ⟨layout.total, size⟩)]⟩

end Layout

namespace Layouts

def ofCircuit (layouts : Layouts) (circuit : String) : Layout :=
  (layouts.lookup circuit).getD {}

end Layouts

namespace Design

def layoutFrom (design : Design) : (depth : Nat) → Layouts → Circuit → Layouts
  | 0, layouts, _ => layouts
  | depth + 1, layouts, circuit =>
    if (layouts.lookup circuit.name).isSome then layouts
    else if circuit.blackBox.isSome then (circuit.name, {}) :: layouts
    else
      let (layouts, layout) := circuit.components.foldl
        (fun (layouts, layout) component =>
          if component.kind = .subcircuit then
            match design.circuit? component.circuit with
            | some inner =>
              let layouts := layoutFrom design depth layouts inner
              (layouts, layout.add component.id (layouts.ofCircuit inner.name).total)
            | none => (layouts, layout)
          else (layouts, layout.add component.id component.hidden))
        (layouts, ({} : Layout))
      (circuit.name, layout) :: layouts

def layouts (design : Design) : Layouts :=
  match design.topCircuit? with
  | some top => design.layoutFrom (design.circuits.length + 1) [] top
  | none => []

end Design

/-- One bit of a hidden port of the circuit at the root. -/
structure HiddenBit where
  direction : Hdl.Direction
  index : Int
  path : String
  bit : Nat
  kind : Kind
  deriving DecidableEq, Repr

def Component.hiddenBits (component : Component) (path : String) (place size : HiddenCount) :
    List HiddenBit :=
  let bits (direction : Hdl.Direction) (start count : Int) : List HiddenBit :=
    (List.range count.toNat).map fun bit : Nat =>
      ⟨direction, Word.wrap (start + bit), path, bit, component.kind⟩
  bits .input place.inputs size.inputs ++ bits .output place.outputs size.outputs ++
    bits .bidirectional place.inouts size.inouts

namespace Design

def hiddenBitsFrom (design : Design) (layouts : Layouts) :
    (depth : Nat) → Circuit → (path : String) → (place : HiddenCount) → List HiddenBit
  | 0, _, _, _ => []
  | depth + 1, circuit, path, place =>
    circuit.components.flatMap fun component =>
      match (layouts.ofCircuit circuit.name).share? component.id with
      | none => []
      | some share =>
        let place := place.add share.offset
        let path := joinPath path component.pathName
        if component.kind = .subcircuit then
          match design.circuit? component.circuit with
          | some inner => hiddenBitsFrom design layouts depth inner path place
          | none => []
        else component.hiddenBits path place share.size

def hiddenBits (design : Design) (layouts : Layouts) : List HiddenBit :=
  match design.topCircuit? with
  | some top => design.hiddenBitsFrom layouts (design.circuits.length + 1) top "" .none
  | none => []

end Design

open Hdl

def wrapperModule : String := "FPGAToplevel"

def dynamicClockPort : String := "LOGISIM_DYNAMIC_CLOCK_OUT"

def tickSignal : String := "FPGA_Tick"

def clockTreePort (tree : Int) : String := s!"LOGISIM_CLOCK_TREE_{tree}"

def circuitCategory : String := "circuit"

namespace Component

def isOutputPin (pin : Component) : Bool :=
  pin.attributes.truth "output" false

def pinWidth (pin : Component) : Nat :=
  match pin.ends with
  | first :: _ => if 0 < first.width then first.width else pin.width
  | [] => pin.width

def pinDirection (pin : Component) : Direction :=
  if pin.isOutputPin then .output else .input

end Component

def Design.dynamicClock? (design : Design) (period : Int) (circuit : Circuit) :
    Option Component :=
  if circuit.name = design.top && period < 0 then
    (circuit.componentsOf .dynamicClock).head?
  else none

namespace Circuit

def fixedEntries (design : Design) (period : Int) (layouts : Layouts) (circuit : Circuit) :
    List PortEntry :=
  design.treeIds.map (fun tree => ⟨.input, clockTreePort tree, .bits Clock.busWidth⟩) ++
    (design.dynamicClock? period circuit).toList.map
      (fun control => ⟨.output, dynamicClockPort, .bits control.width⟩) ++
    (layouts.ofCircuit circuit.name).total.entries

def pinEntry (names : Names) (circuit : Circuit) (pin : Component) : PortEntry :=
  ⟨pin.pinDirection, (names.port? circuit.name pin.pathName).getD "", .bits pin.pinWidth⟩

def portEntries (design : Design) (period : Int) (names : Names) (layouts : Layouts)
    (circuit : Circuit) : List PortEntry :=
  circuit.fixedEntries design period layouts ++
    (circuit.componentsOf .pin).map (circuit.pinEntry names)

/-- A pin must have a planned port. -/
def checkPin (names : Names) (circuit : Circuit) (pin : Component) : Except Failure Unit :=
  match names.port? circuit.name pin.pathName with
  | none =>
    .error (.error (pin.reference ++ " of circuit " ++ circuit.name ++ " has no planned port"))
  | some _ => .ok ()

def ports (design : Design) (period : Int) (names : Names) (layouts : Layouts)
    (circuit : Circuit) : Except Failure Interface := do
  checkAll (circuit.checkPin names) (circuit.componentsOf .pin)
  return ({} : Interface).addPorts (circuit.portEntries design period names layouts)

end Circuit

end Schematic
