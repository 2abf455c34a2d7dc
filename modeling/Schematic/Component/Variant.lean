import Schematic.Hdl.Interface
import Schematic.Naming.Template
import Schematic.Netlist.Design

/-! # Module variants

A variant holds exactly those properties of a component that the text of its module depends on.
Components of one variant can share one module. -/

namespace Schematic

inductive GateOperator where
  | and
  | or
  | xor
  | nand
  | nor
  | xnor
  deriving DecidableEq, Repr

structure ExternalPort where
  name : String
  direction : Hdl.Direction
  width : Nat
  deriving DecidableEq, Repr

inductive PortListError where
  | malformed (item : String)
  | width (port text : String)
  | direction (port text : String)
  deriving DecidableEq, Repr

def PortListError.message : PortListError → String
  | .malformed item => "port " ++ Text.quote item ++ " is not name:dir:width"
  | .width port text => "port " ++ port ++ " has invalid width " ++ Text.quote text
  | .direction port text => "port " ++ port ++ " has invalid direction " ++ Text.quote text

namespace ExternalPort

def direction? (text : String) : Option Hdl.Direction :=
  match Text.lower text with
  | "in" => some .input
  | "out" => some .output
  | "inout" => some .bidirectional
  | _ => none

def parse (item : String) : Except PortListError ExternalPort :=
  match Text.splitAt ':' (Text.trim item) with
  | [name, direction, width] =>
    match (Word.readDecimal? width.toList).filter (1 ≤ ·) with
    | none => .error (.width name width)
    | some bits =>
      match direction? direction with
      | none => .error (.direction name direction)
      | some direction => .ok ⟨name, direction, bits.toNat⟩
  | _ => .error (.malformed item)

def parseAll : List String → Except PortListError (List ExternalPort)
  | [] => .ok []
  | item :: rest =>
    match parse item with
    | .error e => .error e
    | .ok port => (parseAll rest).map (port :: ·)

def parseList (text : String) : Except PortListError (List ExternalPort) :=
  let trimmed := Text.trim text
  if trimmed = "" then .ok [] else parseAll (Text.splitAt ',' trimmed)

end ExternalPort

/-- What the text of a module depends on. A `bus` is wider than one bit, and its width is a
generic. -/
inductive Variant where
  | gate (operator : GateOperator) (inputs : Nat) (bus : Bool)
  | buffer (inverts bus : Bool)
  | mux (select : Nat) (bus : Bool)
  | adder (bus : Bool)
  | multiplier (bus : Bool)
  | register (bus : Bool) (trigger : Trigger)
  | rom (addressBits dataBits lanes : Nat)
  | ram (addressBits dataBits : Nat) (trigger : Trigger)
  | led
  | button
  | dipSwitch (width : Nat)
  | portIO (width : Nat)
  | external (ports : Except PortListError (List ExternalPort))

namespace Component

def isBus (component : Component) : Bool :=
  1 < component.width

def gateInputs (component : Component) : Nat :=
  component.attributes.positive "inputs" 2

def addressBits (component : Component) : Nat :=
  component.attributes.positive "addrBits" 1

def dataBits (component : Component) : Nat :=
  component.attributes.positive "dataBits" 1

def variant? (component : Component) : Option Variant :=
  let bus := component.isBus
  let trigger := Trigger.named component.trigger
  match component.kind with
  | .and => some (.gate .and component.gateInputs bus)
  | .or => some (.gate .or component.gateInputs bus)
  | .xor => some (.gate .xor component.gateInputs bus)
  | .nand => some (.gate .nand component.gateInputs bus)
  | .nor => some (.gate .nor component.gateInputs bus)
  | .xnor => some (.gate .xnor component.gateInputs bus)
  | .not => some (.buffer true bus)
  | .buffer => some (.buffer false bus)
  | .mux => some (.mux (component.attributes.positive "select" 1) bus)
  | .adder => some (.adder bus)
  | .multiplier => some (.multiplier bus)
  | .register => some (.register bus trigger)
  | .rom =>
    some (.rom component.addressBits component.dataBits (component.attributes.positive "lines" 1))
  | .ram => some (.ram component.addressBits component.dataBits trigger)
  | .led => some .led
  | .button => some .button
  | .dipSwitch => some (.dipSwitch component.width)
  | .portIO => some (.portIO component.width)
  | .hdl => some (.external (ExternalPort.parseList (component.attributes.text "ports" "")))
  | .constant => none
  | .pin => none
  | .clock => none
  | .dynamicClock => none
  | .subcircuit => none
  | .unknown _ => none

end Component

def GateOperator.name : GateOperator → String
  | .and => "AND"
  | .or => "OR"
  | .xor => "XOR"
  | .nand => "NAND"
  | .nor => "NOR"
  | .xnor => "XNOR"

namespace Variant

def category : Variant → String
  | .gate _ _ _ => "gates"
  | .buffer _ _ => "gates"
  | .mux _ _ => "plexers"
  | .adder _ => "arithmetic"
  | .multiplier _ => "arithmetic"
  | .register _ _ => "memory"
  | .rom _ _ _ => "memory"
  | .ram _ _ _ => "memory"
  | .led => "io"
  | .button => "io"
  | .dipSwitch _ => "io"
  | .portIO _ => "io"
  | .external _ => "custom"

def isLabelSpecific : Variant → Bool
  | .rom _ _ _ => true
  | .external _ => true
  | _ => false

def isClocked : Variant → Bool
  | .register _ _ => true
  | .ram _ _ _ => true
  | _ => false

def template : Variant → String
  | .gate operator inputs _ =>
    let name := operator.name ++ "_GATE"
    let name := if inputs ≠ 2 then s!"{name}_{inputs}_INPUTS" else name
    name ++ Naming.marked "BUS"
  | .buffer inverts _ => (if inverts then "INVERTER" else "BUFFER") ++ Naming.marked "BUS"
  | .mux select _ => "MULTIPLEXER_" ++ toString (Word.shiftOne select) ++ Naming.marked "BUS"
  | .adder _ => "ADDER" ++ Naming.marked "BUS"
  | .multiplier _ => "MULTIPLIER" ++ Naming.marked "BUS"
  | .register _ _ => "REGISTER" ++ Naming.marked "BUS" ++ "_" ++ Naming.marked "TRIGGER"
  | .rom _ _ _ => Naming.marked "CIRCUIT" ++ "_ROM_" ++ Naming.marked "LABEL"
  | .ram addressBits dataBits _ => s!"RAM_{addressBits}x{dataBits}_" ++ Naming.marked "TRIGGER"
  | .led => "LED"
  | .button => "BUTTON"
  | .dipSwitch _ => "DIPSWITCH_" ++ Naming.marked "WIDTH"
  | .portIO _ => "PORTIO_" ++ Naming.marked "WIDTH"
  | .external _ => Naming.marked "LABEL"

def busShape (bus : Bool) : String :=
  if bus then "bus=true" else "bus=false"

def shape : Variant → String
  | .gate _ inputs bus => busShape bus ++ s!",inputs={inputs}"
  | .buffer _ bus => busShape bus
  | .mux select bus => busShape bus ++ s!",select={select}"
  | .adder bus => busShape bus
  | .multiplier bus => busShape bus
  | .register bus trigger => busShape bus ++ ",trigger=" ++ trigger.token
  | .rom addressBits dataBits lanes => s!"addr={addressBits},data={dataBits},lines={lanes}"
  | .ram addressBits dataBits trigger =>
    s!"addr={addressBits},data={dataBits},trigger=" ++ trigger.token
  | .led => ""
  | .button => ""
  | .dipSwitch width => s!"width={width}"
  | .portIO width => s!"width={width}"
  | .external _ => ""

end Variant

end Schematic
