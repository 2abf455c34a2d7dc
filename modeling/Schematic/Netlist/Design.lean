import Schematic.Netlist.Attributes

/-! # Elaborated designs

A design is a hierarchy of circuits. A circuit has nets of one or more bits and components whose
ends name, bit by bit, the net bits they are connected to. -/

namespace Schematic

inductive Kind where
  | and
  | or
  | xor
  | nand
  | nor
  | xnor
  | not
  | buffer
  | constant
  | mux
  | adder
  | multiplier
  | register
  | rom
  | ram
  | led
  | button
  | dipSwitch
  | portIO
  | hdl
  | pin
  | clock
  | dynamicClock
  | subcircuit
  | unknown (name : String)
  deriving DecidableEq, Repr

namespace Kind

def known : List Kind :=
  [.and, .or, .xor, .nand, .nor, .xnor, .not, .buffer, .constant, .mux, .adder, .multiplier,
    .register, .rom, .ram, .led, .button, .dipSwitch, .portIO, .hdl, .pin, .clock, .dynamicClock,
    .subcircuit]

def name : Kind → String
  | .and => "and"
  | .or => "or"
  | .xor => "xor"
  | .nand => "nand"
  | .nor => "nor"
  | .xnor => "xnor"
  | .not => "not"
  | .buffer => "buffer"
  | .constant => "constant"
  | .mux => "mux"
  | .adder => "adder"
  | .multiplier => "multiplier"
  | .register => "register"
  | .rom => "rom"
  | .ram => "ram"
  | .led => "led"
  | .button => "button"
  | .dipSwitch => "dipswitch"
  | .portIO => "portio"
  | .hdl => "hdl"
  | .pin => "pin"
  | .clock => "clock"
  | .dynamicClock => "dynclock"
  | .subcircuit => "subcircuit"
  | .unknown name => name

def named (name : String) : Kind :=
  (known.find? fun kind => kind.name == name).getD (.unknown name)

def isKnown : Kind → Bool
  | .unknown _ => false
  | _ => true

def isSpecial : Kind → Bool
  | .pin => true
  | .clock => true
  | .dynamicClock => true
  | .constant => true
  | .subcircuit => true
  | _ => false

end Kind

/-- One bit of one net. A negative net number stands for no connection. -/
structure Point where
  net : Int
  bit : Int
  deriving DecidableEq, Repr

namespace Point

def unconnected : Point := ⟨-1, 0⟩

def isConnected (point : Point) : Bool :=
  0 ≤ point.net

end Point

/-- A bundle of wires. If its driver is explicit, sources and sinks say what drives each bit and
what it drives. -/
structure Net where
  id : Int
  width : Int
  forcedRoot : Bool
  sources : List Point
  sinks : List (List Point)
  clockTree : Option Int
  deriving DecidableEq, Repr

namespace Net

def isBus (net : Net) : Bool :=
  1 < net.width

def signal (net : Net) : String :=
  (if net.isBus then "s_bus_" else "s_net_") ++ toString net.id

end Net

/-- A port of a component in its circuit: one point per bit, least significant first. -/
structure End where
  name : String
  output : Bool
  points : List Point
  deriving DecidableEq, Repr

namespace End

def width (e : End) : Nat :=
  e.points.length

def isConnected (e : End) : Bool :=
  e.points.any (·.isConnected)

end End

structure Component where
  id : Int
  kind : Kind
  attributes : Attributes
  ends : List End
  circuit : String
  deriving DecidableEq, Repr

namespace Component

def label (component : Component) : String :=
  component.attributes.text "label" ""

def end? (component : Component) (name : String) : Option End :=
  component.ends.find? (·.name == name)

def pathName (component : Component) : String :=
  if component.label ≠ "" then component.label
  else component.kind.name ++ toString component.id

def reference (component : Component) : String :=
  component.kind.name ++ "#" ++ toString component.id

def width (component : Component) : Nat :=
  component.attributes.positive "width" 1

def trigger (component : Component) : String :=
  component.attributes.text "trigger" "rising"

end Component

/-- A circuit that is written in a file of its own. -/
structure BlackBox where
  file : String
  language : String
  deriving DecidableEq, Repr

/-- One level of the hierarchy, with its own numbering of nets. -/
structure Circuit where
  name : String
  nets : List Net
  components : List Component
  blackBox : Option BlackBox
  deriving DecidableEq, Repr

namespace Circuit

def net? (circuit : Circuit) (id : Int) : Option Net :=
  circuit.nets.find? (·.id == id)

def componentsOf (circuit : Circuit) (kind : Kind) : List Component :=
  circuit.components.filter (·.kind = kind)

def has (circuit : Circuit) (kind : Kind) : Bool :=
  !(circuit.componentsOf kind).isEmpty

end Circuit

/-- A clock: high for some ticks, low for some, starting so many ticks late. -/
structure ClockTree where
  id : Int
  highTicks : Int
  lowTicks : Int
  phase : Int
  deriving DecidableEq, Repr

structure Design where
  name : String
  top : String
  circuits : List Circuit
  clockTrees : List ClockTree
  deriving DecidableEq, Repr

namespace Design

def circuit? (design : Design) (name : String) : Option Circuit :=
  design.circuits.find? (·.name == name)

def topCircuit? (design : Design) : Option Circuit :=
  design.circuit? design.top

def clockTree? (design : Design) (id : Int) : Option ClockTree :=
  design.clockTrees.find? (·.id == id)

def treesInOrder (design : Design) : List ClockTree :=
  design.clockTrees.mergeSort fun a b => a.id ≤ b.id

def treeIds (design : Design) : List Int :=
  design.treesInOrder.map (·.id)

def subcircuits (design : Design) (circuit : Circuit) : List Circuit :=
  (circuit.componentsOf .subcircuit).filterMap fun component => design.circuit? component.circuit

end Design

def joinPath (parent name : String) : String :=
  if parent = "" then name else parent ++ "/" ++ name

structure DraftCircuit where
  name : String := ""
  nets : List Net := []
  components : List (Option Component) := []
  blackBox : Option BlackBox := none

/-- A design as read. -/
structure Draft where
  name : String := ""
  top : String := ""
  circuits : List (Option DraftCircuit) := []
  clockTrees : List ClockTree := []

end Schematic
