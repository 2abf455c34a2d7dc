import Schematic.Hdl.Expr
import Schematic.Table

/-! # Interfaces

What a module declares besides its behaviour: generics, ports, inner signals and memories. -/

namespace Schematic.Hdl

/-- A number of bits, or the generic parameter with this number. -/
inductive Width where
  | bits (count : Nat)
  | generic (number : Nat)
  deriving DecidableEq, Repr

/-- A generic parameter, or a width computed from the other parameters. -/
structure Generic where
  name : String
  derived : Bool
  deriving DecidableEq, Repr

/-- An array type of words. -/
structure MemoryType where
  name : String
  depth : Int
  width : Int
  deriving DecidableEq, Repr

/-- How a memory gets its first contents. -/
inductive Preload where
  | none
  | byAttribute
  | fromFile
  deriving DecidableEq, Repr

structure Memory where
  type : String
  contents : String
  preload : Preload
  deriving DecidableEq, Repr

inductive Direction where
  | input
  | output
  | bidirectional
  deriving DecidableEq, Repr

def Direction.name : Direction → String
  | .input => "in"
  | .output => "out"
  | .bidirectional => "inout"

abbrev Signals := Table String Width

structure Interface where
  generics : Table Nat Generic := []
  inputs : Signals := []
  outputs : Signals := []
  inouts : Signals := []
  wires : Signals := []
  registers : Signals := []
  types : Table String MemoryType := []
  memories : Table String Memory := []
  initial : Table String String := []

/-- A port that is to be declared. -/
structure PortEntry where
  direction : Direction
  name : String
  width : Width
  deriving DecidableEq, Repr

namespace Interface

def addGeneric (interface : Interface) (number : Nat) (name : String) : Interface :=
  { interface with generics := interface.generics.insert number ⟨name, false⟩ }

def addDerived (interface : Interface) (number : Nat) (text : String) : Interface :=
  { interface with generics := interface.generics.insert number ⟨text, true⟩ }

def addInput (interface : Interface) (name : String) (width : Width) : Interface :=
  { interface with inputs := interface.inputs.insert name width }

def addOutput (interface : Interface) (name : String) (width : Width) : Interface :=
  { interface with outputs := interface.outputs.insert name width }

def addInout (interface : Interface) (name : String) (width : Width) : Interface :=
  { interface with inouts := interface.inouts.insert name width }

def addPort (interface : Interface) (entry : PortEntry) : Interface :=
  match entry.direction with
  | .input => interface.addInput entry.name entry.width
  | .output => interface.addOutput entry.name entry.width
  | .bidirectional => interface.addInout entry.name entry.width

def addPorts (interface : Interface) (entries : List PortEntry) : Interface :=
  entries.foldl addPort interface

def addWire (interface : Interface) (name : String) (width : Width) : Interface :=
  { interface with wires := interface.wires.insert name width }

def addWires (interface : Interface) (entries : List (String × Width)) : Interface :=
  { interface with wires := interface.wires.insertAll entries }

def addRegister (interface : Interface) (name : String) (width : Width) : Interface :=
  { interface with registers := interface.registers.insert name width }

def addType (interface : Interface) (type : MemoryType) : Interface :=
  { interface with types := interface.types.insert type.name type }

def addMemory (interface : Interface) (name : String) (memory : Memory) : Interface :=
  { interface with memories := interface.memories.insert name memory }

def setInitial (interface : Interface) (name value : String) : Interface :=
  { interface with initial := interface.initial.insert name value }

def parameters (interface : Interface) : List (Nat × Generic) :=
  interface.generics.filter fun entry => !entry.2.derived

def portNames (interface : Interface) : List String :=
  interface.inputs.keys ++ interface.inouts.keys ++ interface.outputs.keys

def port? (interface : Interface) (name : String) : Option (Direction × Width) :=
  match interface.inputs.find? name with
  | some width => some (.input, width)
  | none =>
    match interface.outputs.find? name with
    | some width => some (.output, width)
    | none => (interface.inouts.find? name).map fun width => (.bidirectional, width)

def portWidth? (interface : Interface) (name : String) (values : Table Nat Int) : Option Int :=
  match interface.port? name with
  | some (_, .bits count) => some count
  | some (_, .generic number) => values.find? number
  | none => none

def genericText (interface : Interface) (number : Nat) : String :=
  match interface.generics.find? number with
  | some generic => if generic.derived then "(" ++ generic.name ++ ")" else generic.name
  | none => ""

def typeText (interface : Interface) (dialect : Dialect) : Width → String
  | .bits count => dialect.fixedType count
  | .generic number => dialect.sizedType (interface.genericText number)

end Interface

def Width.ofNumber (signal : String) (number : Int) : Except Abort Width :=
  match number with
  | .ofNat 0 => .error (.zeroWidth signal)
  | .ofNat count => .ok (.bits count)
  | .negSucc below => .ok (.generic (below + 1))

def genericNumber (number : Int) : Except Abort Nat :=
  match number with
  | .ofNat count => .error (.genericNumber count)
  | .negSucc below => .ok (below + 1)

def Generic.marked (text : String) : Generic :=
  if Text.startsWith text "=" then ⟨Text.withoutStart "=" text, true⟩ else ⟨text, false⟩

end Schematic.Hdl
