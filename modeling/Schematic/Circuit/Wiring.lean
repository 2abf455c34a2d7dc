import Schematic.Circuit.Layout
import Schematic.Circuit.Run
import Schematic.Component.Binding
import Schematic.Report

/-! # Wiring

The assignments and instances that connect the nets, pins and components of a circuit. -/

namespace Schematic

open Hdl

/-- What the wiring of a circuit consults. -/
structure WiringContext where
  design : Design
  circuit : Circuit
  module : String
  period : Int
  names : Names
  layouts : Layouts

def Reporting.concat {α β : Type} (step : α → Reporting (List β)) : List α → Reporting (List β)
  | [] => pure []
  | item :: rest => do
    let first ← step item
    let others ← concat step rest
    return first ++ others

namespace Circuit

def rangeOf (circuit : Circuit) (range : NetRange) : Expr :=
  match circuit.net? range.net with
  | some net => .bitsOf net.signal net.width range.high range.low
  | none => .slice "" range.high range.low

end Circuit

def Run.bitsOf (run : Run) (name : String) (width : Nat) : Expr :=
  .bitsOf name width run.high run.low

/-- Why a port cannot be connected. -/
inductive PortFault where
  | unconnected (port : String)
  | partly (port : String) (run : Run)
  | splitInout (port : String)
  deriving DecidableEq, Repr

def PortFault.message : PortFault → String
  | .unconnected port => "required input " ++ port ++ " is not connected"
  | .partly port run => "required input " ++ port ++ " is not connected at " ++ run.bits
  | .splitInout port => "inout " ++ port ++ " must connect to a single net range"

/-- How a port of an instance is connected. -/
structure PortMapping where
  actual : Option Expr
  wire : Option (String × Nat) := none
  assignments : List Assignment := []
  deriving Repr

/-- What a port of an instance asks for. -/
structure PortNeed where
  label : String
  port : String
  direction : Direction
  idle : Bool := false
  required : Bool := false

namespace PortNeed

def wire (need : PortNeed) : String :=
  "s_" ++ need.label ++ "_" ++ need.port

def connectRun (need : PortNeed) (circuit : Circuit) (width : Nat) (run : Run) :
    Option Assignment :=
  let bits := run.bitsOf need.wire width
  match need.direction, run.source with
  | .input, none => some ⟨bits, .fill need.idle run.width⟩
  | .input, some range => some ⟨bits, circuit.rangeOf range⟩
  | _, some range => some ⟨circuit.rangeOf range, bits⟩
  | _, none => none

def throughWire (need : PortNeed) (circuit : Circuit) (width : Nat) (runs : List Run) :
    PortMapping where
  actual := some (.signal need.wire)
  wire := some (need.wire, width)
  assignments := runs.filterMap (need.connectRun circuit width)

def splitFault? (need : PortNeed) (runs : List Run) : Option PortFault :=
  if need.direction = .bidirectional then some (.splitInout need.port)
  else if need.required && need.direction = .input then
    (runs.find? (·.isGap)).map (.partly need.port)
  else none

def connect (need : PortNeed) (circuit : Circuit) (points : List Point) :
    Except PortFault PortMapping :=
  match runs points with
  | [⟨_, _, some range⟩] => .ok { actual := some (circuit.rangeOf range) }
  | first :: second :: rest =>
    match need.splitFault? (first :: second :: rest) with
    | some fault => .error fault
    | none => .ok (need.throughWire circuit points.length (first :: second :: rest))
  | _ =>
    if need.direction ≠ .input then .ok { actual := none }
    else if need.required then .error (.unconnected need.port)
    else .ok { actual := some (.fill need.idle points.length) }

end PortNeed

/-- Part of a body, with the wires and the used modules that it needs declared. -/
structure Fragment where
  assignments : List Assignment := []
  wires : List (String × Nat) := []
  use : Instance
  interface : Interface

namespace WiringContext

def warn (context : WiringContext) (text : String) : Reporting Unit :=
  Reporting.report ⟨.warning, context.circuit.name, context.module, text⟩

def severe (context : WiringContext) (text : String) : Reporting Unit :=
  Reporting.report ⟨.severe, context.circuit.name, context.module, text⟩

def floating (width : Nat) : Reporting (List Point) :=
  match Schematic.floating width with
  | .ok points => pure points
  | .error reason => throw (.abort reason)

def clockRun (context : WiringContext) (component : Component) (run : Run) :
    Reporting (List Assignment) := do
  let some range := run.source | return []
  let target := context.circuit.rangeOf range
  match (context.circuit.net? range.net).bind (·.clockTree) with
  | some tree =>
    return [⟨target, .index (clockTreePort tree) Clock.BusSignal.derivedClock.position⟩]
  | none =>
    context.severe
      (component.reference ++ s!" drives net {range.net} outside any clock tree, net tied to 0")
    return [⟨target, .fill false run.width⟩]

def clockSources (context : WiringContext) : Reporting (List Assignment) :=
  Reporting.concat
    (fun component =>
      match component.ends with
      | [] => pure []
      | first :: _ => Reporting.concat (context.clockRun component) (runs first.points))
    (context.circuit.componentsOf .clock)

def divisor (context : WiringContext) (control : Component) : Reporting (List Assignment) := do
  let width := control.width
  let loose ← floating width
  let points := match control.end? "Value" with
    | some e => if e.width = width then e.points else loose
    | none => loose
  return (runs points).map fun run =>
    ⟨run.bitsOf dynamicClockPort width,
      match run.source with
      | some range => context.circuit.rangeOf range
      | none => .fill false run.width⟩

def dynamicClock (context : WiringContext) : Reporting (List Assignment) :=
  let active := (context.design.dynamicClock? context.period context.circuit).map (·.id)
  Reporting.concat
    (fun control =>
      if active = some control.id then context.divisor control
      else do
        context.warn (control.reference ++
          " only sets the clock speed in the top circuit with a dynamic tick period, ignored")
        return [])
    (context.circuit.componentsOf .dynamicClock)

def constantValue (component : Component) : Nat :=
  Word.unsigned (component.attributes.int "value" 0)

def constants (context : WiringContext) : List Assignment :=
  (context.circuit.componentsOf .constant).flatMap fun component =>
    component.ends.flatMap fun e =>
      (runs e.points).filterMap fun run =>
        run.source.map fun range =>
          ⟨context.circuit.rangeOf range,
            .literal (constantValue component >>> run.low) run.width⟩

def pinRun (context : WiringContext) (pin : Component) (port : String) (run : Run) :
    Reporting (List Assignment) :=
  let bits := run.bitsOf port pin.pinWidth
  match run.source with
  | some range =>
    let net := context.circuit.rangeOf range
    pure [if pin.isOutputPin then ⟨bits, net⟩ else ⟨net, bits⟩]
  | none => do
    if pin.isOutputPin then
      context.warn ("output pin " ++ port ++ ": " ++ run.bits ++ " not driven")
    return []

def pins (context : WiringContext) : Reporting (List Assignment) :=
  Reporting.concat
    (fun pin => do
      let port := (context.names.port? context.circuit.name pin.pathName).getD ""
      let loose ← floating pin.pinWidth
      let points := match pin.ends with
        | first :: _ => first.points
        | [] => loose
      Reporting.concat (context.pinRun pin port) (runs points))
    (context.circuit.componentsOf .pin)

def driveNet (circuit : Circuit) (net : Net) (points : List Point) : List Assignment :=
  (runs points).filterMap fun run =>
    run.source.map fun range =>
      ⟨run.bitsOf net.signal net.width.toNat, circuit.rangeOf range⟩

def fedBits (net : Net) : List (Point × Nat) :=
  net.sinks.zipIdx.flatMap fun (sinks, bit) =>
    (sinks.filter fun point => point.isConnected && point.net ≠ net.id).map fun point =>
      (point, bit)

def feedsOf (net : Net) (fed : List (Point × Nat)) (target : Int) (width : Nat) : List Point :=
  (List.range width).map fun position : Nat =>
    match fed.find? fun (point, _) => point = ⟨target, position⟩ with
    | some (_, bit) => ⟨net.id, bit⟩
    | none => Point.unconnected

def feedNet (context : WiringContext) (net : Net) (fed : List (Point × Nat)) (target : Int) :
    Reporting (List Assignment) := do
  let some sink := context.circuit.net? target | return []
  let loose ← floating sink.width.toNat
  return driveNet context.circuit sink (feedsOf net fed target loose.length)

def forcedRoots (context : WiringContext) : Reporting (List Assignment) :=
  Reporting.concat
    (fun net => do
      let fed := fedBits net
      let targets := Table.keys (Table.ofList (fed.map fun (point, _) => (point.net, ())))
      let feeds ← Reporting.concat (context.feedNet net fed) targets
      return driveNet context.circuit net net.sources ++ feeds)
    (context.circuit.nets.filter (·.forcedRoot))

def labelOf (context : WiringContext) (component : Component) : Reporting String :=
  match context.names.instance? context.circuit.name component.id with
  | some label => pure label
  | none => throw (.error (component.reference ++ " has no planned instance label"))

def hiddenPorts (context : WiringContext) (component : Int) : List Association :=
  let layout := context.layouts.ofCircuit context.circuit.name
  match layout.share? component with
  | none => []
  | some share =>
    let part (port : String) (count start total : Int) : List Association :=
      if 0 < count then [.bound port (.bitsOf port total (Word.wrap (start + count - 1)) start)]
      else []
    part hiddenInput share.size.inputs share.offset.inputs layout.total.inputs ++
      part hiddenOutput share.size.outputs share.offset.outputs layout.total.outputs ++
      part hiddenInout share.size.inouts share.offset.inouts layout.total.inouts

def gatedBus (trigger : String) (clock : Expr) : Expr :=
  let edge := if trigger = "falling" then .complement clock else clock
  .concat [.complement edge, edge, .bit true, .bit true, .complement clock, clock]

/-- The wire of a clock bus that is made from a plain net. -/
def gatedWire (label : String) : String :=
  "s_" ++ label ++ "_" ++ clockBusPort

def clockBus (context : WiringContext) (component : Component) (label : String) (point : Point) :
    Reporting PortMapping := do
  if !point.isConnected then
    context.severe (component.reference ++ " has no clock connection, clock tied to 0")
    return { actual := some (.fill false Clock.busWidth) }
  let some net := context.circuit.net? point.net
    | return { actual := some (.fill false Clock.busWidth) }
  match net.clockTree with
  | some tree => return { actual := some (.signal (clockTreePort tree)) }
  | none =>
    context.severe (component.reference ++
      s!" is clocked by net {net.id} which is not driven by a clock component (gated clock)")
    let wire := gatedWire label
    let clock := Expr.bitsOf net.signal net.width point.bit point.bit
    return {
      actual := some (.signal wire)
      wire := some (wire, Clock.busWidth)
      assignments := [⟨.signal wire, gatedBus component.trigger clock⟩] }

def needOf (label : String) (port : PortBinding) : PortNeed :=
  { label, port := port.spec.name, direction := port.direction, idle := port.spec.idle,
    required := port.spec.required }

def leafPort (context : WiringContext) (component : Component) (label : String)
    (port : PortBinding) : Reporting PortMapping :=
  if port.spec.clock then
    match port.fed.points with
    | point :: _ => context.clockBus component label point
    | [] => throw (.abort .index)
  else
    match (needOf label port).connect context.circuit port.fed.points with
    | .ok mapping => pure mapping
    | .error fault =>
      throw (.fatal "" context.module (component.reference ++ ": " ++ fault.message))

def bindFailure (context : WiringContext) (label : String) (failure : Failure) : Failure :=
  match failure with
  | .abort reason => .abort reason
  | failure => .fatal "" context.module ("instance " ++ label ++ ": " ++ failure.message)

def leafFragment (context : WiringContext) (component : Component) (label : String)
    (binding : Binding) (mappings : List PortMapping) : Fragment where
  assignments := mappings.flatMap (·.assignments)
  wires := mappings.filterMap (·.wire)
  use := {
    label
    target := binding.module
    generics := binding.generics.map fun (name, value) => .bound name (.number value)
    ports := ((binding.ports.zip mappings).map fun (port, mapping) =>
      (⟨.signal port.spec.name, mapping.actual⟩ : Association)) ++
        context.hiddenPorts component.id }
  interface := binding.interface

def leaf (context : WiringContext) (component : Component) : Reporting Fragment := do
  let label ← context.labelOf component
  let circuit := context.circuit.name
  match component.bind circuit (context.names.module? circuit component.id) with
  | .error failure => throw (context.bindFailure label failure)
  | .ok binding =>
    let mappings ← binding.ports.mapM (context.leafPort component label)
    return context.leafFragment component label binding mappings

def pinNeed (context : WiringContext) (label : String) (inner : Circuit) (pin : Component) :
    PortNeed :=
  { label, port := (context.names.port? inner.name pin.pathName).getD "",
    direction := pin.pinDirection }

def pinPort (context : WiringContext) (component : Component) (label : String) (inner : Circuit)
    (pin : Component) : Reporting (String × PortMapping) := do
  let need := context.pinNeed label inner pin
  let width := pin.pinWidth
  let loose ← floating width
  let points ← match component.end? pin.pathName with
    | none => pure loose
    | some e =>
      if e.width = width then pure e.points
      else
        throw (.error (component.reference ++
          s!": end {e.name} has {e.width} bits but pin {need.port} of {inner.name} is " ++
          s!"{width} bits wide"))
  match need.connect context.circuit points with
  | .ok mapping => return (need.port, mapping)
  | .error fault => throw (.error (component.reference ++ ": " ++ fault.message))

def innerFragment (context : WiringContext) (component : Component) (label module : String)
    (interface : Interface) (mapped : List (String × PortMapping)) : Fragment where
  assignments := mapped.flatMap (·.2.assignments)
  wires := mapped.filterMap (·.2.wire)
  use := {
    label
    target := module
    ports := (context.design.treeIds.map fun tree =>
        Association.bound (clockTreePort tree) (.signal (clockTreePort tree))) ++
      context.hiddenPorts component.id ++
      mapped.map fun (port, mapping) => ⟨.signal port, mapping.actual⟩ }
  interface

def subcircuit (context : WiringContext) (component : Component) : Reporting Fragment := do
  let label ← context.labelOf component
  let some inner := context.design.circuit? component.circuit
    | throw (.abort .absentEntry)
  let some module := context.names.circuit? inner.name
    | throw (.error ("circuit " ++ inner.name ++ " has no planned module name"))
  let interface ←
    match inner.ports context.design context.period context.names context.layouts with
    | .ok interface => pure interface
    | .error failure => throw failure
  let pins := inner.componentsOf .pin
  let mapped ← pins.mapM (context.pinPort component label inner)
  let matched := pins.map (·.pathName)
  (component.ends.filter fun e => !matched.contains e.name).forM fun e =>
    context.warn (component.reference ++ ": end " ++ e.name ++ " matches no pin of circuit " ++
      inner.name)
  return context.innerFragment component label module interface mapped

def instances (context : WiringContext) : Reporting (List Fragment) :=
  Reporting.concat
    (fun component =>
      if component.kind = .subcircuit then do return [← context.subcircuit component]
      else if component.kind.isSpecial then pure []
      else do return [← context.leaf component])
    context.circuit.components

end WiringContext

namespace Fragment

def statements (fragment : Fragment) : List Statement :=
  fragment.assignments.map .assign ++ [.instantiate fragment.use]

def separated : List Fragment → List Statement
  | [] => []
  | [last] => last.statements
  | fragment :: rest => fragment.statements ++ .gap :: separated rest

def declarations (fragments : List Fragment) : List (String × Interface) :=
  fragments.foldl
    (fun declared fragment =>
      if declared.any (·.1 == fragment.use.target) then declared
      else declared ++ [(fragment.use.target, fragment.interface)])
    []

end Fragment

end Schematic
