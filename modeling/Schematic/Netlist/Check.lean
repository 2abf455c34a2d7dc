import Schematic.Failure
import Schematic.Json.Reader
import Schematic.Netlist.Form

/-! # Checked designs

A draft becomes a design if every point lies on a net, every reference leads somewhere, all names
and numbers are unique, and no circuit contains itself. -/

namespace Schematic

inductive PointError where
  | unknownNet (net : Int)
  | bitOutOfRange (bit net width : Int)
  deriving DecidableEq, Repr

inductive CircuitError where
  | netWidth (net width : Int)
  | duplicateNet (net : Int)
  | sourceCount (net : Int) (count : Nat) (width : Int)
  | sinkCount (net : Int) (count : Nat) (width : Int)
  | source (net : Int) (error : PointError)
  | sink (net : Int) (error : PointError)
  | unknownKind (component : Int) (kind : String)
  | duplicateComponent (component : Int)
  | endPoint (component : String) (name : String) (error : PointError)
  | absentComponent
  deriving DecidableEq, Repr

inductive DesignError where
  | absentCircuit
  | unnamedCircuit
  | duplicateCircuit (name : String)
  | inCircuit (name : String) (error : CircuitError)
  | topNotFound (name : String)
  | duplicateTree (tree : Int)
  | treeTicks (tree : Int)
  | unknownTree (circuit : String) (net tree : Int)
  | unknownCircuit (circuit component target : String)
  | recursive (trail : List String)
  deriving DecidableEq, Repr

def PointError.message : PointError → String
  | .unknownNet net => s!"unknown net {net}"
  | .bitOutOfRange bit net width => s!"bit {bit} out of range for net {net} of width {width}"

def CircuitError.message : CircuitError → String
  | .netWidth net width => s!"net {net} has width {width}"
  | .duplicateNet net => s!"duplicate net {net}"
  | .sourceCount net count width => s!"net {net}: {count} sources for width {width}"
  | .sinkCount net count width => s!"net {net}: {count} sink lists for width {width}"
  | .source net error => s!"net {net} source: " ++ error.message
  | .sink net error => s!"net {net} sink: " ++ error.message
  | .unknownKind component kind => s!"component {component} has unknown kind " ++ Text.quote kind
  | .duplicateComponent component => s!"duplicate component id {component}"
  | .endPoint component name error => s!"{component} end {name}: " ++ error.message
  | .absentComponent => ""

def DesignError.failure : DesignError → Failure
  | .absentCircuit => .abort .absentEntry
  | .unnamedCircuit => .error "circuit without name"
  | .duplicateCircuit name => .error ("duplicate circuit " ++ Text.quote name)
  | .inCircuit _ .absentComponent => .abort .absentEntry
  | .inCircuit name error => .error (s!"circuit {name}: " ++ error.message)
  | .topNotFound name => .error ("top circuit " ++ Text.quote name ++ " not found")
  | .duplicateTree tree => .error s!"duplicate clock tree {tree}"
  | .treeTicks tree => .error s!"clock tree {tree}: high and low ticks must be positive"
  | .unknownTree circuit net tree =>
    .error s!"circuit {circuit}: net {net} references unknown clock tree {tree}"
  | .unknownCircuit circuit component target =>
    .error (s!"circuit {circuit}: {component} references unknown circuit " ++ Text.quote target)
  | .recursive trail => .error ("recursive hierarchy: " ++ Text.bracketed trail)

namespace Circuit

def checkPoint (nets : List Net) (point : Point) : Except PointError Unit :=
  if !point.isConnected then .ok ()
  else
    match nets.find? (·.id == point.net) with
    | none => .error (.unknownNet point.net)
    | some net =>
      if point.bit < 0 || net.width ≤ point.bit then
        .error (.bitOutOfRange point.bit point.net net.width)
      else .ok ()

def checkNets (earlier : List Net) : List Net → Except CircuitError Unit
  | [] => .ok ()
  | net :: rest =>
    if net.width < 1 then .error (.netWidth net.id net.width)
    else if earlier.any (·.id == net.id) then .error (.duplicateNet net.id)
    else checkNets (net :: earlier) rest

def checkRoot (nets : List Net) (net : Net) : Except CircuitError Unit :=
  if !net.forcedRoot then .ok ()
  else if !net.sources.isEmpty && (net.sources.length : Int) ≠ net.width then
    .error (.sourceCount net.id net.sources.length net.width)
  else if !net.sinks.isEmpty && (net.sinks.length : Int) ≠ net.width then
    .error (.sinkCount net.id net.sinks.length net.width)
  else
    match checkAll (checkPoint nets) net.sources with
    | .error e => .error (.source net.id e)
    | .ok () => (checkAll (checkPoint nets) net.sinks.flatten).mapError (.sink net.id)

def checkEnds (nets : List Net) (component : Component) : Except CircuitError Unit :=
  checkAll
    (fun e => (checkAll (checkPoint nets) e.points).mapError (.endPoint component.reference e.name))
    component.ends

def checkComponents (nets : List Net) (earlier : List Int) :
    List (Option Component) → Except CircuitError (List Component)
  | [] => .ok []
  | none :: _ => .error .absentComponent
  | some component :: rest => do
    if !component.kind.isKnown then throw (.unknownKind component.id component.kind.name)
    if earlier.contains component.id then throw (.duplicateComponent component.id)
    checkEnds nets component
    let components ← checkComponents nets (component.id :: earlier) rest
    return component :: components

end Circuit

def DraftCircuit.check (draft : DraftCircuit) : Except CircuitError Circuit := do
  Circuit.checkNets [] draft.nets
  checkAll (Circuit.checkRoot draft.nets) draft.nets
  let components ← Circuit.checkComponents draft.nets [] draft.components
  return ⟨draft.name, draft.nets, components, draft.blackBox⟩

namespace Design

def checkCircuits (earlier : List String) :
    List (Option DraftCircuit) → Except DesignError (List Circuit)
  | [] => .ok []
  | none :: _ => .error .absentCircuit
  | some draft :: rest => do
    if draft.name = "" then throw .unnamedCircuit
    if earlier.contains draft.name then throw (.duplicateCircuit draft.name)
    let circuit ← draft.check.mapError (.inCircuit draft.name)
    let circuits ← checkCircuits (draft.name :: earlier) rest
    return circuit :: circuits

def checkTrees (earlier : List Int) : List ClockTree → Except DesignError Unit
  | [] => .ok ()
  | tree :: rest =>
    if earlier.contains tree.id then .error (.duplicateTree tree.id)
    else if tree.highTicks < 1 || tree.lowTicks < 1 then .error (.treeTicks tree.id)
    else checkTrees (tree.id :: earlier) rest

def checkNetTree (design : Design) (circuit : Circuit) (net : Net) : Except DesignError Unit :=
  match net.clockTree with
  | none => .ok ()
  | some tree =>
    if (design.clockTree? tree).isSome then .ok ()
    else .error (.unknownTree circuit.name net.id tree)

def checkTarget (design : Design) (circuit : Circuit) (component : Component) :
    Except DesignError Unit :=
  if (design.circuit? component.circuit).isSome then .ok ()
  else .error (.unknownCircuit circuit.name component.reference component.circuit)

def checkReferences (design : Design) (circuit : Circuit) : Except DesignError Unit := do
  checkAll (design.checkNetTree circuit) circuit.nets
  checkAll (design.checkTarget circuit) (circuit.componentsOf .subcircuit)

def visitAcyclic (design : Design) :
    (depth : Nat) → (trail : List String) → (done : List String) → (name : String) →
      Except DesignError (List String)
  | 0, trail, _, name => .error (.recursive (trail ++ [name]))
  | depth + 1, trail, done, name =>
    if trail.contains name then .error (.recursive (trail ++ [name]))
    else if done.contains name then .ok done
    else
      match design.circuit? name with
      | none => .ok (name :: done)
      | some circuit =>
        ((circuit.componentsOf .subcircuit).foldlM
          (fun done component => visitAcyclic design depth (trail ++ [name]) done component.circuit)
          done).map (name :: ·)

def checkAcyclic (design : Design) : Except DesignError Unit :=
  (visitAcyclic design (design.circuits.length + 1) [] [] design.top).map fun _ => ()

end Design

def Draft.check (draft : Draft) : Except DesignError Design := do
  let circuits ← Design.checkCircuits [] draft.circuits
  let design : Design := ⟨draft.name, draft.top, circuits, draft.clockTrees⟩
  if design.topCircuit?.isNone then throw (.topNotFound draft.top)
  Design.checkTrees [] draft.clockTrees
  checkAll design.checkReferences circuits
  design.checkAcyclic
  return design

def Design.parse (text : String) : Except Failure Design :=
  match (Json.read? text).bind Draft.decode? with
  | none => .error .undecodable
  | some draft => draft.check.mapError DesignError.failure

end Schematic
