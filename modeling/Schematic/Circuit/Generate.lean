import Schematic.Circuit.Plan
import Schematic.Circuit.Wiring

/-! # Modules of a hierarchy

The walk over a design that writes every module once: a circuit, its components, and then the
circuits below it. -/

namespace Schematic

open Hdl

def Circuit.wireEntries (circuit : Circuit) (fragments : List Fragment) : List (String × Width) :=
  circuit.nets.map (fun net => (net.signal, .bits net.width.toNat)) ++
    (fragments.flatMap (·.wires)).map fun wire => (wire.1, .bits wire.2)

namespace WiringContext

def bodySections (context : WiringContext) (clocks divisors pins roots : List Assignment)
    (fragments : List Fragment) : List BodySection :=
  [⟨"Clock sources", clocks.map .assign⟩,
    ⟨"Dynamic clock control", divisors.map .assign⟩,
    ⟨"Constants", context.constants.map .assign⟩,
    ⟨"Input and output pins", pins.map .assign⟩,
    ⟨"Explicit net connections", roots.map .assign⟩,
    ⟨"Components", Fragment.separated fragments⟩]

def sections (context : WiringContext) : Reporting (List BodySection × List Fragment) := do
  let clockSources ← context.clockSources
  let dynamicClock ← context.dynamicClock
  let pins ← context.pins
  let forcedRoots ← context.forcedRoots
  let fragments ← context.instances
  return (context.bodySections clockSources dynamicClock pins forcedRoots fragments, fragments)

def declared (context : WiringContext) (ports : Interface) (fragments : List Fragment) :
    Interface :=
  ports.addWires (context.circuit.wireEntries fragments)

def written (context : WiringContext) (dialect : Dialect) (ports : Interface)
    (sections : List BodySection) (fragments : List Fragment) : DesignUnit :=
  DesignUnit.write dialect context.module circuitCategory (context.declared ports fragments)
    ((Fragment.declarations fragments).map fun (name, interface) => componentLines name interface)
    (BodySection.spell dialect sections)
    ["Kind      : circuit", "Circuit   : " ++ context.circuit.name]

def unit (context : WiringContext) (dialect : Dialect) : Reporting DesignUnit := do
  let ports ← match context.circuit.ports context.design context.period context.names
      context.layouts with
    | .ok ports => pure ports
    | .error failure => throw (failure.asFatal context.module)
  let (sections, fragments) ← tryCatch context.sections fun failure =>
    throw (failure.asFatal context.module)
  if sections.all (·.statements.isEmpty) then
    throw (.fatal "" context.module "generated body is empty")
  return context.written dialect ports sections fragments

end WiringContext

def BlackBox.unit (box : BlackBox) (settings : Settings) (module : String) :
    Except Failure DesignUnit := do
  if box.language ≠ "" then
    match Dialect.named box.language with
    | .error unknown => throw (.fatal "" module unknown.message)
    | .ok dialect =>
      if dialect ≠ settings.dialect then
        throw (.fatal "" module
          ("external source " ++ box.file ++ " is " ++ dialect.name ++ ", output is " ++
            settings.dialect.name))
  let some library := settings.library
    | throw (.fatal "" module ("no search path to locate " ++ box.file))
  let text ← library.fetch module box.file
  let facts := Scan.facts settings.dialect text
  if !facts.declares module then
    throw (.fatal "" module
      ("external source " ++ box.file ++ " declares " ++ Text.bracketed facts.entityNames ++
        ", expected " ++ module))
  return { name := module, category := circuitCategory, verbatim := some text }

/-- What the walk over a design has written. -/
structure Output where
  units : List DesignUnit := []
  written : List String := []
  failures : List Failure := []
  messages : List Message := []

namespace Output

def add (output : Output) : Except Failure DesignUnit → Output
  | .ok unit => { output with units := output.units ++ [unit] }
  | .error failure => { output with failures := output.failures ++ [failure] }

def claim (output : Output) (module : String) : Output :=
  { output with written := output.written ++ [module] }

def addCircuit (output : Output) (settings : Settings) (context : WiringContext) : Output :=
  let (outcome, messages) :=
    Reporting.outcome (context.unit settings.dialect) output.messages
  { output with messages }.add outcome

def addComponent (settings : Settings) (names : Names) (circuit : String) (output : Output)
    (component : Component) : Output :=
  if component.kind.isSpecial then output
  else
    match names.module? circuit component.id with
    | none => output
    | some module =>
      if output.written.contains module then output
      else (output.claim module).add (component.unit settings circuit (some module))

def visit (design : Design) (settings : Settings) (names : Names) (layouts : Layouts) :
    (depth : Nat) → Output → Circuit → Output
  | 0, output, _ => output
  | depth + 1, output, circuit =>
    match names.circuit? circuit.name with
    | none => output
    | some module =>
      if output.written.contains module then output
      else
        let output := output.claim module
        match circuit.blackBox with
        | some box => output.add (box.unit settings module)
        | none =>
          let output := output.addCircuit settings
            ⟨design, circuit, module, settings.period, names, layouts⟩
          let output := circuit.components.foldl (addComponent settings names circuit.name) output
          (design.subcircuits circuit).foldl (visit design settings names layouts depth) output

def abort? (output : Output) : Option Abort :=
  output.failures.findSome? Failure.abort?

end Output

def Design.generate (design : Design) (settings : Settings) (names : Names) (layouts : Layouts)
    (written : List String) : Output :=
  let start : Output := { written := written.eraseDups }
  match design.topCircuit? with
  | some top =>
    Output.visit design settings names layouts (design.circuits.length + 1) start top
  | none => start

end Schematic
