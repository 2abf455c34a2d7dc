import Schematic.Component.Unit

/-! # Bindings

How one component uses its module: the values of the generics, and the end that feeds each port. -/

namespace Schematic

open Hdl

/-- A port of a module with the end that feeds it. -/
structure PortBinding where
  spec : PortSpec
  fed : End
  width : Int
  direction : Direction
  deriving DecidableEq, Repr

/-- The use of a module by one component. -/
structure Binding where
  module : String
  interface : Interface
  generics : List (String × Int)
  ports : List PortBinding
  hidden : HiddenCount

def floating (width : Int) : Except Abort (List Point) :=
  (storable 16 width).map fun count => List.replicate count Point.unconnected

namespace Component

def bindGenerics (component : Component) (module : String) (values : Table Nat Int)
    (interface : Interface) : Except Failure (List (String × Int)) :=
  interface.parameters.mapM fun (number, generic) =>
    match values.find? number with
    | some value => .ok (generic.name, value)
    | none =>
      .error (.fatal "" module (component.reference ++ ": no value for generic " ++ generic.name))

def bindClock (component : Component) (module : String) (spec : PortSpec) :
    Except Failure End :=
  let fed := (component.end? spec.terminal).getD ⟨spec.terminal, false, [Point.unconnected]⟩
  if fed.width = 1 then .ok fed
  else
    .error (.fatal "" module
      (component.reference ++ s!": clock input is {fed.width} bits wide"))

def bindEnd (component : Component) (module : String) (spec : PortSpec) (width : Int) :
    Except Failure End :=
  match component.end? spec.terminal with
  | none => ((floating width).map fun points => ⟨spec.terminal, false, points⟩).mapError .abort
  | some fed =>
    if (fed.width : Int) = width then .ok fed
    else
      .error (.fatal "" module
        (component.reference ++
          s!": end {fed.name} has {fed.width} bits but port {spec.name} is {width} bits wide"))

def bindPort (component : Component) (module : String) (values : Table Nat Int)
    (interface : Interface) (spec : PortSpec) : Except Failure PortBinding :=
  match interface.port? spec.name, interface.portWidth? spec.name values with
  | some (direction, _), some width => do
    let fed ←
      if spec.clock then component.bindClock module spec
      else component.bindEnd module spec width
    return ⟨spec, fed, width, direction⟩
  | _, _ =>
    .error (.fatal "" module
      (component.reference ++ ": port " ++ spec.name ++ " has no resolvable width"))

def bind (component : Component) (circuit : String) (planned : Option String) :
    Except Failure Binding := do
  let some variant := component.variant? | throw (component.noVariant.asFatal "")
  let module ← component.plannedModule circuit planned
  match variant with
  | .external (.error e) => throw (.fatal "" module (component.reference ++ ": " ++ e.message))
  | _ => pure ()
  let interface := variant.ports
  let values := variant.values component.width
  let generics ← component.bindGenerics module values interface
  let ports ← variant.specs.mapM (component.bindPort module values interface)
  return ⟨module, interface, generics, ports, variant.hidden⟩

end Component

end Schematic
