import Schematic.Circuit.Layout
import Schematic.Clock.Source
import Schematic.Report

/-! # Planning

All identifiers are chosen before any text is written: the modules of circuits and components, the
ports of pins and the labels of instances. -/

namespace Schematic

def reservedModules : List String :=
  [wrapperModule, Clock.tickModule, Clock.sourceModule]

def fixedNames (design : Design) : List String :=
  [tickSignal, dynamicClockPort, hiddenInput, hiddenOutput, hiddenInout] ++
    design.treeIds.map clockTreePort

def pinPort (pathName : String) : String :=
  let name := Naming.sanitize pathName
  if Text.startsWith (Text.lower name) "s_" then "L_" ++ name else name

def Component.instanceCategory (component : Component) : String :=
  if component.kind = .subcircuit then "CIRCUIT"
  else
    match component.variant? with
    | some variant => Text.upper variant.category
    | none => "COMPONENT"

def Names.labelBase (component : Component) : String :=
  component.instanceCategory ++ "_" ++ toString component.id

def Circuit.signature (circuit : String) : String := "circuit|" ++ circuit

/-- What planning has done so far. -/
structure Planning where
  registry : Naming.Registry
  names : Names := {}
  visited : List String := []
  messages : List Message := []

namespace Planning

def start : Planning :=
  { registry := .empty reservedModules }

def report (planning : Planning) (message : Message) : Planning :=
  { planning with messages := planning.messages ++ [message] }

def planPins (circuit module : String) (seen taken : List String) (names : Names) :
    List Component → Names × Except Failure (List String)
  | [] => (names, .ok taken)
  | pin :: rest =>
    let path := pin.pathName
    if seen.contains path then
      (names, .error (.fatal "" module
        ("two pins of circuit " ++ circuit ++ " are named " ++ Text.quote path)))
    else
      let (port, taken) := Naming.takeUnique taken (pinPort path)
      planPins circuit module (path :: seen) taken (names.setPort circuit path port) rest

def planModule (settings : Settings) (circuit : String) (planning : Planning)
    (component : Component) : Planning :=
  match component.variant? with
  | none => planning.report (.ofFailure circuit (component.noVariant.asFatal ""))
  | some variant =>
    let base := component.baseName settings circuit variant
    let planning := match component.nameIssue settings circuit variant with
      | some issue =>
        planning.report ⟨.severe, circuit, base, component.reference ++ ": " ++ issue.message⟩
      | none => planning
    match planning.registry.claim base (component.signature circuit base) with
    | .error reserved => planning.report (.ofFailure circuit (.fatal "" base reserved.message))
    | .ok (module, registry) =>
      { planning with registry, names := planning.names.setModule circuit component.id module }

def withLabel (planning : Planning) (circuit : String) (taken : List String)
    (component : Component) : Planning :=
  { planning with
    names := planning.names.setInstance circuit component.id
      (Naming.takeUnique taken (Names.labelBase component)).1 }

def planComponent (settings : Settings) (circuit : String) :
    Planning × List String → Component → Planning × List String
  | (planning, taken), component =>
    if component.kind ≠ .subcircuit && component.kind.isSpecial then (planning, taken)
    else if component.kind = .subcircuit then (planning.withLabel circuit taken component,
      (Naming.takeUnique taken (Names.labelBase component)).2)
    else (planModule settings circuit (planning.withLabel circuit taken component) component,
      (Naming.takeUnique taken (Names.labelBase component)).2)

def pinsOf (design : Design) (planning : Planning) (circuit : Circuit) (module : String) :
    Names × Except Failure (List String) :=
  planPins circuit.name module [] ((fixedNames design).map Text.lower)
    (planning.names.setCircuit circuit.name module) (circuit.componentsOf .pin)

def meet (planning : Planning) (circuit : Circuit) : Planning :=
  { planning with visited := circuit.name :: planning.visited }

def withPins (design : Design) (planning : Planning) (circuit : Circuit) (module : String)
    (registry : Naming.Registry) : Planning :=
  { planning.meet circuit with registry, names := (pinsOf design planning circuit module).1 }

def claimOf (planning : Planning) (circuit : Circuit) :
    Except Naming.ReservedName (String × Naming.Registry) :=
  planning.registry.claim (Naming.sanitize circuit.name) (Circuit.signature circuit.name)

/-- Plans a circuit at its first visit, and then those below it, whose failures are only
reported. -/
def visit (design : Design) (settings : Settings) :
    (depth : Nat) → Planning → Circuit → Planning × Option Failure
  | 0, planning, _ => (planning, none)
  | depth + 1, planning, circuit =>
    if planning.visited.contains circuit.name then (planning, none)
    else
      match planning.claimOf circuit with
      | .error reserved =>
        (planning.meet circuit, some (.fatal "" circuit.name reserved.message))
      | .ok (module, registry) =>
        let named := planning.withPins design circuit module registry
        match (pinsOf design planning circuit module).2 with
        | .error failure => (named, some failure)
        | .ok taken =>
          if circuit.blackBox.isSome then (named, none)
          else
            let (planning, _) :=
              circuit.components.foldl (planComponent settings circuit.name) (named, taken)
            let planning := (design.subcircuits circuit).foldl
              (fun planning inner =>
                match visit design settings depth planning inner with
                | (planning, none) => planning
                | (planning, some failure) => planning.report (.ofFailure inner.name failure))
              planning
            (planning, none)

end Planning

def Design.plan (design : Design) (settings : Settings) : Except Failure Names × List Message :=
  match design.topCircuit? with
  | none => (.error (.error ("design " ++ design.name ++ " has no top circuit")), [])
  | some top =>
    match Planning.visit design settings (design.circuits.length + 1) .start top with
    | (planning, none) => (.ok planning.names, planning.messages)
    | (planning, some failure) => (.error failure, planning.messages)

end Schematic
