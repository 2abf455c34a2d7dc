import Schematic.Component.Memory
import Schematic.Scan.Record
import Schematic.Settings

/-! # Modules of components

Only a read-only memory and a module that is written elsewhere depend on more than their variant:
the contents of the memory, and the text of the module. -/

namespace Schematic

open Hdl

namespace Variant

def interface (variant : Variant) (dialect : Dialect) (vendor : Vendor) (module : String) :
    Interface :=
  match variant with
  | .mux _ bus =>
    match dialect with
    | .vhdl => variant.ports
    | .verilog => variant.ports.addRegister "s_selected_vector" (dataWidth bus)
  | .adder bus => withSum bus variant.ports
  | .register bus _ => withState dialect bus variant.ports
  | .rom addressBits dataBits lanes =>
    withLanes vendor module addressBits dataBits lanes variant.ports
  | .ram addressBits dataBits _ => withArray addressBits dataBits variant.ports
  | _ => variant.ports

def body (variant : Variant) (dialect : Dialect) : List String :=
  match variant with
  | .gate operator inputs _ => gateBody dialect operator inputs
  | .buffer inverts _ => bufferBody dialect inverts
  | .mux select bus => muxBody dialect select bus
  | .adder bus => adderBody dialect bus
  | .multiplier bus => multiplierBody dialect bus
  | .register bus trigger => registerBody dialect bus trigger
  | .rom addressBits _ lanes => romBody dialect addressBits lanes
  | .ram addressBits _ trigger => ramBody dialect addressBits trigger
  | .led => ledBody dialect
  | .button => switchBody dialect
  | .dipSwitch _ => switchBody dialect
  | .portIO width => portIOBody dialect width
  | .external _ => []

end Variant

namespace Component

def noVariant (component : Component) : Failure :=
  .error ("no HDL generator for component kind " ++ Text.quote component.kind.name)

def template (component : Component) (settings : Settings) (variant : Variant) : String :=
  match settings.templates.find? component.kind.name with
  | some template => if template = "" then variant.template else template
  | none => variant.template

def templateValues (component : Component) (circuit : String) : Naming.Variables :=
  ⟨circuit, component.label, component.width, Trigger.named component.trigger⟩

def baseName (component : Component) (settings : Settings) (circuit : String)
    (variant : Variant) : String :=
  Naming.expand (component.template settings variant) (component.templateValues circuit)

def nameIssue (component : Component) (settings : Settings) (circuit : String)
    (variant : Variant) : Option Naming.Issue :=
  Naming.expandIssue (component.template settings variant) (component.templateValues circuit)
    variant.isLabelSpecific

def signature (component : Component) (circuit base : String) : String :=
  let head := component.kind.name ++ "|" ++ base
  match component.variant? with
  | none => head
  | some variant =>
    let shaped := head ++ "|" ++ variant.shape
    if variant.isLabelSpecific then
      shaped ++ "|" ++ circuit ++ "|" ++ component.attributes.canonical
    else shaped

def hidden (component : Component) : HiddenCount :=
  match component.variant? with
  | some variant => variant.hidden
  | none => .none

def isClocked (component : Component) : Bool :=
  match component.variant? with
  | some variant => variant.isClocked
  | none => false

def plannedModule (component : Component) (circuit : String) (planned : Option String) :
    Except Failure String :=
  match planned with
  | some module => .ok module
  | none =>
    .error (.fatal "" ""
      (component.reference ++ " in circuit " ++ circuit ++ " has no planned module name"))

def externalText (component : Component) (settings : Settings) (module : String) :
    Except Failure String :=
  let file := component.attributes.text "file" ""
  if file = "" then .ok (component.attributes.text "content" "")
  else
    match settings.library with
    | none =>
      .error (.fatal "" module
        (component.reference ++ ": no search path to locate " ++ file))
    | some library => library.fetch module file

def externalUnit (component : Component) (settings : Settings) (module category : String)
    (ports : Except PortListError (List ExternalPort)) : Except Failure DesignUnit := do
  let fail {α : Type} (text : String) : Except Failure α :=
    .error (.fatal "" module (component.reference ++ text))
  let dialect ←
    match Dialect.named (component.attributes.text "language" settings.dialect.name) with
    | .ok dialect => pure dialect
    | .error unknown => fail (": " ++ unknown.message)
  if dialect ≠ settings.dialect then
    fail (" is written in " ++ dialect.name ++ " but the design is generated in " ++
      settings.dialect.name)
  match ports with
  | .ok _ => pure ()
  | .error e => fail (": " ++ e.message)
  let text ← component.externalText settings module
  if Text.isBlankText text then fail " has no HDL content"
  let facts := Scan.facts dialect text
  if !facts.declares module then
    fail (" declares " ++ Text.bracketed facts.entityNames ++ ", not " ++ module)
  return { name := module, category, verbatim := some text }

def attachments (component : Component) (variant : Variant) (vendor : Vendor) (module : String) :
    Except Failure (List Attachment) :=
  match variant with
  | .rom addressBits dataBits lanes => do
    let contents ← (component.attributes.words "contents").mapError fun e =>
      .fatal "" module e.message
    (MemoryContents.files contents module (Variant.memoryDepth addressBits) lanes dataBits
      vendor).mapError .abort
  | _ => .ok []

def spelledWidth (variant : Variant) (dialect : Dialect) : Nat :=
  match variant, dialect with
  | .portIO width, .verilog => width
  | _, _ => 0

def unit (component : Component) (settings : Settings) (circuit : String)
    (planned : Option String) : Except Failure DesignUnit := do
  let some variant := component.variant? | throw (component.noVariant.asFatal "")
  let module ← component.plannedModule circuit planned
  match variant with
  | .external ports => component.externalUnit settings module variant.category ports
  | _ =>
    let interface := variant.interface settings.dialect settings.vendor module
    let _ ← (storable 1 (spelledWidth variant settings.dialect)).mapError Failure.abort
    let attachments ← component.attachments variant settings.vendor module
    let unit := DesignUnit.write settings.dialect module variant.category interface []
      (variant.body settings.dialect) ["Kind      : " ++ component.kind.name]
    return { unit with attachments }

end Component

end Schematic
