import Schematic.Circuit.Layout
import Schematic.Schema.Basic
import Schematic.Yaml.Value

/-! # Boards

A board description says which pin each bit of a design is placed on. A bit is on one pin, held at a
constant or left open, and a pin is used once. -/

namespace Schematic

/-- Where a bit of the design goes. -/
inductive Placement where
  | unmapped
  | pin (name : String)
  | constant (value : Bool)
  | unused
  deriving DecidableEq, Repr

/-- What a board says about one bit. -/
structure BoardBit where
  placement : Placement := .unmapped
  inverted : Bool := false
  deriving DecidableEq, Repr

/-- The bits of one signal of the design, which is named by its path, from bit zero on. -/
structure Mapping where
  path : String
  bits : List BoardBit
  deriving DecidableEq, Repr

structure Board where
  name : String := ""
  vendor : String := ""
  clockPin : String := ""
  frequency : Int := 0
  mappings : List Mapping := []
  deriving DecidableEq, Repr

namespace Placement

def kind : Placement → String
  | .unmapped => "unmapped"
  | .pin _ => "pin"
  | .constant _ => "constant"
  | .unused => "open"

def pinName : Placement → String
  | .pin name => name
  | _ => ""

def value : Placement → Nat
  | .constant true => 1
  | _ => 0

end Placement

/-- A bit as it is read, before it is known to be one thing only. -/
structure BitDraft where
  pin : String := ""
  constant : Option Int := none
  unused : Bool := false
  inverted : Bool := false

structure MappingDraft where
  path : String := ""
  bits : List BitDraft := []

structure BoardDraft where
  name : String := ""
  vendor : String := ""
  clockPin : String := ""
  frequency : Int := 0
  mappings : List MappingDraft := []

namespace BoardDraft

open Yaml (Decoding)

def bitMember : String → Option (BitDraft → Yaml → Decoding BitDraft)
  | "pin" => some fun bit value => return { bit with pin := ← Decoding.text value }
  | "constant" => some fun bit value =>
    return { bit with constant := ← Decoding.optionalWord value }
  | "open" => some fun bit value => return { bit with unused := ← Decoding.truth value }
  | "inverted" => some fun bit value => return { bit with inverted := ← Decoding.truth value }
  | _ => none

def mappingMember : String → Option (MappingDraft → Yaml → Decoding MappingDraft)
  | "path" => some fun mapping value => return { mapping with path := ← Decoding.text value }
  | "bits" => some fun mapping value => do
    let bits ← Decoding.list (Decoding.optionalRecord bitMember {}) value
    return { mapping with bits }
  | _ => none

def clockMember : String → Option (BoardDraft → Yaml → Decoding BoardDraft)
  | "pin" => some fun draft value => return { draft with clockPin := ← Decoding.text value }
  | "frequency" => some fun draft value => return { draft with frequency := ← Decoding.word value }
  | _ => none

def boardMember : String → Option (BoardDraft → Yaml → Decoding BoardDraft)
  | "name" => some fun draft value => return { draft with name := ← Decoding.text value }
  | "vendor" => some fun draft value => return { draft with vendor := ← Decoding.text value }
  | "clock" => some (Decoding.record clockMember)
  | "mappings" => some fun draft value => do
    let mappings ← Decoding.list (Decoding.optionalRecord mappingMember {}) value
    return { draft with mappings }
  | _ => none

def decode : Yaml.Document → Option BoardDraft :=
  Yaml.Document.decode? (Decoding.record boardMember {})

end BoardDraft

/-- What is wrong with a board. -/
inductive BoardError where
  | unknownVendor (unknown : Hdl.UnknownName)
  | noPath (position : Nat)
  | mappedTwice (path : String)
  | notBinary (path : String) (bit : Nat)
  | notOne (path : String) (bit : Nat)
  | usedTwice (pin owner path : String) (bit : Nat)
  deriving DecidableEq, Repr

def BoardError.message : BoardError → String
  | .unknownVendor unknown => unknown.message
  | .noPath position => s!"mapping {position} has no path"
  | .mappedTwice path => "path " ++ Text.quote path ++ " is mapped twice"
  | .notBinary path bit => s!"{path} bit {bit}: constant must be 0 or 1"
  | .notOne path bit => s!"{path} bit {bit}: exactly one of pin, constant or open is required"
  | .usedTwice pin owner path bit => s!"pin {pin} is used by {owner} and {path} bit {bit}"

namespace BoardDraft

abbrev Pins := List (String × String)

def checkBit (path : String) (bit : Nat) (draft : BitDraft) : Except BoardError BoardBit :=
  let inRange := draft.constant.all fun value => value = 0 || value = 1
  if !inRange then .error (.notBinary path bit)
  else
    match draft.pin, draft.constant, draft.unused with
    | "", some value, false => .ok ⟨.constant (value = 1), draft.inverted⟩
    | "", none, true => .ok ⟨.unused, draft.inverted⟩
    | pin, none, false =>
      if pin = "" then .error (.notOne path bit) else .ok ⟨.pin pin, draft.inverted⟩
    | _, _, _ => .error (.notOne path bit)

def claimPin (path : String) (bit : Nat) (pins : Pins) (placed : BoardBit) :
    Except BoardError Pins :=
  match placed.placement with
  | .pin name =>
    match pins.lookup (Text.upper name) with
    | some owner => .error (.usedTwice name owner path bit)
    | none => .ok ((Text.upper name, s!"{path} bit {bit}") :: pins)
  | _ => .ok pins

def checkBits (path : String) : (position : Nat) → Pins → List BitDraft →
    Except BoardError (List BoardBit × Pins)
  | _, pins, [] => .ok ([], pins)
  | position, pins, draft :: rest => do
    let bit ← checkBit path position draft
    let pins ← claimPin path position pins bit
    let (bits, pins) ← checkBits path (position + 1) pins rest
    return (bit :: bits, pins)

def checkMappings : (position : Nat) → (paths : List String) → Pins → List MappingDraft →
    Except BoardError (List Mapping)
  | _, _, _, [] => .ok []
  | position, paths, pins, draft :: rest => do
    if draft.path = "" then throw (.noPath position)
    if paths.contains draft.path then throw (.mappedTwice draft.path)
    let (bits, pins) ← checkBits draft.path 0 pins draft.bits
    let mappings ← checkMappings (position + 1) (draft.path :: paths) pins rest
    return ⟨draft.path, bits⟩ :: mappings

def check (draft : BoardDraft) : Except BoardError Board := do
  match Hdl.Vendor.named draft.vendor with
  | .error unknown => throw (.unknownVendor unknown)
  | .ok _ => pure ()
  let pins : Pins := if draft.clockPin = "" then [] else [(Text.upper draft.clockPin, "clock")]
  let mappings ← checkMappings 0 [] pins draft.mappings
  return {
    name := draft.name
    vendor := draft.vendor
    clockPin := draft.clockPin
    frequency := draft.frequency
    mappings }

end BoardDraft

namespace Board

def parse (text : String) : Except Failure Board :=
  match (Yaml.read? text).bind BoardDraft.decode with
  | none => .error .undecodable
  | some draft => draft.check.mapError fun e => .error e.message

def vendorChoice (board : Board) : Hdl.Vendor :=
  match Hdl.Vendor.named board.vendor with
  | .ok vendor => vendor
  | .error _ => .generic

def mapping? (board : Board) (path : String) : Option Mapping :=
  board.mappings.find? (·.path = path)

def bitAt (board : Board) (path : String) (bit : Nat) : BoardBit :=
  ((board.mapping? path).bind fun mapping => mapping.bits[bit]?).getD {}

def bitJson (bit : BoardBit) : Json :=
  .object <|
    (match bit.placement with
      | .pin name => [("pin", .string name)]
      | .constant value => [("constant", .ofInt (if value then 1 else 0))]
      | .unused => [("open", .bool true)]
      | .unmapped => []) ++
    if bit.inverted then [("inverted", .bool true)] else []

def toJson (board : Board) : Json :=
  .object [("name", .string board.name), ("vendor", .string board.vendor),
    ("clock", .object [("pin", .string board.clockPin), ("frequency", .ofInt board.frequency)]),
    ("mappings", .array (board.mappings.map fun mapping =>
      .object [("path", .string mapping.path), ("bits", .array (mapping.bits.map bitJson))]))]

end Board

/-- A port of the module around the design, and the pin it is placed on. -/
structure PlacedPort where
  port : String
  pin : String
  direction : Hdl.Direction
  source : String
  deriving DecidableEq, Repr

def globalClockPort : String := "FPGA_GlobalClock"

namespace Hdl.Vendor

def constraintExtension : Vendor → String
  | .xilinx => ".xdc"
  | .altera => ".qsf"
  | .generic => ".lpf"

def constraintFile (vendor : Vendor) : String :=
  wrapperModule ++ vendor.constraintExtension

end Hdl.Vendor

namespace Board

def periodText (board : Board) : String :=
  if board.frequency ≤ 0 then ""
  else
    match Binary64.ofRatio? board.frequency.toNat 1 with
    | none => ""
    | some frequency =>
      let (n, d) := frequency.ratio
      ((Binary64.ofRatio? (1000000000 * d) n).map (Binary64.fixed 3)).getD ""

def placeLine (vendor : Hdl.Vendor) (port pin : String) : String :=
  match vendor with
  | .xilinx => "set_property PACKAGE_PIN " ++ pin ++ " [get_ports \x7b" ++ port ++ "\x7d]"
  | .altera => "set_location_assignment " ++ pin ++ " -to " ++ port
  | .generic => "LOCATE COMP \"" ++ port ++ "\" SITE \"" ++ pin ++ "\";"

def frequencyLines (board : Board) (vendor : Hdl.Vendor) : List String :=
  if board.frequency = 0 then []
  else
    match vendor with
    | .xilinx =>
      ["create_clock -period " ++ board.periodText ++ " -name " ++ globalClockPort ++
        " [get_ports \x7b" ++ globalClockPort ++ "\x7d]"]
    | .altera => []
    | .generic =>
      ["FREQUENCY PORT \"" ++ globalClockPort ++ s!"\" {board.frequency} HZ;"]

def constraints (board : Board) (vendor : Hdl.Vendor) (ports : List PlacedPort) : String :=
  let module := match vendor with
    | .altera => ["set_global_assignment -name TOP_LEVEL_ENTITY " ++ wrapperModule]
    | _ => []
  let clock :=
    if board.clockPin = "" then [] else [placeLine vendor globalClockPort board.clockPin]
  let placed := (ports.filter (·.pin ≠ "")).map fun placed =>
    placeLine vendor placed.port placed.pin
  Hdl.Lines.toText
    (["# Generated by hdlgen for " ++ board.name] ++ module ++ clock ++
      board.frequencyLines vendor ++ placed)

end Board

end Schematic
