import Schematic.Json.Value
import Schematic.Scan.Verilog
import Schematic.Scan.Vhdl

/-! # Scanned records

The facts of one text as JSON. -/

namespace Schematic.Scan

def facts (dialect : Hdl.Dialect) (text : String) : Facts :=
  match dialect with
  | .vhdl => Vhdl.facts text
  | .verilog => Verilog.facts text

def Port.toJson (port : Port) : Json :=
  .object [("name", .string port.name), ("direction", .string port.direction),
    ("type", .string port.type), ("width", .ofInt port.width), ("line", .ofInt port.line)]

def Entity.toJson (entity : Entity) : Json :=
  .object [("name", .string entity.name), ("line", .ofInt entity.line),
    ("ports", .array (entity.ports.map Port.toJson))]

def Architecture.toJson (architecture : Architecture) : Json :=
  .object [("name", .string architecture.name), ("entity", .string architecture.entity),
    ("line", .ofInt architecture.line)]

def Package.toJson (package : Package) : Json :=
  .object [("name", .string package.name), ("line", .ofInt package.line)]

def Use.toJson (use : Use) : Json :=
  .object [("name", .string use.name), ("ref", .string use.target), ("line", .ofInt use.line),
    ("instance", .bool use.isInstance), ("in", .string use.inModule)]

def Dependency.toJson (dependency : Dependency) : Json :=
  .object [("target", .string dependency.target), ("kind", .string dependency.kind),
    ("line", .ofInt dependency.line)]

def Signal.toJson (signal : Signal) : Json :=
  .object [("name", .string signal.name), ("type", .string signal.type),
    ("line", .ofInt signal.line), ("in", .string signal.inModule)]

def Facts.toJson (facts : Facts) : Json :=
  .object [("entities", .array (facts.entities.map Entity.toJson)),
    ("architectures", .array (facts.architectures.map Architecture.toJson)),
    ("packages", .array (facts.packages.map Package.toJson)),
    ("components", .array (facts.uses.map Use.toJson)),
    ("dependencies", .array (facts.dependencies.map Dependency.toJson)),
    ("signals", .array (facts.signals.map Signal.toJson))]

end Schematic.Scan
