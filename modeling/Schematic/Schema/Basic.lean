import Schematic.Json.Reader
import Schematic.Netlist.Design
import Schematic.Schema.Evaluate
import Schematic.Schema.Grammar
import Schematic.Schema.Scope

/-! # Schemas

A schema is a term that data has to agree with. Its records are closed: a field that they do not
know is rejected. -/

namespace Schematic

abbrev Schema := Data.Term

namespace Schema

def text : Schema := Data.Term.word "string"

def number : Schema := Data.Term.word "number"

def truth : Schema := Data.Term.word "bool"

def null : Schema := Data.Term.null

def both (first second : Schema) : Schema := Data.Term.operation .both first second

def either (first second : Schema) : Schema := Data.Term.operation .either first second

def nonEmpty : Schema := both text (Data.Term.bound .unequal (.text ""))

def oneOf : List String → Schema
  | [] => Data.Term.bottom
  | [only] => Data.Term.text only
  | first :: others => either (Data.Term.text first) (oneOf others)

def oneOfNames (names : List String) : Schema := Data.Term.nameOf names

def atLeast (least : Int) : Schema :=
  both (Data.Term.word "int") (Data.Term.bound .atLeast (.number (.ofInt least)))

def binary : Schema :=
  either (Data.Term.number (.ofInt 0)) (Data.Term.number (.ofInt 1))

def listOf (item : Schema) : Schema := Data.Term.list [.more item]

def someOf (item : Schema) : Schema := Data.Term.list [.item item, .more item]

def mapOf (value : Schema) : Schema :=
  Data.Term.record [.field (.pattern "" text) .present value]

def required (name : String) (schema : Schema) : Data.Declaration :=
  .field (.word name) .present schema

def optional (name : String) (schema : Schema) : Data.Declaration :=
  .field (.word name) .optional schema

def whenever (test : Data.Term) (declarations : List Data.Declaration) :
    Data.Declaration :=
  .each [.condition test] (.record declarations)

def closed (declarations : List Data.Declaration) : Schema :=
  Data.Term.closed (.record declarations)

def accepts (schema : Schema) (text : String) : Bool :=
  match Data.parse? text with
  | none => false
  | some data =>
    let steps := 16 * text.length + 1000
    data.sound [] steps &&
      match Data.datumOf { path := [], whole := true } steps [.mk schema [] [], .mk data [] []] with
      | .ok _ => true
      | .error _ => false

def acceptsValue (schema : Schema) (value : Json) : Bool :=
  schema.accepts value.compact

def acceptsJson (schema : Schema) (text : String) : Bool :=
  (Json.read? text).isSome &&
    schema.accepts (String.ofList (text.toList.map fun c => if c == '\n' then ' ' else c))

end Schema

end Schematic

namespace Schematic.Schema

def point : Schema :=
  closed [required "net" (atLeast (-1)), required "bit" (atLeast 0)]

def net : Schema :=
  closed [required "id" (atLeast 0), required "width" (atLeast 1), optional "forcedRoot" truth,
    optional "sources" (listOf point), optional "sinks" (listOf (listOf point)),
    optional "clockTree" (atLeast 0)]

def connection : Schema :=
  closed [required "name" nonEmpty, optional "output" truth, required "points" (listOf point)]

def setting : Schema :=
  either (either text number) (either truth null)

def component : Schema :=
  closed [required "id" (atLeast 0), required "kind" (oneOf (Kind.known.map Kind.name)),
    optional "attrs" (mapOf setting), optional "ends" (listOf connection),
    optional "circuit" text,
    whenever (Data.Term.operation .equal (.word "kind") (.text Kind.subcircuit.name))
      [required "circuit" nonEmpty]]

def blackBox : Schema :=
  closed [required "file" nonEmpty, optional "language" (oneOfNames ["vhdl", "verilog"])]

def circuit : Schema :=
  closed [required "name" nonEmpty, optional "nets" (listOf net),
    optional "components" (listOf component), optional "blackBox" blackBox]

def clockTree : Schema :=
  closed [required "id" (atLeast 0), required "highTicks" (atLeast 1),
    required "lowTicks" (atLeast 1), required "phase" (atLeast 0)]

def design : Schema :=
  closed [required "name" text, required "top" nonEmpty, required "circuits" (someOf circuit),
    optional "clockTrees" (listOf clockTree)]

def boardBit : Schema :=
  closed [optional "pin" nonEmpty, optional "constant" binary, optional "open" truth,
    optional "inverted" truth]

def mapping : Schema :=
  closed [required "path" nonEmpty, optional "bits" (either (listOf boardBit) null)]

def board : Schema :=
  closed [optional "name" text, optional "vendor" (oneOf ["", "altera", "xilinx", "generic"]),
    optional "clock" (closed [optional "pin" text, optional "frequency" (atLeast 0)]),
    optional "mappings" (either (listOf mapping) null)]

def place : List Data.Declaration :=
  [required "file" text, required "line" (atLeast 1)]

def fileRow : Schema :=
  closed [required "path" nonEmpty, required "language" text,
    required "role"
      (oneOf ["", "entity", "behavior", "module", "memory", "constraint", "blackbox"]),
    required "hash" text]

def moduleRow : Schema :=
  closed (required "name" nonEmpty :: place)

def portRow : Schema :=
  closed (required "module" text :: required "name" nonEmpty ::
    required "direction" (oneOfNames ["in", "out", "inout", "buffer"]) :: required "type" text ::
    required "width" (atLeast 0) :: place)

def signalRow : Schema :=
  closed (required "name" nonEmpty :: required "type" text :: required "scope" text :: place)

def instanceRow : Schema :=
  closed (required "name" nonEmpty :: required "target" nonEmpty :: required "in_module" text ::
    place)

def dependencyRow : Schema :=
  closed (required "target" text :: required "kind" text :: place)

def factTables : Schema :=
  closed [required "files" (listOf fileRow), required "modules" (listOf moduleRow),
    required "ports" (listOf portRow), required "signals" (listOf signalRow),
    required "instances" (listOf instanceRow), required "dependencies" (listOf dependencyRow)]

def counts : Schema :=
  closed [required "warning" (atLeast 0), required "severe" (atLeast 0),
    required "fatal" (atLeast 0)]

def message : Schema :=
  closed [required "severity" (oneOf ["warning", "severe", "fatal"]), optional "circuit" text,
    optional "module" text, required "text" text]

def report : Schema :=
  closed [required "success" truth, required "counts" counts,
    required "messages" (listOf message), optional "files" (listOf text),
    whenever
      (Data.Term.operation .greater (.member (.word "counts") "fatal" false) (.number (.ofInt 0)))
      [required "success" (Data.Term.truth false)]]

end Schematic.Schema
