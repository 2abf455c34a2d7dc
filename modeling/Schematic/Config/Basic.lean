import Schematic.File.Path
import Schematic.Json.Reader
import Schematic.Netlist.Design
import Schematic.Settings

/-! # Configurations

The choices of a project. A choice that the configuration file leaves out has a default. -/

namespace Schematic

/-- How the oscillator of the board is divided. -/
structure ClockChoice where
  mode : String := ""
  period : Int := 0
  frequency : Int := 0
  deriving DecidableEq, Repr

structure Config where
  language : String := "VHDL"
  vendor : String := "generic"
  output : String := "hdl_out"
  clock : ClockChoice := { mode := "raw" }
  templates : Table String String := []
  searchPaths : List String := ["*.vhd", "*.v", "**/*.vhd", "**/*.vhdl", "**/*.v", "**/*.sv"]
  exclude : List String := []
  policy : Bool := true
  rules : Table String String := []
  timingPath : String := ""
  metricsFile : String := ""
  manifest : Bool := true
  deriving DecidableEq, Repr

/-- A configuration as read: what the file leaves out is absent or empty. -/
structure ConfigDraft where
  language : String := ""
  vendor : String := ""
  output : String := ""
  clock : ClockChoice := {}
  templates : Table String String := []
  searchPaths : Option (Json.Slots String) := none
  exclude : Json.Slots String := {}
  policy : Option Bool := none
  rules : Table String String := []
  timingPath : String := ""
  metricsFile : String := ""
  manifest : Option Bool := none

namespace ConfigDraft

open Json.Decoder

def decodeClock : Json.Decoder ClockChoice := record fun name clock value =>
  if selects "mode" name then (text clock.mode value).map fun mode => { clock with mode }
  else if selects "period" name then
    (integer clock.period value).map fun period => { clock with period }
  else if selects "frequency" name then
    (integer clock.frequency value).map fun frequency => { clock with frequency }
  else some clock

def decodeNaming : Json.Decoder ConfigDraft := record fun name draft value =>
  if selects "templates" name then
    (texts draft.templates value).map fun templates => { draft with templates }
  else some draft

def decodeSources : Json.Decoder ConfigDraft := record fun name draft value =>
  if selects "searchPaths" name then
    (optional {} (slots "" text) draft.searchPaths value).map
      fun searchPaths => { draft with searchPaths }
  else if selects "exclude" name then
    (slots "" text draft.exclude value).map fun exclude => { draft with exclude }
  else some draft

def decodePolicy : Json.Decoder ConfigDraft := record fun name draft value =>
  if selects "enabled" name then
    (optional false truth draft.policy value).map fun policy => { draft with policy }
  else if selects "rules" name then
    (texts draft.rules value).map fun rules => { draft with rules }
  else some draft

def decodeTiming : Json.Decoder ConfigDraft := record fun name draft value =>
  if selects "path" name then
    (text draft.timingPath value).map fun timingPath => { draft with timingPath }
  else some draft

def decodeManifest : Json.Decoder ConfigDraft := record fun name draft value =>
  if selects "enabled" name then
    (optional false truth draft.manifest value).map fun manifest => { draft with manifest }
  else some draft

def decode : Json.Decoder ConfigDraft := record fun name draft value =>
  if selects "language" name then
    (text draft.language value).map fun language => { draft with language }
  else if selects "vendor" name then
    (text draft.vendor value).map fun vendor => { draft with vendor }
  else if selects "output" name then
    (text draft.output value).map fun output => { draft with output }
  else if selects "clock" name then
    (decodeClock draft.clock value).map fun clock => { draft with clock }
  else if selects "naming" name then decodeNaming draft value
  else if selects "blackBox" name then decodeSources draft value
  else if selects "policy" name then decodePolicy draft value
  else if selects "timing" name then decodeTiming draft value
  else if selects "metricsFile" name then
    (text draft.metricsFile value).map fun metricsFile => { draft with metricsFile }
  else if selects "manifest" name then decodeManifest draft value
  else some draft

def orDefault (text default : String) : String :=
  if text = "" then default else text

def complete (draft : ConfigDraft) : Config :=
  let default : Config := {}
  { language := orDefault draft.language default.language
    vendor := orDefault draft.vendor default.vendor
    output := orDefault draft.output default.output
    clock := { draft.clock with mode := orDefault draft.clock.mode default.clock.mode }
    templates := draft.templates
    searchPaths := (draft.searchPaths.map (·.items)).getD default.searchPaths
    exclude := draft.exclude.items
    policy := draft.policy.getD default.policy
    rules := draft.rules
    timingPath := draft.timingPath
    metricsFile := draft.metricsFile
    manifest := draft.manifest.getD default.manifest }

end ConfigDraft

inductive ConfigError where
  | unknownName (unknown : Hdl.UnknownName)
  | noPeriod (period : Int)
  | clockMode (mode : String)
  | ruleSeverity (rule severity : String)
  | templateKind (kind : String)
  deriving DecidableEq, Repr

def ConfigError.message : ConfigError → String
  | .unknownName unknown => unknown.message
  | .noPeriod period => s!"clock mode static needs a period of at least 1, got {period}"
  | .clockMode mode => "unknown clock mode " ++ Text.quote mode
  | .ruleSeverity rule severity =>
    "policy rule " ++ rule ++ ": unknown severity " ++ Text.quote severity
  | .templateKind kind => "naming template for unknown component kind " ++ Text.quote kind

namespace Config

def checkClock (config : Config) : Except ConfigError Unit :=
  match Text.lower config.clock.mode with
  | "raw" => .ok ()
  | "dynamic" => .ok ()
  | "static" => if config.clock.period < 1 then .error (.noPeriod config.clock.period) else .ok ()
  | _ => .error (.clockMode config.clock.mode)

def checkRule (rule : String × String) : Except ConfigError Unit :=
  if ["off", "warning", "error"].contains rule.2 then .ok ()
  else .error (.ruleSeverity rule.1 rule.2)

def checkTemplate (template : String × String) : Except ConfigError Unit :=
  if (Kind.named template.1).isKnown then .ok () else .error (.templateKind template.1)

def check (config : Config) : Except ConfigError Unit := do
  match Hdl.Dialect.named config.language with
  | .error unknown => throw (.unknownName unknown)
  | .ok _ => pure ()
  match Hdl.Vendor.named config.vendor with
  | .error unknown => throw (.unknownName unknown)
  | .ok _ => pure ()
  config.checkClock
  checkAll checkRule config.rules
  checkAll checkTemplate config.templates

def parse (path text : String) : Except Failure Config :=
  match (Json.read? text).bind (ConfigDraft.decode {}) with
  | none => .error .undecodable
  | some draft =>
    let config := draft.complete
    match config.check with
    | .ok () => .ok config
    | .error e => .error (.error ("config file " ++ path ++ ": " ++ e.message))

def textMember (name text : String) : List (String × Json) :=
  if text = "" then [] else [(name, .string text)]

def intMember (name : String) (n : Int) : List (String × Json) :=
  if n = 0 then [] else [(name, .ofInt n)]

def listMember (name : String) (texts : List String) : List (String × Json) :=
  if texts.isEmpty then [] else [(name, .ofTexts texts)]

def tableMember (name : String) (table : Table String String) : List (String × Json) :=
  if table.isEmpty then []
  else [(name, .object (table.map fun (key, text) => (key, .string text)))]

def toJson (config : Config) : Json :=
  .object <|
    textMember "language" config.language ++
    textMember "vendor" config.vendor ++
    textMember "output" config.output ++
    [("clock", .object <|
        textMember "mode" config.clock.mode ++
        intMember "period" config.clock.period ++
        intMember "frequency" config.clock.frequency),
      ("naming", .object (tableMember "templates" config.templates)),
      ("blackBox", .object <|
        listMember "searchPaths" config.searchPaths ++
        listMember "exclude" config.exclude),
      ("policy", .object <|
        ("enabled", .bool config.policy) :: tableMember "rules" config.rules),
      ("timing", .object (textMember "path" config.timingPath))] ++
    textMember "metricsFile" config.metricsFile ++
    [("manifest", .object [("enabled", .bool config.manifest)])]

def save (config : Config) : String :=
  config.toJson.indented

def dialect (config : Config) : Hdl.Dialect :=
  match Hdl.Dialect.named config.language with
  | .ok dialect => dialect
  | .error _ => .vhdl

def vendorChoice (config : Config) : Hdl.Vendor :=
  match Hdl.Vendor.named config.vendor with
  | .ok vendor => vendor
  | .error _ => .generic

def period (config : Config) : Int :=
  match Text.lower config.clock.mode with
  | "static" => config.clock.period
  | "dynamic" => -1
  | _ => 0

def outputDirectory (config : Config) (root : String) : String :=
  if Path.isAbsolute config.output then config.output else Path.join [root, config.output]

def ruleSeverity (config : Config) (rule default : String) : String :=
  (config.rules.find? rule).getD default

def checksRule (config : Config) (rule : String) : Bool :=
  config.rules.find? rule != some "off"

end Config

end Schematic
