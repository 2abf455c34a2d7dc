import Schematic.Board.Wrapper
import Schematic.Circuit.Generate
import Schematic.Config.Sources
import Schematic.Facts.Manifest
import Schematic.Facts.Survey
import Schematic.Netlist.Check
import Schematic.Policy
import Schematic.Run.Metrics

/-! # Runs

A run loads and checks its inputs, generates the modules of the design and the module around it,
writes them, and then inspects what is in the output. -/

namespace Schematic

structure RunRequest where
  root : String := "."
  design : String
  board : String := ""
  config : Option Config := none
  timing : Bool := false
  timingPath : String := ""

structure RunResult where
  summary : Summary
  output : String
  modules : List String
  compileOrder : List String
  ports : List PlacedPort
  violations : Option (List Violation)
  tables : FactTables

structure RunState where
  tree : FileTree
  messages : List Message := []
  timingLog : Option String := none
  stages : List String := []

abbrev Running (α : Type) := ExceptT Failure (StateM RunState) α

def Design.load (tree : FileTree) (path : String) : Except Failure Design :=
  match tree.read path with
  | .error e => .error (.error ("read design: " ++ e.message))
  | .ok text => Design.parse text

def Design.loadChecked (tree : FileTree) (path : String) : Except Failure Design :=
  match tree.read path with
  | .error e => .error (.error ("read design: " ++ e.message))
  | .ok text =>
    if Schema.design.accepts text then (Design.parse text).mapError (.within ("design " ++ path))
    else .error .offSchema

def Board.loadChecked (tree : FileTree) (path : String) : Except Failure Board :=
  match tree.read path with
  | .error e => .error (.error ("failed to read board file: " ++ e.message))
  | .ok text => do
    let board ← (Board.parse text).mapError (.within ("board file " ++ path))
    if Schema.board.acceptsValue board.toJson then return board else throw .offSchema

def Board.withFrequency (board : Board) (frequency : Int) : Board :=
  if board.frequency = 0 then { board with frequency } else board

def Config.vendorFor (config : Config) (board : Option Board) : Hdl.Vendor :=
  match board with
  | some board => if board.vendor = "" then config.vendorChoice else board.vendorChoice
  | none => config.vendorChoice

def RunRequest.timingLog (request : RunRequest) (config : Config) (output : String) : String :=
  if request.timingPath ≠ "" then request.timingPath
  else if config.timingPath ≠ "" then config.timingPath
  else if request.timing then Path.join [output, "timing.jsonl"]
  else ""

namespace Running

def ofExcept {α : Type} : Except Failure α → Running α
  | .ok value => pure value
  | .error failure => throw failure

def report (messages : List Message) : Running Unit :=
  modify fun state => { state with messages := state.messages ++ messages }

def log (event : TimingEvent) : Running Unit :=
  modify fun state =>
    match state.timingLog with
    | some path => { state with tree := state.tree.addTiming path event }
    | none => state

def finish (stage status : String) : Running Unit := do
  modify fun state => { state with stages := state.stages ++ [stage] }
  log { stage, status }

def startTiming (path : String) : Running Unit :=
  modify fun state =>
    if path = "" then state
    else
      let (tree, started) := state.tree.startTiming path
      { state with tree, timingLog := if started then some path else none }

def reporting {α : Type} (part : Reporting α) : Running (Except Failure α) := do
  let (outcome, messages) := Reporting.outcome part (← get).messages
  modify fun state => { state with messages }
  return outcome

def replace (write : FileTree → FileTree × Option Failure) : Running Unit :=
  modify fun state =>
    let (tree, failure) := write state.tree
    let failed := (failure.map fun failure => [Message.ofFailure "" failure]).getD []
    { state with
      tree
      messages := state.messages ++ failed
      timingLog := state.timingLog.filter fun path => tree.status path = state.tree.status path }

def writeUnit (writer : Writer) (unit : Hdl.DesignUnit) : Running Writer := do
  let state ← get
  let (next, failure) :=
    { writer with tree := state.tree, messages := state.messages }.writeUnit unit
  let failed := (failure.map fun failure => [Message.ofFailure "" failure]).getD []
  set { state with tree := next.tree, messages := next.messages ++ failed }
  let status :=
    if failure.isSome then "failed"
    else if next.written.length = writer.written.length then "skipped"
    else "written"
  log { stage := "write", subject := .module unit.name, status }
  return next

end Running

def collectFiles (tree : FileTree) (root : String) (dialect : Hdl.Dialect)
    (units : List Hdl.DesignUnit) : Except Failure (List SurveyedFile) := do
  let targets := units.flatMap fun unit => (unit.targets root dialect).map fun path => (path, unit)
  let once := targets.foldl
    (fun kept target => if kept.any (·.1 == target.1) then kept else kept ++ [target]) []
  let files ← once.mapM fun (path, unit) =>
    match tree.read path with
    | .ok content =>
      .ok (some (⟨(Path.relative? root path).getD path, .ofUnit dialect unit path, content⟩ :
        SurveyedFile))
    | .error e =>
      if e.isMissing then .ok none else .error (.error ("read generated file: " ++ e.message))
  return files.filterMap id

def Violation.asMessage (violation : Violation) : Message :=
  ⟨if violation.severity = "error" then .severe else .warning, "", violation.rule,
    s!"{violation.file}:{violation.line}: {violation.message}"⟩

def Manifest.staleFiles (manifest : Manifest) (tables : FactTables) : List String :=
  let removed := (Delta.between manifest.facts.tables tables).removed.files
  (removed.map (·.path)).filter fun path => !(tables.files.any (·.path = path))

namespace Running

def generate (design : Design) (settings : Settings) (board : Option Board) :
    Running (List Hdl.DesignUnit × List PlacedPort) := do
  let top := (design.topCircuit?.map (·.name)).getD ""
  let (planned, messages) := design.plan settings
  report messages
  let names ← ofExcept (planned.mapError (.within "plan design"))
  let layouts := design.layouts
  let generated := design.generate settings names layouts []
  if let some reason := generated.abort? then throw (.abort reason)
  report generated.messages
  report (generated.failures.map (.ofFailure ""))
  finish "generate" ""
  let tick := design.tickSettings settings.period
  let wrapped ← reporting (design.wrapper settings names layouts tick board)
  let (wrapper, ports) ← match wrapped with
    | .ok wrapper => pure ([wrapper.unit], wrapper.ports)
    | .error (.abort reason) => throw (.abort reason)
    | .error failure => do
      report [.ofFailure top failure]
      pure ([], [])
  let clocks :=
    if design.clockTrees.isEmpty then []
    else
      [tick.unit settings.dialect,
        Clock.ClockSource.unit settings.dialect (tick.mode = .raw)]
  finish "toplevel" ""
  return (generated.units ++ wrapper ++ clocks, ports)

def checkPolicy (config : Config) (tables : FactTables) : Running (Option (List Violation)) := do
  if !config.policy then return none
  let violations := Policy.evaluate config tables
  report (violations.map Violation.asMessage)
  finish "policy" s!"{violations.length} violations"
  return some violations

def recordManifest (config : Config) (output : String) (manifest : Manifest)
    (tables : FactTables) : Running Unit := do
  if !config.manifest then return
  match Manifest.load (← get).tree output with
  | .ok (some earlier) =>
    report ((earlier.staleFiles tables).map fun path =>
      ⟨.warning, "", "", path ++ " is left over from a previous run"⟩)
  | _ => pure ()
  replace fun tree => manifest.save tree output
  finish "manifest" ""

def putMetrics (tree : FileTree) (path text : String) : FileTree :=
  if FileTree.longestName < (Path.base path).utf8ByteSize + 9 then
    (tree.makeDirectory (Path.directory path)).1
  else (tree.replace path text).1

def writeMetrics (config : Config) (root : String) (metrics : Metrics) (summary : Summary) :
    Running Unit :=
  modify fun state =>
    if config.metricsFile = "" then state
    else
      let path :=
        if Path.isAbsolute config.metricsFile then config.metricsFile
        else Path.join [root, config.metricsFile]
      { state with
        tree := putMetrics state.tree path ({ metrics with stages := state.stages }.text summary) }

def record (output : String) (dialect : Hdl.Dialect) (units : List Hdl.DesignUnit) :
    Running FactTables := do
  let files ← ofExcept (collectFiles (← get).tree output dialect units)
  let tables := FactTables.ofSurvey files
  if !tables.isValid then
    report [.ofFailure "" (.error ("fact tables: " ++ tables.refusal))]
  replace fun tree =>
    tree.replace (Path.join [output, FactTables.orderFile])
      ("\n".intercalate tables.compileOrder ++ "\n")
  finish "facts" ""
  return tables

def summarize (config : Config) (root output : String) (units : List Hdl.DesignUnit)
    (writer : Writer) : Running Summary := do
  let summary : Summary :=
    ⟨(← get).messages, writer.written.map fun path => (Path.relative? output path).getD path⟩
  if !Schema.report.acceptsValue summary.toJson then throw .offSchema
  finish "total" (if summary.success then "ok" else "failed")
  let metrics : Metrics :=
    { writtenModules := units.length - writer.skipped.length
      skippedModules := writer.skipped.length
      writtenFiles := writer.written.length
      stages := [] }
  writeMetrics config root metrics summary
  return summary

end Running

def RunRequest.load (request : RunRequest) (root : String) (config : Config) :
    Running (Design × Settings × Option Board) := do
  let tree := (← get).tree
  let design ← Running.ofExcept (Design.loadChecked tree request.design)
  let board ←
    if request.board = "" then pure none
    else do
      let board ← Running.ofExcept (Board.loadChecked tree request.board)
      pure (some (board.withFrequency config.clock.frequency))
  Running.finish "load" ""
  let uncontrolled := config.period < 0 &&
    !(design.topCircuit?.any fun top => top.has .dynamicClock)
  if uncontrolled then
    Running.report [⟨.severe, (design.topCircuit?.map (·.name)).getD "", "",
      "dynamic clock mode needs a dynamic clock control in the top circuit, " ++
        "running at full speed"⟩]
  let settings : Settings :=
    { dialect := config.dialect
      vendor := config.vendorFor board
      templates := config.templates
      period := if uncontrolled then 0 else config.period
      library := some (config.library tree root) }
  return (design, settings, board)

def RunRequest.perform (request : RunRequest) (root : String) (config : Config) :
    Running RunResult := do
  let output := config.outputDirectory root
  Running.startTiming (request.timingLog config output)
  let tree := (← get).tree
  let (design, settings, board) ← request.load root config
  let (units, ports) ← Running.generate design settings board
  let writer ← units.foldlM Running.writeUnit { root := output, dialect := settings.dialect, tree }
  Running.finish "write" ""
  let tables ← Running.record output settings.dialect units
  let violations ← Running.checkPolicy config tables
  Running.recordManifest config output
    ⟨design.name, settings.dialect.name, tables.record, tables.compileOrder⟩ tables
  let summary ← Running.summarize config root output units writer
  return {
    summary
    output
    modules := units.map (·.name)
    compileOrder := tables.compileOrder
    ports
    violations
    tables }

def RunRequest.running (request : RunRequest) : Running RunResult := do
  let root := if request.root = "" then "." else request.root
  let config ← match request.config with
    | some config => pure config
    | none =>
      Running.ofExcept ((Config.load (← get).tree root).mapError (.within "load config"))
  request.perform root config

def RunRequest.run (request : RunRequest) (tree : FileTree) :
    Except Failure RunResult × FileTree :=
  let (outcome, state) := (ExceptT.run request.running).run { tree }
  (outcome, state.tree)

end Schematic
