import Schematic.File.Writer

/-! # Records of a run

The counts of a run in the text format of a metrics collector. -/

namespace Schematic

inductive TimingSubject where
  | stage
  | module (name : String)
  deriving DecidableEq, Repr

structure TimingEvent where
  stage : String
  subject : TimingSubject := .stage
  status : String := ""
  deriving DecidableEq, Repr

namespace TimingEvent

def kind (event : TimingEvent) : String :=
  match event.subject with
  | .stage => "stage"
  | .module _ => "module"

def module (event : TimingEvent) : String :=
  match event.subject with
  | .stage => ""
  | .module name => name

def toJson (event : TimingEvent) : Json :=
  let named (name text : String) : List (String × Json) :=
    if text = "" then [] else [(name, .string text)]
  .object <|
    [("stage", .string event.stage), ("kind", .string event.kind)] ++
    named "module" event.module ++ named "status" event.status ++
    [("start_ms", .ofInt 0), ("duration_ms", .ofInt 0), ("end_ms", .ofInt 0)]

end TimingEvent

namespace FileTree

def startTiming (tree : FileTree) (path : String) : FileTree × Bool :=
  match tree.makeDirectory (Path.directory path) with
  | (tree, some _) => (tree, false)
  | (tree, none) =>
    match tree.overwrite path "" with
    | .ok tree => (tree, true)
    | .error _ => (tree, false)

def addTiming (tree : FileTree) (path : String) (event : TimingEvent) : FileTree :=
  match tree.read path with
  | .ok content => tree.write path (content ++ event.toJson.compact ++ "\n")
  | .error _ => tree

end FileTree

structure Metrics where
  writtenModules : Int
  skippedModules : Int
  writtenFiles : Int
  stages : List String

namespace Metrics

def family (name type help : String) (series : List (String × String)) : List String :=
  ["# HELP " ++ name ++ " " ++ help, "# TYPE " ++ name ++ " " ++ type] ++
    series.map fun (labels, value) => name ++ labels ++ " " ++ value

def label (name value : String) : String :=
  "\x7b" ++ name ++ "=\"" ++ value ++ "\"\x7d"

def bounds : List String :=
  ["0.0005", "0.002", "0.008", "0.032", "0.128", "0.512", "2.048", "8.192", "+Inf"]

def stageLines (name stage : String) : List String :=
  bounds.map (fun bound =>
    name ++ "_bucket\x7bstage=\"" ++ stage ++ "\",le=\"" ++ bound ++ "\"\x7d 1") ++
  [name ++ "_sum" ++ label "stage" stage ++ " 0", name ++ "_count" ++ label "stage" stage ++ " 1"]

def text (metrics : Metrics) (summary : Summary) : String :=
  let count (severity : Severity) : String × String :=
    (label "severity" severity.name, toString (summary.count severity))
  let durations := "hdlgen_stage_duration_seconds"
  let stages := Table.keys (Table.ofList (metrics.stages.map fun stage => (stage, ())))
  let lines :=
    family "hdlgen_files_written_total" "counter" "Files written to the output tree."
      [("", toString metrics.writtenFiles)] ++
    family "hdlgen_messages_total" "counter" "Reported messages by severity."
      [count .fatal, count .severe, count .warning] ++
    family "hdlgen_modules_total" "counter"
      "Distinct modules produced by the generator, by write outcome."
      [(label "outcome" "skipped", toString metrics.skippedModules),
        (label "outcome" "written", toString metrics.writtenModules)] ++
    family durations "histogram" "Duration of each run stage." [] ++
    stages.flatMap (stageLines durations)
  String.join (lines.map (· ++ "\n"))

end Metrics

end Schematic
