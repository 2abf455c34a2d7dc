import Schematic.Command.Basic
import Schematic.Run.Basic

/-! # The generator command

Runs the generator and prints the messages of the run and what it wrote. -/

namespace Schematic.GenerateCommand

structure Options where
  verbose : Bool := false
  json : Bool := false
  timing : Bool := false
  config : String := ""
  inputs : List String := []
  deriving DecidableEq, Repr

inductive UsageError where
  | needsFile (option : String)
  | inputs
  deriving DecidableEq, Repr

def UsageError.message : UsageError → String
  | .needsFile option => option ++ " needs a file"
  | .inputs => "expected <design.json> [board.yaml]"

def Options.read (options : Options) : List String → Except UsageError Options
  | [] => .ok options
  | argument :: rest =>
    if argument = "-v" || argument = "--verbose" then read { options with verbose := true } rest
    else if argument = "--json" then read { options with json := true } rest
    else if argument = "--timing" then read { options with timing := true } rest
    else if argument = "-c" || argument = "--config" then
      match rest with
      | [] => .error (.needsFile argument)
      | file :: rest => read { options with config := file } rest
    else read { options with inputs := options.inputs ++ [argument] } rest

def Options.parse (arguments : List String) : Except UsageError Options := do
  let options ← Options.read {} arguments
  match options.inputs with
  | [_] => return options
  | [_, _] => return options
  | _ => throw .inputs

def usage : List String :=
  ["Usage: hdlgen [command] [options] <design.json> [board.yaml]",
    "",
    "Commands:",
    "  init              Create a hdlgen.json configuration file",
    "  <design.json>     Generate HDL for the design, optionally mapped to a board",
    "",
    "Options:",
    "  -v, --verbose     Enable verbose output",
    "  -c, --config      Specify config file: hdlgen -c config.json <design.json>",
    "  --json            Print the run report as JSON",
    "  --timing          Write stage timings to <output>/timing.jsonl",
    "  -h, --help        Show this help message",
    "",
    "Configuration:",
    "  hdlgen looks for configuration in:",
    "    1. ./hdlgen.json",
    "    2. ./.hdlgen.json",
    "    3. ~/.config/hdlgen/config.json",
    "",
    "  Run 'hdlgen init' to create a default configuration file."]

def firstWord (text : String) : String :=
  let line := text.toList.takeWhile (· != '\n')
  String.ofList ((line.dropWhile Text.isBlank).takeWhile fun c => !Text.isBlank c)

def overwriteQuestion : String :=
  "Config file " ++ Config.fileName ++ " already exists. Overwrite? [y/N]: "

def createdLines : List String :=
  ["Created " ++ Config.fileName,
    "",
    "Edit this file to configure:",
    "  - Output language, vendor and directory",
    "  - Clock mode and divider",
    "  - Black-box source search paths",
    "  - Policy rule severities"]

def questionFor (tree : FileTree) : String :=
  if tree.has Config.fileName then overwriteQuestion else ""

def createConfig (tree : FileTree) (input : String) : Answer :=
  let question := questionFor tree
  if question ≠ "" && !(["y", "Y"].contains (firstWord input)) then
    { question, output := "Aborted.\n", tree }
  else
    match tree.overwrite Config.fileName ({} : Config).save with
    | .ok tree => { question, output := linesText createdLines, tree }
    | .error e =>
      { exit := 1, question, tree
        complaints :=
          [.failure "Error creating config" (.error ("writing config file: " ++ e.message))] }

def summaryLines (result : RunResult) : List String :=
  let summary := result.summary
  let warnings := summary.count .warning
  let severe := summary.count .severe
  let fatal := summary.count .fatal
  let ports := (result.ports.filter (·.pin ≠ "")).map fun placed =>
    "  " ++ Text.padTo 20 placed.port ++ " " ++ Text.padTo 6 placed.pin ++ " " ++ placed.source
  [s!"Generated {result.modules.length} modules into {result.output} " ++
    s!"({summary.files.length} files written)"] ++ ports ++
  [s!"{warnings} warnings, {severe} severe warnings, {fatal} fatal errors"] ++
  if summary.success then ["Compile order written to " ++ FactTables.orderFile] else []

def generate (tree : FileTree) (timingPath : String) (options : Options) : Answer :=
  let config : Except Failure (Option Config) :=
    if options.config = "" then .ok none else (Config.loadFile tree options.config).map some
  match config with
  | .error failure =>
    .refusal tree (.failure ("Error loading config " ++ options.config) failure)
  | .ok config =>
    let request : RunRequest :=
      { design := options.inputs.headD "", board := options.inputs.tail.headD "", config,
        timing := options.timing, timingPath }
    match request.run tree with
    | (.error failure, tree) => .refusal tree (.failure "Error" failure)
    | (.ok result, tree) =>
      { exit := if result.summary.success then 0 else 1
        output :=
          if options.json then result.summary.toJson.indented ++ "\n"
          else linesText (summaryLines result)
        tree }

def questionBefore (tree : FileTree) (arguments : List String) : String :=
  if arguments.head? = some "init" then questionFor tree else ""

def run (tree : FileTree) (timingPath : String) (arguments : List String) (input : String) :
    Answer :=
  match arguments with
  | [] => .refusal tree (.text usage)
  | first :: _ =>
    if first = "init" then createConfig tree input
    else if ["-h", "--help", "help"].contains first then { complaints := [.text usage], tree }
    else
      match Options.parse arguments with
      | .ok options => generate tree timingPath options
      | .error e => .refusal tree (.text (["Error: " ++ e.message, ""] ++ usage))

end Schematic.GenerateCommand
