import Schematic.Command.Basic
import Schematic.Facts.Record
import Schematic.Facts.Survey
import Schematic.File.Writer

/-! # The facts command

Prints the facts of a tree, or what changed since an earlier snapshot of them. -/

namespace Schematic.FactsCommand

structure Options where
  output : String := ""
  deltaFrom : String := ""
  deltaOut : String := ""
  files : String := ""
  inputs : List String := []
  deriving DecidableEq, Repr

inductive UsageError where
  | help
  | badSyntax (argument : String)
  | undefined (name : String)
  | needsArgument (name : String)
  deriving DecidableEq, Repr

def UsageError.lines : UsageError → List String
  | .help => []
  | .badSyntax argument => ["bad flag syntax: " ++ argument]
  | .undefined name => ["flag provided but not defined: -" ++ name]
  | .needsArgument name => ["flag needs an argument: -" ++ name]

def Options.set (options : Options) (name value : String) : Option Options :=
  match name with
  | "output" => some { options with output := value }
  | "o" => some { options with output := value }
  | "delta-from" => some { options with deltaFrom := value }
  | "delta-out" => some { options with deltaOut := value }
  | "files" => some { options with files := value }
  | _ => none

def optionName? (argument : String) : Option String :=
  match argument.toList with
  | '-' :: '-' :: rest => some (String.ofList rest)
  | '-' :: c :: rest => some (String.ofList (c :: rest))
  | _ => none

def splitValue (name : String) : String × Option String :=
  match name.toList with
  | [] => ("", none)
  | c :: rest =>
    if rest.contains '=' then
      (String.ofList (c :: rest.takeWhile (· != '=')),
        some (String.ofList ((rest.dropWhile (· != '=')).drop 1)))
    else (name, none)

def Options.read (options : Options) : List String → Except UsageError Options
  | [] => .ok options
  | argument :: rest =>
    match optionName? argument with
    | none => .ok { options with inputs := argument :: rest }
    | some whole =>
      if whole = "" then .ok { options with inputs := rest }
      else if Text.startsWith whole "-" || Text.startsWith whole "=" then
        .error (.badSyntax argument)
      else
        let (name, value) := splitValue whole
        match options.set name "", value with
        | none, _ =>
          .error (if name = "help" || name = "h" then .help else .undefined name)
        | some _, some value => read ((options.set name value).getD options) rest
        | some _, none =>
          match rest with
          | [] => .error (.needsArgument name)
          | value :: rest => read ((options.set name value).getD options) rest

def optionUsage (program : String) : List String :=
  ["Usage of " ++ program ++ ":",
    "  -delta-from string",
    "    \tprevious facts JSON to compute delta from",
    "  -delta-out string",
    "    \twrite delta JSON to file (requires --delta-from)",
    "  -files string",
    "    \tcomma-separated tree paths to keep in the facts and delta",
    "  -o string",
    "    \twrite facts JSON to file (shorthand)",
    "  -output string",
    "    \twrite facts JSON to file (default: stdout)"]

def usage : List String :=
  ["Usage: hdlgen-facts [--output file] [--files a,b] " ++
    "[--delta-from prev.json --delta-out delta.json] <outdir>"]

def keptFiles? (list : String) : Option (List String) :=
  if Text.isBlankText list then none
  else some (((Text.splitAt ',' list).map Text.trim).filter (· ≠ ""))

def readTables (tree : FileTree) (path : String) : Except Failure FactTables :=
  match tree.read path with
  | .error e => .error (.error e.message)
  | .ok text =>
    match (Json.readFirst? (Json.skipSpace text.toList)).bind fun (value, _) =>
        FactRecord.decode? value with
    | some record => .ok record.tables
    | none => .error .undecodable

def documentText (value : Json) : String :=
  value.indented ++ "\n"

def writeDelta (options : Options) (tables : FactTables) (kept : Option (List String))
    (answer : Answer) : Answer :=
  let refused (complaint : Complaint) : Answer :=
    { answer with exit := 1, complaints := answer.complaints ++ [complaint] }
  if options.deltaFrom = "" && options.deltaOut = "" then answer
  else if options.deltaFrom = "" || options.deltaOut = "" then
    refused (.text ["Error: --delta-from and --delta-out must be used together"])
  else
    match readTables answer.tree options.deltaFrom with
    | .error failure => refused (.failure "Error reading delta-from" failure)
    | .ok earlier =>
      let delta := Delta.between earlier tables
      let shown := (kept.map delta.ofFiles).getD delta
      match answer.tree.overwrite options.deltaOut (documentText shown.toJson) with
      | .ok tree => { answer with tree }
      | .error e => refused (.failure "Error writing delta" (.error e.message))

def report (tree : FileTree) (options : Options) (directory : String) : Answer :=
  match FactTables.survey tree directory with
  | .error failure => .refusal tree (.failure "Error" failure)
  | .ok tables =>
    if !tables.isValid then .refusal tree (.failure "Error" .offSchema)
    else
      let kept := keptFiles? options.files
      let shown := (kept.map tables.ofFiles).getD tables
      if options.output = "" then
        writeDelta options tables kept { output := documentText shown.toJson, tree }
      else
        match tree.overwrite options.output (documentText shown.toJson) with
        | .ok tree => writeDelta options tables kept { tree }
        | .error e => .refusal tree (.failure "Error writing facts" (.error e.message))

def run (program : String) (tree : FileTree) (arguments : List String) : Answer :=
  match Options.read {} arguments with
  | .error .help => { complaints := [.text (optionUsage program)], tree }
  | .error e => { exit := 2, complaints := [.text (e.lines ++ optionUsage program)], tree }
  | .ok options =>
    match options.inputs with
    | [] => .refusal tree (.text usage)
    | directory :: _ => report tree options directory

end Schematic.FactsCommand
