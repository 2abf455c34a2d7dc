import Schematic.Config.Basic
import Schematic.Facts.Tables
import Schematic.Sorting

/-! # Policy

Structural rules over the facts of a tree. A project may turn a rule off or change its severity. -/

namespace Schematic

/-- A breach of a rule. -/
structure Violation where
  rule : String
  severity : String
  file : String
  line : Int
  message : String
  deriving DecidableEq, Repr

namespace Policy

def unknownInstances (tables : FactTables) : List Violation :=
  let declared := tables.modules.map fun row => Text.lower row.name
  (tables.instances.filter fun row => !declared.contains (Text.lower row.target)).map fun row =>
    ⟨"unknown_instance", "error", row.file, row.line,
      "instance " ++ row.name ++ " targets undeclared module " ++ row.target⟩

def filesDeclaring (tables : FactTables) (name : String) : List String :=
  ((tables.modules.filter fun row => Text.lower row.name = Text.lower name).map (·.file)).eraseDups

def duplicateModules (tables : FactTables) : List Violation :=
  tables.modules.filterMap fun row =>
    let count := (filesDeclaring tables row.name).length
    if count > 1 then
      some ⟨"duplicate_module", "error", row.file, row.line,
        "module " ++ row.name ++ s!" is declared in {count} files"⟩
    else none

def crowdedFiles (tables : FactTables) : List Violation :=
  tables.files.filterMap fun row =>
    let count := (tables.modules.filter (·.file = row.path)).length
    if ["entity", "module"].contains row.role && count ≠ 1 then
      some ⟨"one_module_per_file", "warning", row.path, 1,
        row.role ++ s!" file declares {count} modules"⟩
    else none

def isLegalRest : List Char → Bool
  | [] => true
  | '_' :: c :: rest => c.isAlphanum && isLegalRest rest
  | c :: rest => c.isAlphanum && isLegalRest rest

def isLegalPortName (name : String) : Bool :=
  match name.toList with
  | [] => false
  | c :: rest => c.isAlpha && isLegalRest rest

def illegalPortNames (tables : FactTables) : List Violation :=
  (tables.ports.filter fun row => !isLegalPortName row.name).map fun row =>
    ⟨"illegal_port_name", "warning", row.file, row.line,
      "port " ++ row.name ++ " of " ++ row.module ++ " is not a legal identifier"⟩

def reportedLine (line : Int) : Int :=
  let (digits, power) := ((Binary64.ofDecimal? line.natAbs 0).getD .zero).shortest
  let size : Int := digits * Nat.pow 10 power.toNat
  max Word.least (min Word.greatest (if line < 0 then -size else size))

def foundBefore (a b : Violation) : Bool :=
  if a.file ≠ b.file then a.file < b.file
  else if a.line ≠ b.line then a.line < b.line
  else if a.message ≠ b.message then a.message < b.message
  else a.rule ≤ b.rule

def breaches (tables : FactTables) : List Violation :=
  let found := unknownInstances tables ++ duplicateModules tables ++ crowdedFiles tables ++
    illegalPortNames tables
  ((found.map fun violation => { violation with line := reportedLine violation.line }).eraseDups
    ).mergeSort foundBefore

def precedes (a b : Violation) : Bool :=
  if a.file ≠ b.file then a.file < b.file
  else if a.line ≠ b.line then a.line < b.line
  else a.rule < b.rule

def evaluate (config : Config) (tables : FactTables) : List Violation :=
  let enabled := (breaches tables).filter fun violation => config.checksRule violation.rule
  Sorting.sort precedes <| enabled.map fun violation =>
    { violation with severity := config.ruleSeverity violation.rule violation.severity }

def errors (violations : List Violation) : Nat :=
  (violations.filter (·.severity = "error")).length

end Policy

def Violation.toJson (violation : Violation) : Json :=
  .object [("rule", .string violation.rule), ("severity", .string violation.severity),
    ("file", .string violation.file), ("line", .ofInt violation.line),
    ("message", .string violation.message)]

def Policy.toJson (violations : List Violation) : Json :=
  let errors := Policy.errors violations
  .object [("violations", .array (violations.map Violation.toJson)),
    ("summary", .object [("total_violations", .ofInt violations.length),
      ("errors", .ofInt errors), ("warnings", .ofInt (violations.length - errors))])]

end Schematic
