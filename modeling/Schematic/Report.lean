import Schematic.Failure
import Schematic.Json.Value

/-! # Reports

The messages of a run in their order. They outlive the failure of the computation that reported
them. -/

namespace Schematic

/-- How serious a message is. -/
inductive Severity where
  | warning
  | severe
  | fatal
  deriving DecidableEq, Repr

namespace Severity

def name : Severity → String
  | .warning => "warning"
  | .severe => "severe"
  | .fatal => "fatal"

def named? (text : String) : Except String Severity :=
  match text with
  | "warning" => .ok .warning
  | "severe" => .ok .severe
  | "fatal" => .ok .fatal
  | _ => .error ("unknown severity " ++ Text.quote text)

end Severity

/-- One message, with the circuit and the module it concerns; either may be empty. -/
structure Message where
  severity : Severity
  circuit : String
  module : String
  text : String
  deriving DecidableEq, Repr

namespace Message

def line (message : Message) : String :=
  let place := if message.module ≠ "" then message.module else message.circuit
  if place = "" then message.severity.name ++ ": " ++ message.text
  else message.severity.name ++ ": " ++ place ++ ": " ++ message.text

def ofFailure (circuit : String) (failure : Failure) : Message :=
  match failure with
  | .fatal _ module reason => ⟨.fatal, circuit, module, reason⟩
  | failure => ⟨.fatal, circuit, "", failure.message⟩

end Message

abbrev Reporting (α : Type) := ExceptT Failure (StateM (List Message)) α

namespace Reporting

def report (message : Message) : Reporting Unit :=
  modify (· ++ [message])

def outcome {α : Type} (computation : Reporting α) (earlier : List Message) :
    Except Failure α × List Message :=
  (ExceptT.run computation).run earlier

end Reporting

structure Summary where
  messages : List Message
  files : List String := []

namespace Summary

def count (summary : Summary) (severity : Severity) : Nat :=
  (summary.messages.filter (·.severity = severity)).length

def success (summary : Summary) : Bool :=
  summary.count .fatal == 0

end Summary

def Message.toJson (message : Message) : Json :=
  let named (name text : String) : List (String × Json) :=
    if text = "" then [] else [(name, .string text)]
  .object <|
    [("severity", .string message.severity.name)] ++ named "circuit" message.circuit ++
    named "module" message.module ++ [("text", .string message.text)]

def Summary.toJson (summary : Summary) : Json :=
  .object <|
    [("success", .bool summary.success),
      ("counts", .object [("fatal", .ofInt (summary.count .fatal)),
        ("severe", .ofInt (summary.count .severe)), ("warning", .ofInt (summary.count .warning))]),
      ("messages", .array (summary.messages.map Message.toJson))] ++
    if summary.files.isEmpty then [] else [("files", .ofTexts summary.files)]

end Schematic
