/-! # Failures

An ordinary error concerns its input, a fatal one discards one module, and an abort ends the whole
operation. -/

namespace Schematic

/-- Why an operation cannot go on at all. -/
inductive Abort where
  | zeroWidth (signal : String)
  | genericNumber (number : Int)
  | length
  | absentEntry
  | index
  deriving DecidableEq, Repr

def greatestSize : Nat := Nat.pow 2 48

def storable (size : Nat) (length : Int) : Except Abort Nat :=
  if length < 0 || (greatestSize : Int) < length * size then .error .length else .ok length.toNat

def Abort.message? : Abort → Option String
  | .zeroWidth signal => some s!"hdl: signal {signal} declared with zero width"
  | .genericNumber number => some s!"hdl: generic id {number} is not negative"
  | .length => none
  | .absentEntry => none
  | .index => none

/-- Why an operation gave no result. -/
inductive Failure where
  | error (text : String)
  | fatal (context : String) (module : String) (reason : String)
  | undecodable
  | offSchema
  | abort (reason : Abort)
  deriving DecidableEq, Repr

namespace Failure

def fatalText (module reason : String) : String :=
  if module == "" then reason else s!"{module}: {reason}"

def message : Failure → String
  | .error text => text
  | .fatal context module reason => context ++ fatalText module reason
  | .undecodable => "malformed text"
  | .offSchema => "schema validation failed"
  | .abort reason => reason.message?.getD "invalid length or reference"

def asFatal (module : String) : Failure → Failure
  | .fatal _ owner reason => .fatal "" owner reason
  | .abort reason => .abort reason
  | failure => .fatal "" module failure.message

def within (context : String) : Failure → Failure
  | .error text => .error s!"{context}: {text}"
  | .fatal inner module reason => .fatal s!"{context}: {inner}" module reason
  | failure => failure

def abort? : Failure → Option Abort
  | .abort reason => some reason
  | _ => none

end Failure

def checkAll {ε α : Type} (check : α → Except ε Unit) : List α → Except ε Unit
  | [] => .ok ()
  | item :: rest =>
    match check item with
    | .error e => .error e
    | .ok () => checkAll check rest

end Schematic
