import Schematic.Hdl.Dialect

/-! # Names and templates

A module name is made from a template whose marked words stand for properties of a component. -/

namespace Schematic

/-- The edge or level of the clock at which a component acts. -/
inductive Trigger where
  | rising
  | falling
  | high
  | low
  deriving DecidableEq, Repr

namespace Trigger

def named (text : String) : Trigger :=
  match Text.lower text with
  | "falling" => .falling
  | "falling_edge" => .falling
  | "high" => .high
  | "level_high" => .high
  | "low" => .low
  | "level_low" => .low
  | _ => .rising

def token : Trigger → String
  | .rising => "RISING_EDGE"
  | .falling => "FALLING_EDGE"
  | .high => "LEVEL_HIGH"
  | .low => "LEVEL_LOW"

end Trigger

end Schematic

namespace Schematic.Naming

def fallback : String := "UNLABELED"

def isLetter (c : Char) : Bool :=
  ('a' ≤ c && c ≤ 'z') || ('A' ≤ c && c ≤ 'Z')

def isWordChar (c : Char) : Bool :=
  isLetter c || ('0' ≤ c && c ≤ '9')

def startsWithLetter (text : String) : Bool :=
  match text.toList with
  | c :: _ => isLetter c
  | [] => false

def wordsOf (text : String) : String :=
  "_".intercalate (Text.fields (fun c => !isWordChar c) text)

def sanitize (text : String) : String :=
  let name := wordsOf text
  if name = "" then "L_" ++ fallback
  else if !startsWithLetter name || Hdl.isReserved name then "L_" ++ name
  else name

/-- What the marked words of a template stand for. -/
structure Variables where
  circuit : String
  label : String
  width : Int
  trigger : Trigger

/-- A problem met in a template that does not prevent a name. -/
inductive Issue where
  | emptyLabel (template : String)
  deriving DecidableEq, Repr

def Issue.message : Issue → String
  | .emptyLabel template =>
    "empty label substituted in " ++ Text.quote template ++ ", using " ++ fallback

def marked (word : String) : String :=
  "$\x7b" ++ word ++ "\x7d"

def firstMatch? (replacements : List (String × String)) (text : List Char) :
    Option (Nat × String) :=
  replacements.findSome? fun (pattern, value) =>
    (Text.dropStart? pattern.toList text).map fun _ => (pattern.length, value)

def substituteFrom (replacements : List (String × String)) : (skip : Nat) → List Char → List Char
  | _, [] => []
  | skip + 1, _ :: rest => substituteFrom replacements skip rest
  | 0, c :: rest =>
    match firstMatch? replacements (c :: rest) with
    | some (length, value) => value.toList ++ substituteFrom replacements (length - 1) rest
    | none => c :: substituteFrom replacements 0 rest

def substitute (replacements : List (String × String)) (text : String) : String :=
  String.ofList (substituteFrom replacements 0 text.toList)

def lacksLabel (template : String) (values : Variables) : Bool :=
  Text.contains template (marked "LABEL") && Text.isBlankText values.label

def replacements (template : String) (values : Variables) : List (String × String) :=
  [(marked "CIRCUIT", values.circuit),
    (marked "LABEL", if lacksLabel template values then fallback else values.label),
    (marked "WIDTH", toString values.width),
    (marked "BUS", if values.width > 1 then "_BUS" else ""),
    (marked "TRIGGER", values.trigger.token)]

def expand (template : String) (values : Variables) : String :=
  sanitize (substitute (replacements template values) template)

def expandIssue (template : String) (values : Variables) (labelRequired : Bool) :
    Option Issue :=
  if lacksLabel template values && labelRequired then some (.emptyLabel template) else none

end Schematic.Naming
