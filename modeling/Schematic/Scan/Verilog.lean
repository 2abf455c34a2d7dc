import Schematic.Scan.Facts

/-! # Scanning Verilog

Outside a module only module headers and include directives count. -/

namespace Schematic.Scan.Verilog

def keyword? (keyword : String) (text : List Char) : Option (List Char) :=
  Text.dropStart? keyword.toList text

def word? (text : List Char) : Option (String × List Char) :=
  (run? isWordChar text).map fun (word, rest) => (String.ofList word, rest)

def module? (line : List Char) : Option String := do
  let (name, _) ← word? (← gap? (← keyword? "module" (skipGap line)))
  return name

def isEnd (line : List Char) : Bool :=
  match keyword? "endmodule" (skipGap line) with
  | some rest => atBoundary rest
  | none => false

def include? (line : List Char) : Option String := do
  let rest ← gap? (← keyword? "`include" (skipGap line))
  let (file, rest) ← run? (· != '"') (← mark? '"' rest)
  let _ ← mark? '"' rest
  return String.ofList file

def range (text : List Char) : List Char × List Char :=
  match mark? '[' text with
  | some rest =>
    let inside := rest.takeWhile (· != ']')
    match mark? ']' (rest.dropWhile (· != ']')) with
    | some behind => ('[' :: inside ++ [']'], behind)
    | none => ([], text)
  | none => ([], text)

def oneOf? (words : List String) (text : List Char) : Option (List Char) :=
  words.findSome? fun word => (keyword? word text).bind gap?

def optional (words : List String) (text : List Char) : List (List Char) :=
  match oneOf? words text with
  | some rest => [rest, text]
  | none => [text]

def rangedWords? (text : List Char) : Option (String × String) :=
  let (range, rest) := range text
  (wordList? isWordChar (skipGap rest)).map fun (names, _) =>
    (String.ofList range, String.ofList names)

def rangedWord? (text : List Char) : Option (String × String) := do
  let (range, rest) := range text
  let (name, _) ← word? (skipGap rest)
  return (String.ofList range, name)

def direction? (line : List Char) : Option (String × List Char) :=
  [("input", "in"), ("output", "out"), ("inout", "inout")].findSome? fun (keyword, name) =>
    ((keyword? keyword (skipGap line)).bind gap?).map fun rest => (name, rest)

def ports? (line : List Char) : Option (String × String × String) := do
  let (direction, rest) ← direction? line
  let starts := (optional ["wire", "reg", "logic"] rest).flatMap (optional ["signed"])
  let (range, names) ← starts.findSome? rangedWords?
  return (direction, range, names)

def signal? (line : List Char) : Option (String × String × String) := do
  let (keyword, rest) ← ["wire", "reg"].findSome? fun keyword =>
    ((keyword? keyword (skipGap line)).bind gap?).map fun rest => (keyword, rest)
  let (range, name) ← (optional ["signed"] rest).findSome? rangedWord?
  return (keyword, range, name)

def keywords : List String :=
  ["module", "input", "output", "inout", "wire", "reg", "assign", "always", "initial", "if",
    "else", "case", "begin", "end", "function", "task", "parameter", "localparam", "generate",
    "for", "integer", "genvar"]

def parameterHead? (line : List Char) : Option String := do
  let (name, rest) ← word? (skipGap line)
  let rest ← mark? '#' (skipGap rest)
  let _ ← mark? '(' (skipGap rest)
  if keywords.contains name then failure else return name

def closingLabel? (line : List Char) : Option String := do
  let rest ← mark? ')' (skipGap line)
  let (label, rest) ← word? (skipGap rest)
  let _ ← mark? '(' (skipGap rest)
  return label

def instance? (line : List Char) : Option (String × String) := do
  let (name, rest) ← word? (skipGap line)
  let (label, rest) ← word? (← gap? rest)
  let _ ← mark? '(' (skipGap rest)
  if keywords.contains name then failure else return (name, label)

/-- What the scan knows of the lines before. -/
structure State where
  facts : Facts := {}
  current : Option String := none
  pending : String := ""

def State.scanInside (state : State) (current : String) (number : Nat) (line : List Char) : State :=
  let facts := state.facts
  if let some (direction, range, names) := ports? line then
    { state with
      facts := facts.addPorts ((Text.splitAt ',' names).map fun name =>
        ⟨Text.trim name, direction, range, rangeWidth range, number⟩) }
  else if let some (keyword, range, name) := signal? line then
    let type := Text.trim (keyword ++ " " ++ range)
    { state with
      facts := { facts with signals := facts.signals ++ [⟨name, type, number, current⟩] } }
  else if let some target := parameterHead? line then
    { state with pending := target }
  else if let some label := (closingLabel? line).filter fun _ => state.pending ≠ "" then
    { state with
      facts := { facts with uses := facts.uses ++ [⟨label, state.pending, number, true, current⟩] }
      pending := "" }
  else if let some (target, label) := instance? line then
    { state with
      facts := { facts with uses := facts.uses ++ [⟨label, target, number, true, current⟩] } }
  else state

def State.scan (state : State) (number : Nat) (text : String) : State :=
  let line := withoutComment "//" text
  let facts := state.facts
  if let some name := module? line then
    { state with
      facts := { facts with entities := facts.entities ++ [⟨name, number, []⟩] }
      current := some name }
  else if isEnd line then { state with current := none }
  else if let some target := include? line then
    { state with
      facts := { facts with dependencies := facts.dependencies ++ [⟨target, "include", number⟩] } }
  else
    match state.current with
    | some current => state.scanInside current number line
    | none => state

def State.scanAll (state : State) (number : Nat) : List String → State
  | [] => state
  | line :: rest => (state.scan number line).scanAll (number + 1) rest

def facts (text : String) : Facts :=
  (State.scanAll {} 1 (sourceLines text)).facts

end Schematic.Scan.Verilog
