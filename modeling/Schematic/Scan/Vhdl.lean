import Schematic.Scan.Facts

/-! # Scanning VHDL

What a line means depends on whether the scan is inside the ports of an entity or inside a component
declaration. -/

namespace Schematic.Scan.Vhdl

def opening? (keyword : String) (line : List Char) : Option (List Char) :=
  folded? keyword.toList (skipGap line)

def word? (text : List Char) : Option (String × List Char) :=
  (run? isFoldedWordChar text).map fun (word, rest) => (String.ofList word, rest)

def dottedWord? (text : List Char) : Option String :=
  (run? (fun c => isFoldedWordChar c || c == '.') text).map fun (word, _) => String.ofList word

def entity? (line : List Char) : Option String := do
  let (name, rest) ← word? (← gap? (← opening? "entity" line))
  let _ ← folded? "is".toList (← gap? rest)
  return name

def architecture? (line : List Char) : Option (String × String) := do
  let (name, rest) ← word? (← gap? (← opening? "architecture" line))
  let (entity, rest) ← word? (← gap? (← folded? "of".toList (← gap? rest)))
  let _ ← folded? "is".toList (← gap? rest)
  return (name, entity)

def package? (line : List Char) : Option String := do
  if Text.contains (Text.lower (String.ofList line)) "package body" then failure
  let (name, rest) ← word? (← gap? (← opening? "package" line))
  let _ ← folded? "is".toList (← gap? rest)
  return name

def component? (line : List Char) : Option String := do
  let (name, _) ← word? (← gap? (← opening? "component" line))
  return name

def library? (line : List Char) : Option String := do
  let (name, _) ← word? (← gap? (← opening? "library" line))
  return name

def use? (line : List Char) : Option String := do
  dottedWord? (← gap? (← opening? "use" line))

def isEnd (line : List Char) : Bool :=
  match opening? "end" line with
  | some rest => atBoundary rest
  | none => false

def signal? (line : List Char) : Option (String × String) := do
  let (name, rest) ← word? (← gap? (← opening? "signal" line))
  let rest ← mark? ':' (skipGap rest)
  let (type, rest) ← run? (fun c => c != ':' && c != ';') rest
  match rest with
  | ';' :: _ => return (name, Text.trim (String.ofList type))
  | ':' :: '=' :: value =>
    if value.contains ';' then return (name, Text.trim (String.ofList type)) else failure
  | _ => failure

def withoutClosing : (steps : Nat) → List Char → List Char
  | 0, type => type
  | steps + 1, type =>
    if type.getLast? == some ')' && type.count '(' < type.count ')' then
      withoutClosing steps (Text.dropEndWhile Text.isBlank type.dropLast)
    else type

def portType (text : List Char) : String :=
  let text := (Text.trim (String.ofList text)).toList
  let text := match Text.splitFirst? [':', '='] text with
    | some (before, _) => Text.dropEndWhile Text.isBlank before
    | none => text
  let text := if text.getLast? == some ';' then Text.dropEndWhile Text.isBlank text.dropLast
    else text
  String.ofList (withoutClosing text.length text)

def direction? (text : List Char) : Option (String × List Char) :=
  ["in", "out", "inout", "buffer"].findSome? fun direction =>
    ((folded? direction.toList text).filter fun rest => (gap? rest).isSome).map
      fun rest => (direction, rest)

def behindGap? (text : List Char) : Option (List Char) :=
  match skipGap text with
  | [] => if 2 ≤ text.length then some [] else none
  | rest => some rest

def portItem? (text : List Char) : Option (String × String × String) := do
  let (names, rest) ← wordList? isFoldedWordChar text
  let rest ← mark? ':' (skipGap rest)
  let (direction, rest) ← direction? (skipGap rest)
  let type ← behindGap? rest
  return (String.ofList names, direction, portType type)

def portOpening? (line : List Char) : Option (List Char) := do
  let rest ← opening? "port" line
  let rest ← mark? '(' (skipGap rest)
  return skipGap rest

def ports? (line : List Char) : Option (String × String × String) :=
  ((portOpening? line).bind portItem?) <|> portItem? (skipGap line)

def label? (line : List Char) : Option (String × List Char) := do
  let (label, rest) ← word? (skipGap line)
  let rest ← mark? ':' (skipGap rest)
  return (label, skipGap rest)

def entityInstance? (line : List Char) : Option (String × String) := do
  let (label, rest) ← label? line
  let target ← dottedWord? (← gap? (← folded? "entity".toList rest))
  return (label, (Text.splitAt '.' target).getLast?.getD target)

def startsMap (text : List Char) : Bool :=
  (folded? "generic".toList text).isSome || (folded? "port".toList text).isSome

def beforeMap? (done : List Char) : List Char → Option (List Char)
  | [] => none
  | c :: rest =>
    (beforeMap? (c :: done) rest) <|>
      (if !done.isEmpty && startsMap (c :: rest) then some done.reverse else none)

def componentInstance? (line : List Char) : Option (String × String) := do
  let (label, rest) ← label? line
  let (name, behind) ← run? isFoldedWordChar rest
  if startsMap (skipGap behind) then return (label, String.ofList name)
  let name ← beforeMap? [] name
  return (label, String.ofList name)

def instanceHead? (line : List Char) : Option (String × String) := do
  let (label, rest) ← label? line
  let (name, rest) ← word? rest
  if (skipGap rest).isEmpty then return (label, name) else failure

def opensMap (line : List Char) : Bool :=
  let behind := (opening? "generic" line) <|> (opening? "port" line)
  match behind.bind gap? |>.bind (folded? "map".toList) with
  | some rest => atBoundary rest
  | none => false

structure State where
  facts : Facts := {}
  inEntity : Bool := false
  inComponent : Bool := false
  scope : String := ""

def State.ports? (state : State) (number : Nat) (line : List Char) : Option (List Port) :=
  if state.inEntity && !state.inComponent then
    (Vhdl.ports? line).map fun (names, direction, type) =>
      (Text.splitAt ',' names).map fun name =>
        ⟨Text.trim name, direction, type, typeWidth type, number⟩
  else none

def instance? (line : List Char) (next : Option String) : Option (String × String) :=
  (entityInstance? line) <|> (componentInstance? line) <|>
    ((instanceHead? line).filter fun _ => match next with
      | some next => opensMap next.toList
      | none => false)

def State.scan (state : State) (number : Nat) (text : String) (next : Option String) : State :=
  let line := withoutComment "--" text
  let facts := state.facts
  if let some name := entity? line then
    { state with
      facts := { facts with entities := facts.entities ++ [⟨name, number, []⟩] }
      inEntity := true
      scope := name }
  else if let some name := component? line then
    { state with
      facts := { facts with uses := facts.uses ++ [⟨name, name, number, false, state.scope⟩] }
      inComponent := true }
  else if isEnd line then
    if state.inComponent then { state with inComponent := false }
    else { state with inEntity := false }
  else if let some ports := state.ports? number line then
    { state with facts := facts.addPorts ports }
  else if let some (name, entity) := architecture? line then
    { state with
      facts := { facts with architectures := facts.architectures ++ [⟨name, entity, number⟩] }
      scope := entity }
  else if let some name := package? line then
    { state with facts := { facts with packages := facts.packages ++ [⟨name, number⟩] } }
  else if let some target := library? line then
    { state with
      facts := { facts with dependencies := facts.dependencies ++ [⟨target, "library", number⟩] } }
  else if let some target := use? line then
    { state with
      facts := { facts with dependencies := facts.dependencies ++ [⟨target, "use", number⟩] } }
  else if let some (name, type) := signal? line then
    { state with
      facts := { facts with signals := facts.signals ++ [⟨name, type, number, state.scope⟩] } }
  else if let some (label, target) := instance? line next then
    { state with
      facts := { facts with uses := facts.uses ++ [⟨label, target, number, true, state.scope⟩] } }
  else state

def State.scanAll (state : State) (number : Nat) : List String → State
  | [] => state
  | line :: rest => (state.scan number line rest.head?).scanAll (number + 1) rest

def facts (text : String) : Facts :=
  (State.scanAll {} 1 (sourceLines text)).facts

end Schematic.Scan.Vhdl
