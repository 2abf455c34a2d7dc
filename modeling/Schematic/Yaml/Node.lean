import Schematic.Yaml.Token

/-! # Nodes of YAML texts

The first document of a text is read as a tree of nodes. An alias keeps the number of the node that
its name stands for. -/

namespace Schematic

inductive Yaml where
  | scalar (text tag : String)
  | sequence (items : List Yaml)
  | mapping (entries : List (Yaml × Yaml))
  | alias (name : String) (number anchor : Nat)

namespace Yaml

def absent : Yaml := .scalar "" ""

def shortTag (tag : String) : String :=
  match Text.dropStart? "tag:yaml.org,2002:".toList tag.toList with
  | some rest => "!!" ++ String.ofList rest
  | none => tag

/-- A document with the nodes of its anchors. -/
structure Document where
  root : Yaml
  anchored : List (Nat × Yaml)

structure Reading where
  scanner : Scanner
  anchors : List (String × Nat) := []
  anchored : List (Nat × Yaml) := []
  count : Nat := 0
  handles : List (String × String) := []

abbrev Reader (α : Type) := StateT Reading Option α

namespace Reader

def peek : Reader Token := do
  let reading ← get
  let scanner ← (reading.scanner.ahead? (2 * reading.scanner.cursor.limit + 8) : Option _)
  set { reading with scanner }
  (scanner.queue.head? : Option _)

def skip : Reader Unit :=
  modify fun reading =>
    { reading with
      scanner := { reading.scanner with
        queue := reading.scanner.queue.drop 1
        taken := reading.scanner.taken + 1 } }

def next : Reader Token := do
  skip
  peek

def begin : (anchor : Option String) → Reader (Option Nat)
  | none => return none
  | some name => do
    let reading ← get
    let number := reading.count
    set { reading with
      count := number + 1
      anchors := (name, number) :: reading.anchors.filter fun entry => entry.1 ≠ name }
    return some number

def complete (number : Option Nat) (node : Yaml) : Reader Yaml := do
  if let some number := number then
    modify fun reading => { reading with anchored := (number, node) :: reading.anchored }
  return node

def aliasNode (name : String) : Reader Yaml := do
  let reading ← get
  match reading.anchors.lookup name with
  | some anchor =>
    set { reading with count := reading.count + 1 }
    skip
    return .alias name reading.count anchor
  | none => failure

def tagText (handle suffix : String) : Reader String := do
  if handle = "" then return suffix
  else
    match (← get).handles.find? fun entry => entry.1 = handle with
    | some (_, expansion) =>
      if expansion ++ suffix = "" then failure else return expansion ++ suffix
    | none => failure

def properties : Reader (Option String × String × Token) := do
  match ← peek with
  | .anchor name =>
    match ← next with
    | .tag handle suffix =>
      let token ← next
      return (some name, ← tagText handle suffix, token)
    | token => return (some name, "", token)
  | .tag handle suffix =>
    match ← next with
    | .anchor name =>
      let token ← next
      return (some name, ← tagText handle suffix, token)
    | token => return (none, ← tagText handle suffix, token)
  | token => return (none, "", token)

def scalarNode (text tag : String) (isPlain : Bool) : Yaml :=
  .scalar text <|
    if tag ≠ "" && tag ≠ "!" then shortTag tag
    else if !isPlain then "!!str"
    else if text = "<<" then "!!merge"
    else ""

mutual

def node (block unindented : Bool) : (steps : Nat) → Reader Yaml
  | 0 => failure
  | steps + 1 => do
    match ← peek with
    | .alias name => aliasNode name
    | _ =>
      let (anchor, tag, token) ← properties
      if unindented && token = .blockEntry then
        let number ← begin anchor
        complete number (.sequence (← unindentedItems steps))
      else
        match token, block with
        | .scalar text isPlain, _ =>
          let number ← begin anchor
          skip
          complete number (scalarNode text tag isPlain)
        | .flowSequenceStart, _ =>
          let number ← begin anchor
          skip
          complete number (.sequence (← flowItems true steps))
        | .flowMappingStart, _ =>
          let number ← begin anchor
          skip
          complete number (.mapping (← flowEntries true steps))
        | .blockSequenceStart, true =>
          let number ← begin anchor
          skip
          complete number (.sequence (← blockItems steps))
        | .blockMappingStart, true =>
          let number ← begin anchor
          skip
          complete number (.mapping (← blockEntries steps))
        | _, _ =>
          if anchor.isSome || tag ≠ "" then
            let number ← begin anchor
            complete number (scalarNode "" tag true)
          else failure

def blockItems : (steps : Nat) → Reader (List Yaml)
  | 0 => failure
  | steps + 1 => do
    match ← peek with
    | .blockEntry =>
      let token ← next
      let item ←
        if token = .blockEntry || token = .blockEnd then pure absent else node true false steps
      return item :: (← blockItems steps)
    | .blockEnd =>
      skip
      return []
    | _ => failure

def unindentedItems : (steps : Nat) → Reader (List Yaml)
  | 0 => failure
  | steps + 1 => do
    match ← peek with
    | .blockEntry =>
      let token ← next
      let item ←
        if [.blockEntry, .key, .value, .blockEnd].contains token then pure absent
        else node true false steps
      return item :: (← unindentedItems steps)
    | _ => return []

def blockPart : (steps : Nat) → Reader Yaml
  | 0 => failure
  | steps + 1 => do
    if [.key, .value, .blockEnd].contains (← next) then return absent
    else node true true steps

def blockEntries : (steps : Nat) → Reader (List (Yaml × Yaml))
  | 0 => failure
  | steps + 1 => do
    match ← peek with
    | .key =>
      let key ← blockPart steps
      let value ← match ← peek with
        | .value => blockPart steps
        | _ => pure absent
      return (key, value) :: (← blockEntries steps)
    | .blockEnd =>
      skip
      return []
    | _ => failure

def flowItems (first : Bool) : (steps : Nat) → Reader (List Yaml)
  | 0 => failure
  | steps + 1 => do
    let token ← peek
    if token = .flowSequenceEnd then
      skip
      return []
    else
      let token ←
        if first then pure token
        else if token = .flowEntry then next
        else failure
      match token with
      | .key =>
        let token ← next
        let key ←
          if [.value, .flowEntry, .flowSequenceEnd].contains token then do
            skip
            pure absent
          else node false false steps
        let value ← match ← peek with
          | .value =>
            if [.flowEntry, .flowSequenceEnd].contains (← next) then pure absent
            else node false false steps
          | _ => pure absent
        let _ ← peek
        return .mapping [(key, value)] :: (← flowItems false steps)
      | .flowSequenceEnd =>
        skip
        return []
      | _ =>
        let item ← node false false steps
        return item :: (← flowItems false steps)

def flowEntries (first : Bool) : (steps : Nat) → Reader (List (Yaml × Yaml))
  | 0 => failure
  | steps + 1 => do
    let token ← peek
    if token = .flowMappingEnd then
      skip
      return []
    else
      let token ←
        if first then pure token
        else if token = .flowEntry then next
        else failure
      match token with
      | .key =>
        let token ← next
        let key ←
          if [.value, .flowEntry, .flowMappingEnd].contains token then pure absent
          else node false false steps
        let value ← match ← peek with
          | .value =>
            if [.flowEntry, .flowMappingEnd].contains (← next) then pure absent
            else node false false steps
          | _ => pure absent
        return (key, value) :: (← flowEntries false steps)
      | .flowMappingEnd =>
        skip
        return []
      | _ =>
        let key ← node false false steps
        let _ ← peek
        return (key, absent) :: (← flowEntries false steps)

end

def directives (versioned : Bool) : (steps : Nat) → Reader Unit
  | 0 => failure
  | steps + 1 => do
    match ← peek with
    | .version major minor =>
      if versioned || major ≠ 1 || minor ≠ 1 then failure
      else
        skip
        directives true steps
    | .handle name expansion =>
      let reading ← get
      if reading.handles.any fun entry => entry.1 = name then failure
      else
        set { reading with handles := reading.handles ++ [(name, expansion)] }
        skip
        directives versioned steps
    | _ =>
      modify fun reading =>
        { reading with
          handles := reading.handles ++ [("!", "!"), ("!!", "tag:yaml.org,2002:")] }

def document (steps : Nat) : Reader Yaml := do
  match ← peek with
  | .streamStart =>
    let node ← match ← next with
      | .streamEnd =>
        skip
        return absent
      | .version _ _ => stated
      | .handle _ _ => stated
      | .documentStart => stated
      | _ =>
        directives false steps
        node true false steps
    let _ ← peek
    return node
  | _ => failure
where
  stated : Reader Yaml := do
    directives false steps
    match ← peek with
    | .documentStart =>
      match ← next with
      | .version _ _ => return absent
      | .handle _ _ => return absent
      | .documentStart => return absent
      | .documentEnd => return absent
      | .streamEnd => return absent
      | _ => node true false steps
    | _ => failure

end Reader

def chunkSize : Nat := 512

def readable : (steps : Nat) → List Char → List Char × Bool
  | 0, _ => ([], true)
  | steps + 1, text =>
    let chunk := part chunkSize text
    if chunk.all isAllowed then
      if chunk.length = text.length then (text, false)
      else
        let (rest, broken) := readable steps (text.drop chunk.length)
        (chunk ++ rest, broken)
    else ([], true)
where
  part : Nat → List Char → List Char
    | _, [] => []
    | room, c :: rest =>
      if c.utf8Size ≤ room then c :: part (room - c.utf8Size) rest else []

def read? (text : String) : Option Document :=
  let (characters, broken) := readable (text.utf8ByteSize + 1) text.toList
  let characters := match characters with
    | '\ufeff' :: rest => rest
    | characters => characters
  let scanner : Scanner :=
    { cursor := { rest := characters, limit := characters.length + 1 }, broken }
  ((Reader.document (2 * characters.length + 8)).run { scanner }).map fun (root, reading) =>
    ⟨root, reading.anchored⟩

end Yaml

end Schematic
