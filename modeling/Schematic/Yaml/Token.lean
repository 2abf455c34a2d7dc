import Schematic.Yaml.Scalar

/-! # Tokens of YAML texts

Whether something is a key is only known at the colon behind it. The token that says so is put
before what has been read, which is why tokens are read ahead. -/

namespace Schematic.Yaml

inductive Token where
  | streamStart
  | streamEnd
  | version (major minor : Nat)
  | handle (name expansion : String)
  | documentStart
  | documentEnd
  | blockSequenceStart
  | blockMappingStart
  | blockEnd
  | flowSequenceStart
  | flowSequenceEnd
  | flowMappingStart
  | flowMappingEnd
  | blockEntry
  | flowEntry
  | key
  | value
  | alias (name : String)
  | anchor (name : String)
  | tag (handle suffix : String)
  | scalar (text : String) (isPlain : Bool)
  deriving DecidableEq, Repr

/-- Something that is a key if a colon follows. -/
structure KeyMark where
  possible : Bool
  required : Bool
  number : Nat
  index : Nat
  line : Nat
  column : Nat

/-- The tokens read ahead, and the place behind them. -/
structure Scanner where
  cursor : Cursor
  broken : Bool := false
  started : Bool := false
  keyAllowed : Bool := false
  flow : Nat := 0
  indent : Int := -1
  indents : List Int := []
  marks : List KeyMark := []
  watched : List (Nat × Nat) := []
  queue : List Token := []
  taken : Nat := 0

namespace Scanner

def deepest : Nat := 10000

def longestKey : Nat := 1024

def push (scanner : Scanner) (token : Token) : Scanner :=
  { scanner with queue := scanner.queue ++ [token] }

def insert (scanner : Scanner) (number : Nat) (token : Token) : Scanner :=
  if number < scanner.taken then scanner.push token
  else
    let position := number - scanner.taken
    { scanner with queue := scanner.queue.take position ++ token :: scanner.queue.drop position }

def nextNumber (scanner : Scanner) : Nat :=
  scanner.taken + scanner.queue.length

def holds? (scanner : Scanner) (mark : KeyMark) : Option Bool :=
  if !mark.possible then some false
  else if mark.line < scanner.cursor.line || mark.index + longestKey < scanner.cursor.index then
    if mark.required then none else some false
  else some true

def dropMark? (scanner : Scanner) : Option Scanner :=
  match scanner.marks with
  | mark :: marks =>
    if mark.possible then
      if mark.required then none
      else
        some { scanner with
          marks := { mark with possible := false } :: marks
          watched := scanner.watched.filter fun entry => entry.1 ≠ mark.number }
    else some scanner
  | [] => some scanner

def saveMark? (scanner : Scanner) : Option Scanner :=
  if scanner.keyAllowed then do
    let cursor := scanner.cursor
    let mark : KeyMark :=
      { possible := true
        required := scanner.flow = 0 && scanner.indent = cursor.column
        number := scanner.nextNumber
        index := cursor.index
        line := cursor.line
        column := cursor.column }
    let scanner ← scanner.dropMark?
    return { scanner with
      marks := mark :: scanner.marks.drop 1
      watched := (mark.number, scanner.marks.length) ::
        scanner.watched.filter fun entry => entry.1 ≠ mark.number }
  else some scanner

def indentTo? (scanner : Scanner) (column : Nat) (number : Option Nat) (token : Token) :
    Option Scanner :=
  if scanner.flow = 0 && scanner.indent < column then
    let indents := scanner.indent :: scanner.indents
    if indents.length > deepest then none
    else
      let scanner := { scanner with indent := column, indents }
      some (match number with
        | some number => scanner.insert number token
        | none => scanner.push token)
  else some scanner

def unindentTo (scanner : Scanner) (column : Int) : Scanner :=
  if scanner.flow = 0 then go scanner.indents scanner else scanner
where
  go : List Int → Scanner → Scanner
    | [], scanner => scanner
    | outer :: indents, scanner =>
      if scanner.indent > column then
        go indents { scanner.push .blockEnd with indent := outer, indents }
      else scanner

def toToken : (steps : Nat) → Scanner → Scanner
  | 0, scanner => scanner
  | steps + 1, scanner =>
    let cursor := scanner.cursor
    let cursor := if cursor.column = 0 && cursor.sees '\ufeff' then cursor.skip else cursor
    let tabs := scanner.flow > 0 || !scanner.keyAllowed
    let cursor := cursor.skipWhile fun c => c == ' ' || (tabs && c == '\t')
    let cursor :=
      if cursor.sees '#' then cursor.skipComments cursor.limit else cursor
    if cursor.rest.isEmpty || !atBreak cursor.rest then { scanner with cursor }
    else
      toToken steps
        { scanner with
          cursor := cursor.skipBreak
          keyAllowed := scanner.keyAllowed || scanner.flow = 0 }

def take (scanner : Scanner) (token : Token) : Scanner :=
  { scanner.push token with cursor := scanner.cursor.skip }

def nameBehind (cursor : Cursor) : String × Cursor :=
  (String.ofList (cursor.skip.rest.takeWhile isNameChar), cursor.skip.skipWhile isNameChar)

def anchorName? (cursor : Cursor) : Option (String × Cursor) :=
  let (name, cursor) := nameBehind cursor
  let ends := atBlank cursor.rest ||
    (cursor.head?.map ['?', ':', ',', ']', '\x7d', '%', '@', Char.ofNat 0x60].contains).getD false
  if name ≠ "" && ends then some (name, cursor) else none

def isTagChar (c : Char) : Bool :=
  isNameChar c ||
    [';', '/', '?', ':', '@', '&', '=', '+', '$', '.', '!', '~', '*', '\'', '(', ')', '%', ',', '[',
      ']'].contains c

def escapedByte? : List Char → Option (Nat × List Char)
  | '%' :: a :: b :: rest => do
    let high ← Word.digitValue? 16 a
    let low ← Word.digitValue? 16 b
    return (16 * high + low, rest)
  | _ => none

def furtherBytes? : (count value : Nat) → List Char → Option (Nat × List Char)
  | 0, value, text => some (value, text)
  | count + 1, value, text => do
    let (byte, text) ← escapedByte? text
    if byte / 64 = 2 then furtherBytes? count (64 * value + byte % 64) text else none

def escapedChar? (text : List Char) : Option (Char × List Char) := do
  let (byte, text) ← escapedByte? text
  let (value, text) ←
    if byte < 0x80 then some (byte, text)
    else if byte / 32 = 6 then furtherBytes? 1 (byte % 32) text
    else if byte / 16 = 14 then furtherBytes? 2 (byte % 16) text
    else if byte / 8 = 30 then furtherBytes? 3 (byte % 8) text
    else none
  return (Char.ofNat value, text)

def tagText? : (steps : Nat) → List Char → Option (List Char)
  | 0, _ => none
  | _ + 1, [] => some []
  | steps + 1, '%' :: rest => do
    let (c, rest) ← escapedChar? ('%' :: rest)
    let others ← tagText? steps rest
    return c :: others
  | steps + 1, c :: rest => (tagText? steps rest).map (c :: ·)

def readTagText? (start : List Char) (cursor : Cursor) : Option (String × Cursor) := do
  let spelled := cursor.rest.takeWhile isTagChar
  let text ← tagText? (spelled.length + 1) spelled
  if start.isEmpty && spelled.isEmpty then none
  else some (String.ofList (start.drop 1 ++ text), cursor.skipMany spelled.length)

def readHandle (cursor : Cursor) : String × Cursor :=
  let (name, cursor) := nameBehind cursor
  if cursor.sees '!' then ("!" ++ name ++ "!", cursor.skip) else ("!" ++ name, cursor)

def readTag? (cursor : Cursor) : Option (Token × Cursor) := do
  let (token, cursor) ←
    match cursor.rest with
    | _ :: '<' :: _ => do
      let (suffix, cursor) ← readTagText? [] (cursor.skipMany 2)
      if cursor.sees '>' then some (Token.tag "" suffix, cursor.skip) else none
    | _ =>
      let (handle, behind) := readHandle cursor
      if 1 < handle.length && handle.endsWith "!" then do
        let (suffix, cursor) ← readTagText? [] behind
        return (Token.tag handle suffix, cursor)
      else do
        let (suffix, cursor) ← readTagText? handle.toList behind
        return (if suffix = "" then Token.tag "" "!" else Token.tag "!" suffix, cursor)
  if atBlank cursor.rest then some (token, cursor) else none

def readVersion? (cursor : Cursor) : Option (Nat × Cursor) := do
  let digits := cursor.rest.takeWhile Char.isDigit
  if digits.isEmpty || 2 < digits.length then none
  else
    let value ← Word.digitsValue? 10 digits
    return (value, cursor.skipMany digits.length)

def readDirective? (cursor : Cursor) : Option (Token × Cursor) := do
  let (name, cursor) := nameBehind cursor
  if !atBlank cursor.rest then none
  else
    let cursor := cursor.skipWhile isBlank
    let (token, cursor) ←
      if name = "YAML" then do
        let (major, cursor) ← readVersion? cursor
        if !cursor.sees '.' then none
        else
          let (minor, cursor) ← readVersion? cursor.skip
          return (Token.version major minor, cursor)
      else if name = "TAG" && cursor.sees '!' then do
        let (handle, cursor) := readHandle cursor
        if !(handle = "!" || (1 < handle.length && handle.endsWith "!")) then none
        else if !(cursor.head?.map isBlank).getD false then none
        else
          let (expansion, cursor) ← readTagText? [] (cursor.skipWhile isBlank)
          if atBlank cursor.rest then some (Token.handle handle expansion, cursor) else none
      else none
    let cursor := cursor.skipWhile isBlank
    let cursor := if cursor.sees '#' then cursor.skipLine else cursor
    if atBreak cursor.rest then some (token, cursor.skipBreak) else none

def betweenDocuments? (scanner : Scanner) : Option Scanner := do
  let scanner ← (scanner.unindentTo (-1)).dropMark?
  return { scanner with keyAllowed := false }

def openFlow? (scanner : Scanner) (token : Token) : Option Scanner := do
  let scanner ← scanner.saveMark?
  let cursor := scanner.cursor
  let mark : KeyMark :=
    ⟨false, false, scanner.nextNumber, cursor.index, cursor.line, cursor.column⟩
  if scanner.flow ≥ deepest then none
  else
    return { scanner with
      marks := mark :: scanner.marks
      flow := scanner.flow + 1
      keyAllowed := true }.take token

def closeFlow? (scanner : Scanner) (token : Token) : Option Scanner := do
  let scanner ← scanner.dropMark?
  let scanner := match scanner.flow, scanner.marks with
    | flow + 1, mark :: marks =>
      { scanner with
        flow
        marks
        watched := scanner.watched.filter fun entry => entry.1 ≠ mark.number }
    | _, _ => scanner
  return { scanner with keyAllowed := false }.take token

def takeEntry? (scanner : Scanner) : Option Scanner := do
  let scanner ←
    if scanner.flow > 0 then some scanner
    else if scanner.keyAllowed then
      scanner.indentTo? scanner.cursor.column none .blockSequenceStart
    else none
  let scanner ← scanner.dropMark?
  return { scanner with keyAllowed := true }.take .blockEntry

def takeKey? (scanner : Scanner) : Option Scanner := do
  let scanner ←
    if scanner.flow > 0 then some scanner
    else if scanner.keyAllowed then
      scanner.indentTo? scanner.cursor.column none .blockMappingStart
    else none
  let scanner ← scanner.dropMark?
  return { scanner with keyAllowed := scanner.flow = 0 }.take .key

def takeValue? (scanner : Scanner) : Option Scanner := do
  match scanner.marks with
  | [] => none
  | mark :: marks =>
    if ← scanner.holds? mark then
      let scanner ← (scanner.insert mark.number .key).indentTo? mark.column (some mark.number)
        .blockMappingStart
      return { scanner with
        marks := { mark with possible := false } :: marks
        watched := scanner.watched.filter fun entry => entry.1 ≠ mark.number
        keyAllowed := false }.take .value
    else
      let scanner := { scanner with marks := { mark with possible := false } :: marks }
      let scanner ←
        if scanner.flow > 0 then some scanner
        else if scanner.keyAllowed then
          scanner.indentTo? scanner.cursor.column none .blockMappingStart
        else none
      return { scanner with keyAllowed := scanner.flow = 0 }.take .value

def takeAtom? (scanner : Scanner) (read : Cursor → Option (Token × Cursor)) : Option Scanner := do
  let scanner ← scanner.saveMark?
  let (token, cursor) ← read scanner.cursor
  return { scanner with keyAllowed := false, cursor }.push token

def takePlain? (scanner : Scanner) : Option Scanner := do
  let scanner ← scanner.saveMark?
  let cursor := scanner.cursor
  let (text, crossed, cursor) ←
    plain? (scanner.flow > 0) (scanner.indent + 1) cursor.limit [] {} cursor
  return { scanner with keyAllowed := crossed, cursor }.push (.scalar text true)

def takeBlock? (scanner : Scanner) (literal : Bool) : Option Scanner := do
  let scanner ← scanner.dropMark?
  let (text, cursor) ← block? literal scanner.indent scanner.cursor.skip
  return { scanner with keyAllowed := true, cursor }.push (.scalar text false)

def indicators : List Char :=
  ['-', '?', ':', ',', '[', ']', '\x7b', '\x7d', '#', '&', '*', '!', '|', '>', '\'', '"', '%', '@',
    Char.ofNat 0x60]

def takeContent? (scanner : Scanner) : Option Scanner :=
  match scanner.cursor.rest with
  | [] => none
  | c :: rest =>
    let inFlow := scanner.flow > 0
    if c == '[' then scanner.openFlow? .flowSequenceStart
    else if c == '\x7b' then scanner.openFlow? .flowMappingStart
    else if c == ']' then scanner.closeFlow? .flowSequenceEnd
    else if c == '\x7d' then scanner.closeFlow? .flowMappingEnd
    else if c == ',' then
      scanner.dropMark?.map fun scanner => { scanner with keyAllowed := true }.take .flowEntry
    else if c == '-' && atBlank rest then scanner.takeEntry?
    else if c == '?' && (inFlow || atBlank rest) then scanner.takeKey?
    else if c == ':' && (inFlow || atBlank rest) then scanner.takeValue?
    else if c == '*' then
      scanner.takeAtom? fun cursor =>
        (anchorName? cursor).map fun (name, cursor) => (.alias name, cursor)
    else if c == '&' then
      scanner.takeAtom? fun cursor =>
        (anchorName? cursor).map fun (name, cursor) => (.anchor name, cursor)
    else if c == '!' then scanner.takeAtom? readTag?
    else if c == '|' && !inFlow then scanner.takeBlock? true
    else if c == '>' && !inFlow then scanner.takeBlock? false
    else if c == '\'' || c == '"' then
      scanner.takeAtom? fun cursor =>
        (quoted? (c == '\'') cursor.limit [] cursor.skip).map fun (text, cursor) =>
          (.scalar text false, cursor)
    else if !(isBlank c || isBreak c || indicators.contains c) ||
        (c == '-' && !(rest.head?.map isBlank).getD false) ||
        (!inFlow && (c == '?' || c == ':') && !atBlank rest) then
      scanner.takePlain?
    else none

def more? (scanner : Scanner) : Option Scanner := do
  if !scanner.started then
    let cursor := scanner.cursor
    return { scanner with
      started := true
      keyAllowed := true
      marks := [⟨false, false, 0, cursor.index, cursor.line, cursor.column⟩] }.push .streamStart
  else
    let scanner := scanner.toToken scanner.cursor.limit
    let scanner := scanner.unindentTo scanner.cursor.column
    let cursor := scanner.cursor
    let scanner ←
      if scanner.broken && (cursor.rest.drop 3).isEmpty then none
      else if cursor.rest.isEmpty then do
        let cursor :=
          if cursor.column = 0 then cursor else { cursor with column := 0, line := cursor.line + 1 }
        let scanner ← { scanner with cursor }.betweenDocuments?
        return scanner.push .streamEnd
      else if cursor.column = 0 && cursor.sees '%' then do
        let scanner ← scanner.betweenDocuments?
        let (token, cursor) ← readDirective? cursor
        return { scanner with cursor }.push token
      else if cursor.betweenDocuments then do
        let scanner ← scanner.betweenDocuments?
        return { scanner with cursor := cursor.skipMany 3 }.push
          (if cursor.sees '-' then .documentStart else .documentEnd)
      else do
        let scanner ← scanner.takeContent?
        return if scanner.queue.getLast? = some .blockEntry then scanner
          else { scanner with cursor := scanner.cursor.skipComment }
    if scanner.broken && scanner.cursor.rest.isEmpty then none else some scanner

def ahead? : (steps : Nat) → Scanner → Option Scanner
  | 0, _ => none
  | steps + 1, scanner =>
    if scanner.queue.length ≤ 2 then do
      let scanner ← scanner.more?
      ahead? steps scanner
    else
      match scanner.watched.find? fun entry => entry.1 = scanner.taken with
      | none => some scanner
      | some (_, level) =>
        match scanner.marks[scanner.marks.length - level]? with
        | none => some scanner
        | some mark =>
          match scanner.holds? mark with
          | none => none
          | some false =>
            some { scanner with
              marks := scanner.marks.modify (scanner.marks.length - level) fun mark =>
                { mark with possible := false } }
          | some true => do
            let scanner ← scanner.more?
            ahead? steps scanner

end Scanner

end Schematic.Yaml
