import Schematic.Number.Word

/-! # Scalars

A scalar is plain, quoted or a block of lines. -/

namespace Schematic.Yaml

def isAllowed (c : Char) : Bool :=
  let n := c.toNat
  n == 0x09 || n == 0x0A || n == 0x0D || (0x20 ≤ n && n ≤ 0x7E) || n == 0x85 ||
    (0xA0 ≤ n && n ≤ 0xD7FF) || (0xE000 ≤ n && n ≤ 0xFFFD) || 0x10000 ≤ n

def isBlank (c : Char) : Bool :=
  c == ' ' || c == '\t'

def isBreak (c : Char) : Bool :=
  c == '\n' || c == '\r' || c == '\u0085' || c == '\u2028' || c == '\u2029'

def isNameChar (c : Char) : Bool :=
  c.isAlphanum || c == '_' || c == '-'

def atBreak : List Char → Bool
  | [] => true
  | c :: _ => isBreak c

def atBlank : List Char → Bool
  | [] => true
  | c :: _ => isBlank c || isBreak c

structure Cursor where
  rest : List Char
  limit : Nat
  index : Nat := 0
  line : Nat := 0
  column : Nat := 0
  fresh : Bool := false

namespace Cursor

def head? (cursor : Cursor) : Option Char :=
  cursor.rest.head?

def sees (cursor : Cursor) (c : Char) : Bool :=
  cursor.rest.head? == some c

def skip (cursor : Cursor) : Cursor :=
  match cursor.rest with
  | [] => cursor
  | c :: rest =>
    { cursor with
      rest
      index := cursor.index + 1
      column := cursor.column + 1
      fresh := isBlank c && cursor.fresh }

def skipMany (count : Nat) (cursor : Cursor) : Cursor :=
  Nat.repeat skip count cursor

def toLine (cursor : Cursor) (rest : List Char) (count : Nat) : Cursor :=
  { cursor with
    rest
    index := cursor.index + count
    line := cursor.line + 1
    column := 0
    fresh := true }

def skipBreak (cursor : Cursor) : Cursor :=
  match cursor.rest with
  | '\r' :: '\n' :: rest => cursor.toLine rest 2
  | c :: rest => if isBreak c then cursor.toLine rest 1 else cursor
  | [] => cursor

def breakChar (cursor : Cursor) : List Char :=
  match cursor.rest with
  | c :: _ =>
    if c == '\u2028' || c == '\u2029' then [c] else if isBreak c then ['\n'] else []
  | [] => []

def skipWhile (test : Char → Bool) (cursor : Cursor) : Cursor :=
  cursor.skipMany (cursor.rest.takeWhile test).length

def skipLine (cursor : Cursor) : Cursor :=
  cursor.skipWhile fun c => !isBreak c

def atMark (mark : Char) (cursor : Cursor) : Bool :=
  cursor.column = 0 &&
    match cursor.rest with
    | a :: b :: c :: rest => a == mark && b == mark && c == mark && atBlank rest
    | _ => false

def betweenDocuments (cursor : Cursor) : Bool :=
  cursor.atMark '-' || cursor.atMark '.'

def skipComment (cursor : Cursor) : Cursor :=
  if cursor.fresh then cursor
  else
    match cursor.rest.dropWhile isBlank with
    | '#' :: _ => cursor.skipLine
    | _ => cursor

def distanceToComment? : (limit : Nat) → (distance : Nat) → List Char → Option Nat
  | 0, _, _ => none
  | _ + 1, _, [] => none
  | limit + 1, distance, c :: rest =>
    if c == '#' then some distance
    else if isBlank c || c == '\n' || c == '\r' then distanceToComment? limit (distance + 1) rest
    else none

def advance : (count : Nat) → Cursor → Cursor
  | 0, cursor => cursor
  | count + 1, cursor =>
    match cursor.rest with
    | '\r' :: '\n' :: _ =>
      match count with
      | 0 => cursor.skipBreak
      | count + 1 => advance count cursor.skipBreak
    | c :: _ => advance count (if isBreak c then cursor.skipBreak else cursor.skip)
    | [] => cursor

def skipComments : (steps : Nat) → Cursor → Cursor
  | 0, cursor => cursor
  | steps + 1, cursor =>
    let cursor := cursor.skipLine
    match distanceToComment? 512 0 cursor.rest with
    | some distance => skipComments steps (cursor.advance distance)
    | none => cursor

end Cursor

/-- What stands between two parts of a scalar. -/
structure Joint where
  blanks : List Char := []
  crossed : Bool := false
  first : List Char := []
  more : List Char := []

namespace Joint

def reversed (joint : Joint) : List Char :=
  if joint.crossed then
    if joint.first.head? == some '\n' then
      if joint.more.isEmpty then [' '] else joint.more
    else joint.more ++ joint.first
  else joint.blanks

def add (joint : Joint) (cursor : Cursor) (c : Char) : Joint × Cursor :=
  if isBlank c then
    (if joint.crossed then joint else { joint with blanks := c :: joint.blanks }, cursor.skip)
  else if joint.crossed then
    ({ joint with more := cursor.breakChar ++ joint.more }, cursor.skipBreak)
  else
    ({ joint with blanks := [], crossed := true, first := cursor.breakChar }, cursor.skipBreak)

def collect? (indent : Int) : (steps : Nat) → Joint → Cursor → Option (Joint × Cursor)
  | 0, _, _ => none
  | steps + 1, joint, cursor =>
    match cursor.rest with
    | c :: _ =>
      if isBlank c || isBreak c then
        if joint.crossed && c == '\t' && cursor.column < indent then none
        else
          let (joint, cursor) := joint.add cursor c
          collect? indent steps joint cursor
      else some (joint, cursor)
    | [] => some (joint, cursor)

end Joint

def endsPlain (flow : Bool) : List Char → Bool
  | [] => true
  | c :: rest =>
    (c == ':' && atBlank rest) ||
      (flow && [',', '?', '[', ']', '\x7b', '\x7d'].contains c)

def plainWord (flow : Bool) : (steps : Nat) → (done : List Char) → Joint → Cursor →
    List Char × Joint × Cursor
  | 0, done, joint, cursor => (done, joint, cursor)
  | steps + 1, done, joint, cursor =>
    match cursor.rest with
    | c :: _ =>
      if isBlank c || isBreak c || endsPlain flow cursor.rest then (done, joint, cursor)
      else plainWord flow steps (c :: joint.reversed ++ done) {} cursor.skip
    | [] => (done, joint, cursor)

def plain? (flow : Bool) (indent : Int) : (steps : Nat) → (done : List Char) → Joint → Cursor →
    Option (String × Bool × Cursor)
  | 0, _, _, _ => none
  | steps + 1, done, joint, cursor =>
    let ended (done : List Char) (joint : Joint) (cursor : Cursor) :=
      some (String.ofList done.reverse, joint.crossed, cursor)
    if cursor.betweenDocuments || cursor.sees '#' then ended done joint cursor
    else
      let (done, joint, cursor) := plainWord flow cursor.limit done joint cursor
      match cursor.rest with
      | c :: _ =>
        if isBlank c || isBreak c then
          match joint.collect? indent cursor.limit cursor with
          | none => none
          | some (joint, cursor) =>
            if !flow && cursor.column < indent then ended done joint cursor
            else plain? flow indent steps done joint cursor
        else ended done joint cursor
      | [] => ended done joint cursor

def escape? : Char → Option Char
  | '0' => some (Char.ofNat 0)
  | 'a' => some (Char.ofNat 7)
  | 'b' => some (Char.ofNat 8)
  | 't' => some '\t'
  | '\t' => some '\t'
  | 'n' => some '\n'
  | 'v' => some (Char.ofNat 11)
  | 'f' => some (Char.ofNat 12)
  | 'r' => some '\r'
  | 'e' => some (Char.ofNat 27)
  | ' ' => some ' '
  | '"' => some '"'
  | '\'' => some '\''
  | '\\' => some '\\'
  | 'N' => some (Char.ofNat 0x85)
  | '_' => some (Char.ofNat 0xA0)
  | 'L' => some (Char.ofNat 0x2028)
  | 'P' => some (Char.ofNat 0x2029)
  | _ => none

def codeLength? : Char → Option Nat
  | 'x' => some 2
  | 'u' => some 4
  | 'U' => some 8
  | _ => none

def codeChar? (digits : List Char) : Option Char := do
  let code ← Word.digitsValue? 16 digits
  if code > 0x10FFFF || (0xD800 ≤ code && code ≤ 0xDFFF) then none else some (Char.ofNat code)

def readEscape? (cursor : Cursor) : Option (Char × Cursor) :=
  match cursor.rest with
  | _ :: e :: rest =>
    match codeLength? e with
    | some count =>
      let digits := rest.take count
      if digits.length < count then none
      else (codeChar? digits).map fun c => (c, cursor.skipMany (count + 2))
    | none => (escape? e).map fun c => (c, cursor.skipMany 2)
  | _ => none

def quotedWord? (single : Bool) : (steps : Nat) → (done : List Char) → Cursor →
    Option (List Char × Bool × Cursor)
  | 0, _, _ => none
  | steps + 1, done, cursor =>
    match cursor.rest with
    | [] => some (done, false, cursor)
    | c :: rest =>
      if isBlank c || isBreak c then some (done, false, cursor)
      else if single then
        if c == '\'' then
          if rest.head? == some '\'' then
            quotedWord? single steps ('\'' :: done) (cursor.skipMany 2)
          else some (done, false, cursor)
        else quotedWord? single steps (c :: done) cursor.skip
      else if c == '"' then some (done, false, cursor)
      else if c == '\\' then
        if (rest.head?.map isBreak).getD false then some (done, true, cursor.skip.skipBreak)
        else
          match readEscape? cursor with
          | some (c, cursor) => quotedWord? single steps (c :: done) cursor
          | none => none
      else quotedWord? single steps (c :: done) cursor.skip

def quoted? (single : Bool) : (steps : Nat) → (done : List Char) → Cursor →
    Option (String × Cursor)
  | 0, _, _ => none
  | steps + 1, done, cursor =>
    if cursor.betweenDocuments || cursor.rest.isEmpty then none
    else
      match quotedWord? single cursor.limit done cursor with
      | none => none
      | some (done, crossed, cursor) =>
        if cursor.sees (if single then '\'' else '"') then
          some (String.ofList done.reverse, cursor.skip)
        else
          match Joint.collect? (-1) cursor.limit { crossed } cursor with
          | none => none
          | some (joint, cursor) => quoted? single steps (joint.reversed ++ done) cursor

/-- What happens to the ends of lines at the end of a block scalar. -/
inductive Chomping where
  | clip
  | strip
  | keep
  deriving DecidableEq

def chomping? : Option Char → Option Chomping
  | some '+' => some .keep
  | some '-' => some .strip
  | _ => none

def stated? (cursor : Cursor) : Option (Option Nat) :=
  match cursor.rest with
  | c :: _ =>
    if c == '0' then none
    else if c.isDigit then some (some (c.toNat - '0'.toNat))
    else some none
  | [] => some none

def blockHeader? (cursor : Cursor) : Option (Chomping × Option Nat × Cursor) := do
  match chomping? cursor.head? with
  | some chomping =>
    let width ← stated? cursor.skip
    return (chomping, width, if width.isSome then cursor.skip.skip else cursor.skip)
  | none =>
    match ← stated? cursor with
    | none => return (.clip, none, cursor)
    | some width =>
      match chomping? cursor.skip.head? with
      | some chomping => return (chomping, some width, cursor.skip.skip)
      | none => return (.clip, some width, cursor.skip)

def emptyLines? (indent : Option Nat) : (steps : Nat) → (breaks : List Char) → (widest : Nat) →
    Cursor → Option (List Char × Nat × Cursor)
  | 0, _, _, _ => none
  | steps + 1, breaks, widest, cursor =>
    let spaces := (cursor.rest.takeWhile (· == ' ')).length
    let cursor := cursor.skipMany <| match indent with
      | some indent => min spaces (indent - cursor.column)
      | none => spaces
    let widest := max widest cursor.column
    if cursor.sees '\t' && indent.all fun indent => cursor.column < indent then none
    else
      match cursor.rest with
      | c :: _ =>
        if isBreak c then
          emptyLines? indent steps (cursor.breakChar ++ breaks) widest cursor.skipBreak
        else some (breaks, widest, cursor)
      | [] => some (breaks, widest, cursor)

def blockLines? (literal : Bool) (chomping : Chomping) (indent : Nat) : (steps : Nat) →
    (done ended : List Char) → (indented : Bool) → (breaks : List Char) → Cursor →
    Option (String × Cursor)
  | 0, _, _, _, _, _ => none
  | steps + 1, done, ended, indented, breaks, cursor =>
    if cursor.column = indent && !cursor.rest.isEmpty then
      let startsBlank := (cursor.head?.map isBlank).getD false
      let joint :=
        if !literal && !indented && !startsBlank && ended == ['\n'] then
          if breaks.isEmpty then [' '] else []
        else ended
      let content := cursor.rest.takeWhile fun c => !isBreak c
      let behind := cursor.skipLine
      let done := content.reverse ++ breaks ++ joint ++ done
      match emptyLines? (some indent) behind.limit [] 0 behind.skipBreak with
      | none => none
      | some (breaks, _, cursor) =>
        blockLines? literal chomping indent steps done behind.breakChar startsBlank breaks cursor
    else
      let tail := match chomping with
        | .strip => []
        | .clip => ended
        | .keep => breaks ++ ended
      some (String.ofList (tail ++ done).reverse, cursor)

def block? (literal : Bool) (outer : Int) (cursor : Cursor) : Option (String × Cursor) := do
  let (chomping, width, cursor) ← blockHeader? cursor
  let cursor := cursor.skipWhile isBlank
  let cursor := if cursor.sees '#' then cursor.skipLine else cursor
  if atBreak cursor.rest then
    let cursor := cursor.skipBreak
    let indent := width.map fun width => (max outer 0).toNat + width
    let (breaks, widest, cursor) ← emptyLines? indent cursor.limit [] 0 cursor
    let indent := indent.getD (max (max widest (outer + 1).toNat) 1)
    blockLines? literal chomping indent cursor.limit [] [] false breaks cursor
  else none

end Schematic.Yaml
