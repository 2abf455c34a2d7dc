import Schematic.Text.Letter
import Schematic.Text.Split

/-! # Regular expressions

The places where a match may end are found for all places where it may start at once. -/

namespace Schematic

/-- A condition on a place between two characters of a text. -/
inductive Boundary where
  | textStart
  | textEnd
  | lineStart
  | lineEnd
  | wordEdge
  | noWordEdge
  deriving DecidableEq, Repr

inductive Regex where
  | empty
  | one (accepts : Char → Bool)
  | place (boundary : Boundary)
  | sequence (first second : Regex)
  | either (first second : Regex)
  | repeated (least : Nat) (most : Option Nat) (inner : Regex)

namespace Regex

def isWordChar (c : Char) : Bool :=
  c.isAlphanum || c == '_'

def Boundary.holds (boundary : Boundary) (text : Array Char) (position : Nat) : Bool :=
  let before := if position = 0 then none else text[position - 1]?
  let behind := text[position]?
  let isEdge := (before.map isWordChar).getD false != (behind.map isWordChar).getD false
  match boundary with
  | .textStart => before.isNone
  | .textEnd => behind.isNone
  | .lineStart => before.isNone || before == some '\n'
  | .lineEnd => behind.isNone || behind == some '\n'
  | .wordEdge => isEdge
  | .noWordEdge => !isEdge

def joined (places others : Array Bool) : Array Bool :=
  places.zipWith (· || ·) others

def steps (step : Array Bool → Array Bool) : (count : Nat) → Array Bool → Array Bool
  | 0, places => places
  | count + 1, places => steps step count (step places)

def reach (step : Array Bool → Array Bool) : (count : Nat) → Array Bool → Array Bool
  | 0, places => places
  | count + 1, places =>
    let more := joined places (step places)
    if more == places then places else reach step count more

def ends (text : Array Char) : Regex → (starts : Array Bool) → Array Bool
  | .empty, starts => starts
  | .one accepts, starts =>
    #[false] ++ text.zipWith (fun c start => start && accepts c) starts
  | .place boundary, starts =>
    starts.mapIdx fun position start => start && Boundary.holds boundary text position
  | .sequence first second, starts => ends text second (ends text first starts)
  | .either first second, starts => joined (ends text first starts) (ends text second starts)
  | .repeated least most inner, starts =>
    let enough := steps (ends text inner) least starts
    match most with
    | some most => reach (ends text inner) (most - least) enough
    | none => reach (ends text inner) (text.size + 1) enough

def occursIn (regex : Regex) (text : String) : Bool :=
  let characters := text.toList.toArray
  (ends characters regex (Array.replicate (characters.size + 1) true)).any id

def isModest : Regex → (allowance : Nat) → Bool
  | .sequence first second, allowance => isModest first allowance && isModest second allowance
  | .either first second, allowance => isModest first allowance && isModest second allowance
  | .repeated least most inner, allowance =>
    let count := most.getD least
    if most = some 0 then true
    else count ≤ allowance && isModest inner (if count = 0 then allowance else allowance / count)
  | _, _ => true

/-! ## Notation -/

/-- How the notation is understood. -/
structure Mode where
  anyCase : Bool := false
  lines : Bool := false
  pointIsAll : Bool := false

def Mode.set (mode : Mode) (accepts : Char → Bool) (c : Char) : Bool :=
  if mode.anyCase then (Text.caseVariants c).any accepts else accepts c

def hexValue? (c : Char) : Option Nat :=
  if '0' ≤ c && c ≤ '9' then some (c.toNat - '0'.toNat)
  else if 'a' ≤ c && c ≤ 'f' then some (c.toNat - 'a'.toNat + 10)
  else if 'A' ≤ c && c ≤ 'F' then some (c.toNat - 'A'.toNat + 10)
  else none

def isOctal (c : Char) : Bool :=
  '0' ≤ c && c ≤ '7'

def bracedCode? (code : Nat) (complete : Bool) : List Char → Option (Nat × List Char)
  | [] => none
  | '\x7d' :: rest => if complete then some (code, rest) else none
  | c :: rest =>
    match hexValue? c with
    | none => none
    | some digit =>
      if 0x10FFFF < code * 16 + digit then none else bracedCode? (code * 16 + digit) true rest

def escaped? : List Char → Option (Char × List Char)
  | [] => none
  | 'a' :: rest => some ('\x07', rest)
  | 'f' :: rest => some ('\x0c', rest)
  | 'n' :: rest => some ('\n', rest)
  | 'r' :: rest => some ('\r', rest)
  | 't' :: rest => some ('\t', rest)
  | 'v' :: rest => some ('\x0b', rest)
  | 'x' :: '\x7b' :: rest => (bracedCode? 0 false rest).map fun (code, rest) =>
    (Char.ofNat code, rest)
  | 'x' :: a :: b :: rest => do
    let a ← hexValue? a
    let b ← hexValue? b
    some (Char.ofNat (a * 16 + b), rest)
  | c :: rest =>
    if isOctal c then
      let digits := c :: (rest.takeWhile isOctal).take 2
      if c != '0' && digits.length = 1 then none
      else
        let code := digits.foldl (fun code digit => code * 8 + (digit.toNat - '0'.toNat)) 0
        some (Char.ofNat code, rest.drop (digits.length - 1))
    else if c.toNat < 0x80 && !c.isAlphanum then some (c, rest)
    else none

def letterSet? (mode : Mode) (letter : Char) : Option (Char → Bool) :=
  let set (accepts : Char → Bool) : Char → Bool := mode.set accepts
  let isDigit (c : Char) : Bool := c.isDigit
  let isGap (c : Char) : Bool := ['\t', '\n', '\x0c', '\r', ' '].contains c
  match letter with
  | 'd' => some (set isDigit)
  | 's' => some (set isGap)
  | 'w' => some (set isWordChar)
  | 'D' => some fun c => !set isDigit c
  | 'S' => some fun c => !set isGap c
  | 'W' => some fun c => !set isWordChar c
  | _ => none

def isMark (c : Char) : Bool :=
  '!' ≤ c && c ≤ '~' && !c.isAlphanum

def namedSet? : String → Option (Char → Bool)
  | "alnum" => some Char.isAlphanum
  | "alpha" => some Char.isAlpha
  | "ascii" => some fun c => c.toNat < 0x80
  | "blank" => some fun c => c == '\t' || c == ' '
  | "cntrl" => some fun c => c.toNat < 0x20 || c.toNat = 0x7F
  | "digit" => some Char.isDigit
  | "graph" => some fun c => '!' ≤ c && c ≤ '~'
  | "lower" => some Char.isLower
  | "print" => some fun c => ' ' ≤ c && c ≤ '~'
  | "punct" => some isMark
  | "space" => some fun c => ['\t', '\n', '\x0b', '\x0c', '\r', ' '].contains c
  | "upper" => some Char.isUpper
  | "word" => some isWordChar
  | "xdigit" => some fun c => (hexValue? c).isSome
  | _ => none

def categorySet? : String → Option (Char → Bool)
  | "Any" => some fun _ => true
  | "L" => some Text.isLetter
  | "Nd" => some Text.isDecimal
  | _ => none

def categoryName? : List Char → Option (List Char × List Char)
  | [] => none
  | '\x7b' :: rest => Text.splitFirst? ['\x7d'] rest
  | c :: rest => some ([c], rest)

def category? (mode : Mode) (letter : Char) (text : List Char) :
    Option ((Char → Bool) × List Char) := do
  let (name, rest) ← categoryName? text
  let (inverted, name) := match name with
    | '^' :: name => (letter == 'p', name)
    | name => (letter == 'P', name)
  let accepts ← categorySet? (String.ofList name)
  some (fun c => mode.set accepts c != inverted, rest)

def setChar? : List Char → Option (Char × List Char)
  | [] => none
  | '\\' :: rest => escaped? rest
  | c :: rest => some (c, rest)

def setPart? (mode : Mode) (text : List Char) : Option ((Char → Bool) × List Char) :=
  let range : Option ((Char → Bool) × List Char) := do
    let (low, rest) ← setChar? text
    match rest with
    | '-' :: c :: more =>
      if c == ']' then some (mode.set (· == low), rest)
      else do
        let (high, rest) ← setChar? (c :: more)
        if high < low then none
        else some (mode.set fun c => low ≤ c && c ≤ high, rest)
    | rest => some (mode.set (· == low), rest)
  match text with
  | '[' :: ':' :: rest =>
    match Text.splitFirst? [':', ']'] rest with
    | none => range
    | some (name, rest) =>
      let (inverted, name) := match name with
        | '^' :: name => (true, name)
        | name => (false, name)
      (namedSet? (String.ofList name)).map fun accepts =>
        (fun c => mode.set accepts c != inverted, rest)
  | '\\' :: letter :: rest =>
    if letter == 'p' || letter == 'P' then category? mode letter rest
    else
      match letterSet? mode letter with
      | some accepts => some (accepts, rest)
      | none => range
  | _ => range

def setParts? (mode : Mode) (first : Bool) : (steps : Nat) → List Char →
    Option (List (Char → Bool) × List Char)
  | 0, _ => none
  | steps + 1, text =>
    if text.head? = some ']' && !first then some ([], text.drop 1)
    else do
      let (part, rest) ← setPart? mode text
      let (parts, rest) ← setParts? mode false steps rest
      some (part :: parts, rest)

def set? (mode : Mode) (text : List Char) : Option (Regex × List Char) := do
  let (inverted, text) := match text with
    | '^' :: text => (true, text)
    | text => (false, text)
  let (parts, rest) ← setParts? mode true (text.length + 1) text
  some (.one fun c => parts.any (· c) != inverted, rest)

def count? (text : List Char) : Option (Nat × List Char) :=
  let digits := text.takeWhile Char.isDigit
  if digits.isEmpty || (digits.head? = some '0' && 1 < digits.length) then none
  else
    some (digits.foldl (fun n c => n * 10 + (c.toNat - '0'.toNat)) 0, text.dropWhile Char.isDigit)

def counts? (text : List Char) : Option (Nat × Option Nat × List Char) :=
  match count? text with
  | some (least, '\x7d' :: rest) => some (least, some least, rest)
  | some (least, ',' :: '\x7d' :: rest) => some (least, none, rest)
  | some (least, ',' :: rest) =>
    match count? rest with
    | some (most, '\x7d' :: rest) => some (least, some most, rest)
    | _ => none
  | _ => none

def modes? (mode : Mode) (value changed : Bool) : List Char → Option (Mode × Bool × List Char)
  | [] => none
  | 'i' :: rest => modes? { mode with anyCase := value } value true rest
  | 'm' :: rest => modes? { mode with lines := value } value true rest
  | 's' :: rest => modes? { mode with pointIsAll := value } value true rest
  | 'U' :: rest => modes? mode value true rest
  | '-' :: rest => if value then modes? mode false false rest else none
  | ':' :: rest => if value || changed then some (mode, true, rest) else none
  | ')' :: rest => if value || changed then some (mode, false, rest) else none
  | _ => none

def group? (mode : Mode) (text : List Char) : Option (Mode × Bool × List Char) :=
  let named (text : List Char) : Option (Mode × Bool × List Char) := do
    let (name, rest) ← Text.splitFirst? ['>'] text
    if name.isEmpty || !name.all isWordChar then none else some (mode, true, rest)
  match text with
  | '?' :: 'P' :: '<' :: rest => named rest
  | '?' :: '<' :: rest => named rest
  | '?' :: rest => modes? mode true false rest
  | text => some (mode, true, text)

def repeated? (least : Nat) (most : Option Nat) (inner : Regex) : Option Regex :=
  let whole := Regex.repeated least most inner
  if 1000 < least || (most.map fun most => decide (1000 < most || most < least)).getD false then
    none
  else if isModest whole 1000 then some whole
  else none

def inOrder (parts : List Regex) : Regex :=
  parts.foldl (fun rest part => .sequence part rest) .empty

def options? (mode : Mode) (done : List Regex) (earlier : Option Regex) (repeats : Bool) :
    (steps : Nat) → List Char → Option (Regex × List Char)
  | 0, _ => none
  | steps + 1, text =>
    let whole := match earlier with
      | some earlier => earlier.either (inOrder done)
      | none => inOrder done
    let add (part : Regex) (rest : List Char) : Option (Regex × List Char) :=
      options? mode (part :: done) earlier false steps rest
    let again (least : Nat) (most : Option Nat) (rest : List Char) : Option (Regex × List Char) :=
      let rest := match rest with
        | '?' :: rest => rest
        | rest => rest
      match done with
      | [] => none
      | last :: done =>
        if repeats then none
        else
          match repeated? least most last with
          | some part => options? mode (part :: done) earlier true steps rest
          | none => none
    match text with
    | [] => some (whole, [])
    | ')' :: _ => some (whole, text)
    | '|' :: rest => options? mode [] (some whole) false steps rest
    | '(' :: rest =>
      match group? mode rest with
      | none => none
      | some (inside, false, rest) => options? inside done earlier false steps rest
      | some (inside, true, rest) =>
        match options? inside [] none false steps rest with
        | some (group, ')' :: rest) => add group rest
        | _ => none
    | '^' :: rest => add (.place (if mode.lines then .lineStart else .textStart)) rest
    | '$' :: rest => add (.place (if mode.lines then .lineEnd else .textEnd)) rest
    | '.' :: rest => add (.one fun c => mode.pointIsAll || c != '\n') rest
    | '[' :: rest =>
      match set? mode rest with
      | some (part, rest) => add part rest
      | none => none
    | '*' :: rest => again 0 none rest
    | '+' :: rest => again 1 none rest
    | '?' :: rest => again 0 (some 1) rest
    | '\x7b' :: rest =>
      match counts? rest with
      | some (least, most, rest) => again least most rest
      | none => add (.one (· == '\x7b')) rest
    | '\\' :: 'A' :: rest => add (.place .textStart) rest
    | '\\' :: 'b' :: rest => add (.place .wordEdge) rest
    | '\\' :: 'B' :: rest => add (.place .noWordEdge) rest
    | '\\' :: 'z' :: rest => add (.place .textEnd) rest
    | '\\' :: 'Q' :: rest =>
      let (literal, rest) := (Text.splitFirst? ['\\', 'E'] rest).getD (rest, [])
      let parts := literal.map fun literal => Regex.one (mode.set (· == literal))
      options? mode (parts.reverse ++ done) earlier false steps rest
    | '\\' :: letter :: rest =>
      if letter == 'p' || letter == 'P' then
        match category? mode letter rest with
        | some (accepts, rest) => add (.one accepts) rest
        | none => none
      else
        match letterSet? mode letter with
        | some accepts => add (.one accepts) rest
        | none =>
          match escaped? (letter :: rest) with
          | some (c, rest) => add (.one (mode.set (· == c))) rest
          | none => none
    | ['\\'] => none
    | c :: rest => add (.one (mode.set (· == c))) rest

def parse? (text : String) : Option Regex :=
  let characters := text.toList
  match options? {} [] none false (characters.length + 1) characters with
  | some (regex, []) => some regex
  | _ => none

end Regex

end Schematic
