import Schematic.Schema.Term
import Schematic.Text.Letter
import Schematic.Text.Split

/-! # Tokens of data texts

Words, numbers, quoted texts and signs. A line that ends behind something complete ends with a
comma. -/

namespace Schematic.Data

mutual

inductive Token where
  | sign (spelling : String)
  | comma (written : Bool)
  | word (name : String)
  | number (value : Number)
  | quoted (bytes : Bool) (parts : List TextPart)
  | remark

inductive TextPart where
  | content (text : String)
  | hole (tokens : List Token)

end

/-- A character of a quoted text before its lines are put together. -/
inductive Piece where
  | plain (c : Char)
  | code (value : Nat)
  | hole (tokens : List Token)

/-- How a text is quoted. -/
structure Quotes where
  mark : Char
  hashes : Nat
  long : Bool

namespace Quotes

def ending (quotes : Quotes) : List Char :=
  List.replicate (if quotes.long then 3 else 1) quotes.mark ++ List.replicate quotes.hashes '#'

def escape (quotes : Quotes) : List Char :=
  '\\' :: List.replicate quotes.hashes '#'

end Quotes

def digitValue? (base : Nat) (c : Char) : Option Nat :=
  let value :=
    if '0' ≤ c && c ≤ '9' then some (c.toNat - '0'.toNat)
    else if 'a' ≤ c && c ≤ 'f' then some (c.toNat - 'a'.toNat + 10)
    else if 'A' ≤ c && c ≤ 'F' then some (c.toNat - 'A'.toNat + 10)
    else none
  value.filter (· < base)

def fixedDigits? (base : Nat) : (count : Nat) → (value : Nat) → List Char →
    Option (Nat × List Char)
  | 0, value, text => some (value, text)
  | _ + 1, _, [] => none
  | count + 1, value, c :: text =>
    (digitValue? base c).bind fun digit => fixedDigits? base count (value * base + digit) text

def letterCode? (mark c : Char) : Option Nat :=
  match c with
  | 'a' => some 7
  | 'b' => some 8
  | 'f' => some 12
  | 'n' => some 10
  | 'r' => some 13
  | 't' => some 9
  | 'v' => some 11
  | '/' => some 0x2F
  | '\\' => some 0x5C
  | c => if c == mark then some c.toNat else none

def escapeCode? (mark : Char) : List Char → Option (Nat × List Char)
  | [] => none
  | 'u' :: rest => fixedDigits? 16 4 0 rest
  | 'U' :: rest => (fixedDigits? 16 8 0 rest).filter fun (code, _) => code ≤ 0x10FFFF
  | 'x' :: rest => if mark == '\'' then fixedDigits? 16 2 0 rest else none
  | c :: rest =>
    if '0' ≤ c && c ≤ '7' then
      if mark == '\'' then (fixedDigits? 8 3 0 (c :: rest)).filter fun (code, _) => code ≤ 255
      else none
    else (letterCode? mark c).map fun code => (code, rest)

def startsWord (c : Char) : Bool :=
  Text.isLetter c || c == '$' || c == '#' || c == '_'

def inWord (c : Char) : Bool :=
  Text.isLetter c || Text.isDecimal c || c == '_' || c == '$'

def readWord (text : List Char) : String × List Char :=
  let (start, rest) := match text with
    | '_' :: '#' :: rest => (['_', '#'], rest)
    | '_' :: rest => (['_'], rest)
    | '#' :: rest => (['#'], rest)
    | rest => ([], rest)
  if start.contains '#' && (rest.head?.map Text.isDecimal).getD false then
    (String.ofList start, rest)
  else (String.ofList (start ++ rest.takeWhile inWord), rest.dropWhile inWord)

def readDigits? (base : Nat) (text : List Char) : Option (List Char × List Char) :=
  let isDigit := fun c => c == '_' || (digitValue? base c).isSome
  let run := text.takeWhile isDigit
  let rec separate : List Char → Bool
    | [] => true
    | ['_'] => false
    | '_' :: '_' :: _ => false
    | _ :: rest => separate rest
  if separate run then some (run.filter (· != '_'), text.dropWhile isDigit) else none

def digitsValue (base : Nat) (digits : List Char) : Nat :=
  digits.foldl (fun value c => value * base + (digitValue? base c).getD 0) 0

def readBased? (base : Nat) (text : List Char) : Option (Number × List Char) := do
  let (digits, rest) ← readDigits? base text
  if digits.isEmpty then none else some (.ofInt (digitsValue base digits), rest)

def readFactor? : List Char → Option (Nat × List Char)
  | c :: rest =>
    let exponent? := ['K', 'M', 'G', 'T', 'P'].findIdx? (· == c)
    exponent?.map fun exponent =>
      match rest with
      | 'i' :: rest => (Nat.pow 1024 (exponent + 1), rest)
      | rest => (Nat.pow 1000 (exponent + 1), rest)
  | [] => none

def readExponent? (text : List Char) : Option (Int × List Char) := do
  let (negative, text) := match text with
    | '-' :: rest => (true, rest)
    | '+' :: rest => (false, rest)
    | rest => (false, rest)
  let (digits, rest) ← readDigits? 10 text
  if digits.isEmpty then none
  else
    let value : Int := digitsValue 10 digits
    some (if negative then -value else value, rest)

def readScale? (whole fraction : List Char) (pointed : Bool) (text : List Char) :
    Option (Number × List Char) :=
  let digits : Int := digitsValue 10 (whole ++ fraction)
  let power : Int := -(fraction.length : Int)
  match readFactor? text, text with
  | some (factor, rest), _ =>
    ((Decimal.make (digits * factor) power).toInt?).map fun n => (.ofInt n, rest)
  | none, e :: rest =>
    if e == 'e' || e == 'E' then do
      let (exponent, rest) ← readExponent? rest
      let value := Decimal.make digits (power + exponent)
      if value.inBounds then some (⟨false, value⟩, rest) else none
    else some (⟨!pointed, .make digits power⟩, text)
  | none, [] => some (⟨!pointed, .make digits power⟩, [])

def readNumber? (text : List Char) : Option (Number × List Char) :=
  match text with
  | '0' :: 'x' :: rest => readBased? 16 rest
  | '0' :: 'X' :: rest => readBased? 16 rest
  | '0' :: 'b' :: rest => readBased? 2 rest
  | '0' :: 'o' :: rest => readBased? 8 rest
  | text => do
    let (whole, rest) ← readDigits? 10 text
    match rest with
    | '.' :: '.' :: _ => readScale? whole [] false rest
    | '.' :: rest =>
      let (fraction, rest) ← readDigits? 10 rest
      readScale? whole fraction true rest
    | rest =>
      let (number, behind) ← readScale? whole [] false rest
      if number.whole && whole.head? = some '0' && (1 < whole.length || (readFactor? rest).isSome)
      then none
      else some (number, behind)

def isSpace (c : Char) : Bool :=
  c == ' ' || c == '\t' || c == '\n' || c == '\r'

def completes (spelling : String) : Bool :=
  [")", "]", "\x7d", "?", "..."].contains spelling

def signs : List String :=
  ["...", "&&", "||", "==", "=~", "!=", "!~", "<=", ">=", "+", "-", "*", "/", "&", "|", "=", "!",
    "<", ">", "(", ")", "[", "]", "\x7b", "\x7d", ":", ".", "?"]

def readSign? (text : List Char) : Option (String × List Char) :=
  signs.findSome? fun spelling =>
    (Text.dropStart? spelling.toList text).map fun rest => (spelling, rest)

def skipRemark? : (depth : Nat) → (quote : Option Char) → List Char → Option (List Char)
  | _, _, [] => none
  | depth, some mark, c :: text =>
    if c == '\n' then none
    else if c == mark then skipRemark? depth none text
    else skipRemark? depth (some mark) text
  | depth, none, c :: text =>
    if c == '"' || c == '\'' then skipRemark? depth (some c) text
    else if ['(', '[', '\x7b'].contains c then skipRemark? (depth + 1) none text
    else if [')', ']', '\x7d'].contains c then
      match depth with
      | 0 => none
      | 1 => some text
      | depth + 1 => skipRemark? depth none text
    else skipRemark? depth none text

def joinSurrogates? : List Piece → Option (List Piece)
  | [] => some []
  | .code high :: rest =>
    if 0xD800 ≤ high && high < 0xDC00 then
      match rest with
      | .code low :: rest =>
        if 0xDC00 ≤ low && low < 0xE000 then
          (joinSurrogates? rest).map
            (.code (0x10000 + (high - 0xD800) * 0x400 + (low - 0xDC00)) :: ·)
        else none
      | _ => none
    else if 0xDC00 ≤ high && high < 0xE000 then none
    else (joinSurrogates? rest).map (.code high :: ·)
  | piece :: rest => (joinSurrogates? rest).map (piece :: ·)

def partsOf (pieces : List Piece) : List TextPart :=
  pieces.foldr
    (fun piece parts =>
      let extended (c : Char) : List TextPart :=
        match parts with
        | .content text :: rest => .content (String.ofList [c] ++ text) :: rest
        | parts => .content (String.ofList [c]) :: parts
      match piece with
      | .plain c => extended c
      | .code value => extended (Char.ofNat value)
      | .hole tokens => .hole tokens :: parts)
    []

def pieceLines : List Piece → List (List Piece)
  | [] => [[]]
  | .plain '\n' :: rest => [] :: pieceLines rest
  | piece :: rest =>
    match pieceLines rest with
    | line :: lines => (piece :: line) :: lines
    | [] => [[piece]]

def Piece.isBlank : Piece → Bool
  | .plain c => Text.isBlank c
  | _ => false

def unindented? : (indent line : List Piece) → Option (List Piece)
  | [], line => some line
  | .plain a :: indent, .plain b :: line => if a == b then unindented? indent line else none
  | _, _ => none

def joinLines? (pieces : List Piece) : Option (List Piece) :=
  let lines := pieceLines (pieces.filter fun piece =>
    match piece with
    | .plain c => c != '\r'
    | _ => true)
  match lines.reverse with
  | [] => none
  | indent :: earlier =>
    if indent.all Piece.isBlank then
      (earlier.reverse.mapM fun line : List Piece =>
        if line.isEmpty then some [] else unindented? indent line).map
        fun lines : List (List Piece) => (lines.intersperse [.plain '\n']).flatten
    else none

def quotedToken? (quotes : Quotes) (pieces : List Piece) : Option Token := do
  let pieces ← if quotes.long then joinLines? pieces else some pieces
  let pieces ← joinSurrogates? pieces
  some (.quoted (quotes.mark == '\'') (partsOf pieces))

def readQuotes? (hashes : Nat) : List Char → Option (Quotes × List Char)
  | mark :: rest =>
    if mark == '"' || mark == '\'' then
      match Text.dropStart? [mark, mark] rest with
      | some ('\n' :: rest) => some (⟨mark, hashes, true⟩, rest)
      | some ('\r' :: '\n' :: rest) => some (⟨mark, hashes, true⟩, rest)
      | some _ => none
      | none => some (⟨mark, hashes, false⟩, rest)
    else none
  | [] => none

mutual

def readPieces? (quotes : Quotes) (done : List Piece) : (steps : Nat) → List Char →
    Option (List Piece × List Char)
  | 0, _ => none
  | steps + 1, text =>
    match Text.dropStart? quotes.ending text with
    | some rest => some (done.reverse, rest)
    | none =>
      match Text.dropStart? quotes.escape text with
      | some ('(' :: rest) =>
        match scan false (some 0) [] steps rest with
        | some (tokens, rest) => readPieces? quotes (.hole tokens :: done) steps rest
        | none => none
      | some rest =>
        match escapeCode? quotes.mark rest with
        | some (code, rest) => readPieces? quotes (.code code :: done) steps rest
        | none => none
      | none =>
        match text with
        | [] => none
        | c :: rest =>
          if !quotes.long && (c == '\n' || c == '\r') then none
          else readPieces? quotes (.plain c :: done) steps rest

def scan (complete : Bool) (depth : Option Nat) (done : List Token) : (steps : Nat) →
    List Char → Option (List Token × List Char)
  | 0, _ => none
  | steps + 1, text =>
    match text with
    | [] =>
      if depth.isSome then none
      else some ((if complete then .comma false :: done else done).reverse, [])
    | '\n' :: rest =>
      if complete then
        match rest.dropWhile isSpace with
        | ',' :: rest => scan true depth done steps (',' :: rest)
        | ':' :: rest => scan true depth done steps (':' :: rest)
        | rest => scan false depth (.comma false :: done) steps rest
      else scan false depth done steps rest
    | '/' :: '/' :: rest =>
      scan false depth (if complete then .comma false :: done else done) steps
        (rest.dropWhile (· != '\n'))
    | ',' :: rest => scan false depth (.comma true :: done) steps rest
    | '_' :: '|' :: '_' :: rest => scan true depth (.sign "_|_" :: done) steps rest
    | '_' :: '|' :: _ => none
    | '@' :: rest =>
      match readWord rest with
      | (_, '(' :: rest) =>
        match skipRemark? 1 none rest with
        | some rest => scan true depth (.remark :: done) steps rest
        | none => none
      | _ => none
    | c :: rest =>
      let hashes := (text.takeWhile (· == '#')).length
      if isSpace c then scan complete depth done steps rest
      else
        match readQuotes? hashes (text.drop hashes) with
        | some (quotes, rest) =>
          match readPieces? quotes [] steps rest with
          | some (pieces, rest) =>
            match quotedToken? quotes pieces with
            | some token => scan true depth (token :: done) steps rest
            | none => none
          | none => none
        | none =>
          if startsWord c then
            let (name, rest) := readWord text
            scan true depth (.word name :: done) steps rest
          else if c.isDigit || (c == '.' && (rest.head?.map Char.isDigit).getD false) then
            match readNumber? text with
            | some (number, rest) => scan true depth (.number number :: done) steps rest
            | none => none
          else
            match readSign? text, depth with
            | some (")", rest), some 0 => some (done.reverse, rest)
            | some (spelling, rest), _ =>
              let depth := depth.map fun count =>
                if spelling = "(" then count + 1
                else if spelling = ")" then count - 1
                else count
              scan (completes spelling) depth (.sign spelling :: done) steps rest
            | none, _ => none

end

def isLegal (c : Char) : Bool :=
  c.toNat != 0 && c.toNat != 0xFEFF

def tokens? (text : String) : Option (List Token) :=
  let characters := match text.toList with
    | '\ufeff' :: rest => rest
    | characters => characters
  if characters.all isLegal then
    (scan false none [] (2 * characters.length + 2) characters).map (·.1)
  else none

end Schematic.Data
