import Schematic.File.Path
import Schematic.Hdl.Dialect
import Schematic.Number.Word

/-! # Scanned facts

What a source text declares and uses, each with the number of its line. -/

namespace Schematic.Scan

structure Port where
  name : String
  direction : String
  type : String
  width : Int
  line : Nat
  deriving DecidableEq, Repr

/-- A declared module: a VHDL entity or a Verilog module. -/
structure Entity where
  name : String
  line : Nat
  ports : List Port
  deriving DecidableEq, Repr

structure Architecture where
  name : String
  entity : String
  line : Nat
  deriving DecidableEq, Repr

structure Package where
  name : String
  line : Nat
  deriving DecidableEq, Repr

/-- A use of a module, or the declaration that a use needs in VHDL. -/
structure Use where
  name : String
  target : String
  line : Nat
  isInstance : Bool
  inModule : String
  deriving DecidableEq, Repr

structure Dependency where
  target : String
  kind : String
  line : Nat
  deriving DecidableEq, Repr

structure Signal where
  name : String
  type : String
  line : Nat
  inModule : String
  deriving DecidableEq, Repr

structure Facts where
  entities : List Entity := []
  architectures : List Architecture := []
  packages : List Package := []
  uses : List Use := []
  dependencies : List Dependency := []
  signals : List Signal := []
  deriving DecidableEq, Repr

namespace Facts

def entityNames (facts : Facts) : List String :=
  facts.entities.map (·.name)

def declares (facts : Facts) (name : String) : Bool :=
  facts.entities.any fun entity => Text.sameIdentifier entity.name name

def addPorts (facts : Facts) (ports : List Port) : Facts :=
  match facts.entities.getLast? with
  | some entity =>
    { facts with
      entities := facts.entities.dropLast ++ [{ entity with ports := entity.ports ++ ports }] }
  | none => facts

end Facts

def dialectOf? (path : String) : Option Hdl.Dialect :=
  match Text.lower (Path.extension path) with
  | ".vhd" => some .vhdl
  | ".vhdl" => some .vhdl
  | ".v" => some .verilog
  | ".sv" => some .verilog
  | _ => none

def isGap (c : Char) : Bool :=
  c == ' ' || c == '\t' || c == '\n' || c == '\r' || c.toNat == 12

def skipGap (text : List Char) : List Char :=
  text.dropWhile isGap

def gap? : List Char → Option (List Char)
  | c :: rest => if isGap c then some (skipGap rest) else none
  | [] => none

def mark? (c : Char) : List Char → Option (List Char)
  | d :: rest => if c == d then some rest else none
  | [] => none

def isWordChar (c : Char) : Bool :=
  ('a' ≤ c && c ≤ 'z') || ('A' ≤ c && c ≤ 'Z') || ('0' ≤ c && c ≤ '9') || c == '_'

def isFoldedWordChar (c : Char) : Bool :=
  isWordChar c || c == '\u017f' || c == '\u212a'

def isDigit (c : Char) : Bool :=
  '0' ≤ c && c ≤ '9'

def run? (p : Char → Bool) (text : List Char) : Option (List Char × List Char) :=
  match text.takeWhile p with
  | [] => none
  | found => some (found, text.dropWhile p)

def folded? : (keyword text : List Char) → Option (List Char)
  | [], text => some text
  | _ :: _, [] => none
  | k :: keyword, c :: text => if k == Text.foldChar c then folded? keyword text else none

def atBoundary : List Char → Bool
  | c :: _ => !isWordChar c
  | [] => true

def moreWords (p : Char → Bool) : (steps : Nat) → List Char → List Char × List Char
  | 0, text => ([], text)
  | steps + 1, text =>
    match (mark? ',' (skipGap text)).bind fun rest => run? p (skipGap rest) with
    | none => ([], text)
    | some (_, rest) =>
      let read := text.take (text.length - rest.length)
      let (more, rest) := moreWords p steps rest
      (read ++ more, rest)

def wordList? (p : Char → Bool) (text : List Char) : Option (List Char × List Char) :=
  (run? p text).map fun (first, rest) =>
    let (more, rest) := moreWords p rest.length rest
    (first ++ more, rest)

def withoutComment (mark : String) (line : String) : List Char :=
  match Text.splitFirst? mark.toList line.toList with
  | some (before, _) => before
  | none => line.toList

def sourceLines (text : String) : List String :=
  let pieces := Text.lines text
  let ended := pieces.dropLast.map (Text.withoutEnd "\r")
  match pieces.getLast? with
  | some last => if last = "" then ended else ended ++ [last]
  | none => ended

def spanWidth (a b : Int) : Int :=
  Word.wrap (max a b - min a b + 1)

def vectorBounds? (text : List Char) : Option (List Char × List Char) := do
  let text ← mark? '(' text
  let (a, text) ← run? isDigit (skipGap text)
  let text ← gap? text
  let text ← (folded? "downto".toList text) <|> (folded? "to".toList text)
  let text ← gap? text
  let (b, text) ← run? isDigit text
  let _ ← mark? ')' (skipGap text)
  return (a, b)

def rangeBound? (text : List Char) : Option (List Char) := do
  let text ← folded? "range".toList text
  let text ← gap? text
  let (_, text) ← run? isDigit text
  let text ← gap? text
  let text ← folded? "to".toList text
  let text ← gap? text
  let (bound, _) ← run? isDigit text
  return bound

def firstAlong? {α : Type} (reader : List Char → Option α) : List Char → Option α
  | [] => reader []
  | c :: text => (reader (c :: text)) <|> (firstAlong? reader text)

def typeWidth (type : String) : Int :=
  let text := Text.lower (Text.trim type)
  if text = "" then 0
  else if ["std_logic", "std_ulogic", "bit", "boolean"].contains text then 1
  else
    match firstAlong? vectorBounds? text.toList with
    | some (a, b) => spanWidth (Word.saturated a) (Word.saturated b)
    | none =>
      match firstAlong? rangeBound? text.toList with
      | some bound => max (Word.bitLength (Word.saturated bound).toNat) 1
      | none => 0

def rangeBounds? (text : List Char) : Option (List Char × List Char) := do
  let text ← mark? '[' text
  let (a, text) ← run? isDigit (skipGap text)
  let text ← mark? ':' (skipGap text)
  let (b, text) ← run? isDigit (skipGap text)
  let text ← mark? ']' (skipGap text)
  if text.isEmpty then some (a, b) else none

def rangeWidth (range : String) : Int :=
  if range = "" then 1
  else
    match rangeBounds? (Text.trim range).toList with
    | some (a, b) => spanWidth (Word.saturated a) (Word.saturated b)
    | none => 0

end Schematic.Scan
