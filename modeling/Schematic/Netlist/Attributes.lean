import Schematic.Json.Decode

/-! # Attributes

Attributes are texts, and each use of an attribute reads the text in its own way. -/

namespace Schematic

abbrev Attributes := Table String String

/-- Why the contents of a memory cannot be read. -/
inductive ContentsError where
  | badCount (key item : String)
  | badWord (key item : String)
  deriving DecidableEq, Repr

def ContentsError.message : ContentsError → String
  | .badCount key item =>
    "attribute " ++ Text.quote key ++ ": bad repeat count " ++ Text.quote item
  | .badWord key item =>
    "attribute " ++ Text.quote key ++ ": bad hex word " ++ Text.quote item

namespace Attributes

def text (attributes : Attributes) (key default : String) : String :=
  (attributes.find? key).getD default

def int (attributes : Attributes) (key : String) (default : Int) : Int :=
  match attributes.find? key with
  | some text => (Word.readNumeral? (Text.trim text).toList).getD default
  | none => default

def truth (attributes : Attributes) (key : String) (default : Bool) : Bool :=
  match attributes.find? key with
  | some text => (Word.readTruth? (Text.trim text)).getD default
  | none => default

def positive (attributes : Attributes) (key : String) (default : Int) : Nat :=
  (max (attributes.int key default) 1).toNat

def separatesWords (c : Char) : Bool :=
  c == ',' || c == ' ' || c == '\n' || c == '\t' || c == '\r'

def readWord? (text : List Char) : Option Nat :=
  let lowered := text.map Text.lowerChar
  Word.readUnsigned? 16 (Word.modulus - 1) ((Text.dropStart? ['0', 'x'] lowered).getD lowered)

def readItem (key item : String) : Except ContentsError (List Nat) :=
  match Text.splitFirst? ['*'] item.toList with
  | some (count, word) =>
    match Word.readUnsigned? 10 (Nat.pow 2 32 - 1) count with
    | none => .error (.badCount key item)
    | some count =>
      match readWord? word with
      | none => .error (.badWord key (String.ofList word))
      | some value => .ok (List.replicate count value)
  | none =>
    match readWord? item.toList with
    | none => .error (.badWord key item)
    | some value => .ok [value]

def readItems (key : String) : List String → Except ContentsError (List Nat)
  | [] => .ok []
  | item :: rest =>
    match readItem key item with
    | .error e => .error e
    | .ok words => (readItems key rest).map (words ++ ·)

def words (attributes : Attributes) (key : String) : Except ContentsError (List Nat) :=
  match attributes.find? key with
  | some text => readItems key (Text.fields separatesWords text)
  | none => .ok []

def scalarText? : Json → Option String
  | .string text => some text
  | .bool value => some (if value then "true" else "false")
  | .number numeral => Json.numeralText? numeral
  | .null => some ""
  | .array _ => none
  | .object _ => none

def decode : Json.Decoder Attributes
  | _, .null => some []
  | _, .object members =>
    let last : Table String Json := Table.ofList members
    if Json.membersInRange members then
      last.mapM fun (name, value) => (scalarText? value).map fun text => (name, text)
    else none
  | _, _ => none

def canonical (attributes : Attributes) : String :=
  String.join (attributes.map fun (name, value) => name ++ "=" ++ Text.quote value ++ ";")

end Attributes

end Schematic
