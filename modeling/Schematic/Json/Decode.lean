import Schematic.Json.Value
import Schematic.Number.Binary64
import Schematic.Table

/-! # Decoding JSON

A decoder brings a value up to date with what a JSON value says. A later member of the same name
adds to or replaces what an earlier one said, and names match without regard to case. -/

namespace Schematic.Json

abbrev Decoder (α : Type) := α → Json → Option α

/-- The items of a list, and what the slots behind them still hold. -/
structure Slots (α : Type) where
  items : List α := []
  spare : List α := []
  deriving DecidableEq, Repr

namespace Decoder

def text : Decoder String
  | old, .null => some old
  | _, .string text => some text
  | _, _ => none

def truth : Decoder Bool
  | old, .null => some old
  | _, .bool value => some value
  | _, _ => none

def integer : Decoder Int
  | old, .null => some old
  | _, .number numeral => Word.readDecimal? numeral.toList
  | _, _ => none

def optional {α : Type} (fresh : α) (decode : Decoder α) : Decoder (Option α)
  | _, .null => some none
  | old, value => (decode (old.getD fresh) value).map some

def items {α : Type} (fresh : α) (decode : Decoder α) : List α → List Json → Option (List α)
  | _, [] => some []
  | old, value :: values => do
    let item ← decode (old.headD fresh) value
    let rest ← items fresh decode old.tail values
    return item :: rest

def slots {α : Type} (fresh : α) (decode : Decoder α) : Decoder (Slots α)
  | _, .null => some {}
  | _, .array [] => some {}
  | old, .array values =>
    let held := old.items ++ old.spare
    (items fresh decode held values).map fun items => ⟨items, held.drop values.length⟩
  | _, _ => none

def texts : Decoder (Table String String)
  | _, .null => some []
  | old, .object members =>
    members.foldlM (fun table (name, value) => do
      let entry ← text "" value
      return table.insert name entry) old
  | _, _ => none

def selects (field name : String) : Bool :=
  name == field || Text.sameIdentifier name field

def record {α : Type} (member : String → Decoder α) : Decoder α
  | old, .null => some old
  | old, .object members =>
    members.foldlM (fun record (name, value) => member name record value) old
  | _, _ => none

end Decoder

def numeralParts (numeral : String) : Bool × Nat × Int :=
  let (negative, text) := Word.readSign numeral.toList
  let mantissa := text.takeWhile fun c => c != 'e' && c != 'E'
  let behind := (text.dropWhile fun c => c != 'e' && c != 'E').drop 1
  let whole := mantissa.takeWhile (· != '.')
  let fraction := (mantissa.dropWhile (· != '.')).drop 1
  let (down, exponent) := Word.readSign behind
  let power : Int := (Word.digitsValue? 10 exponent).getD 0
  ((negative : Bool), (Word.digitsValue? 10 (whole ++ fraction)).getD 0,
    (if down then -power else power) - fraction.length)

def numeralSize? (numeral : String) : Option Binary64 :=
  let (_, digits, power) := numeralParts numeral
  Binary64.ofDecimal? digits power

mutual

def inRange : Json → Bool
  | .number numeral => (numeralSize? numeral).isSome
  | .array items => itemsInRange items
  | .object members => membersInRange members
  | _ => true

def itemsInRange : List Json → Bool
  | [] => true
  | item :: items => item.inRange && itemsInRange items

def membersInRange : List (String × Json) → Bool
  | [] => true
  | (_, value) :: members => value.inRange && membersInRange members

end

def numeralText? (numeral : String) : Option String :=
  (numeralSize? numeral).map fun fraction =>
    if (numeralParts numeral).1 then "-" ++ fraction.text else fraction.text

end Schematic.Json
