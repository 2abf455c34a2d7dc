/-! # Terms and decimals

A term describes data: a value, a condition on values, or a way to put values together. -/

namespace Schematic

/-- The number `digits * 10 ^ power`. -/
structure Decimal where
  digits : Int
  power : Int
  deriving DecidableEq, Repr

namespace Decimal

def dropZeros : (steps : Nat) → (digits : Nat) → (power : Int) → Nat × Int
  | 0, digits, power => (digits, power)
  | steps + 1, digits, power =>
    if digits % 10 = 0 then dropZeros steps (digits / 10) (power + 1) else (digits, power)

def make (digits power : Int) : Decimal :=
  if digits = 0 then ⟨0, 0⟩
  else
    let (size, power) := dropZeros (digits.natAbs.log2 + 1) digits.natAbs power
    ⟨if digits < 0 then -(size : Int) else size, power⟩

def magnitude (decimal : Decimal) : Int :=
  (Nat.toDigits 10 decimal.digits.natAbs).length - 1 + decimal.power

def inBounds (decimal : Decimal) : Bool :=
  decimal.digits = 0 || (-100000 ≤ decimal.magnitude && decimal.magnitude ≤ 100000)

def aligned (a b : Decimal) : Int × Int × Int :=
  let power := min a.power b.power
  (a.digits * Nat.pow 10 (a.power - power).toNat, b.digits * Nat.pow 10 (b.power - power).toNat,
    power)

def compare (a b : Decimal) : Ordering :=
  let (a, b, _) := aligned a b
  if a < b then .lt else if a = b then .eq else .gt

def add (a b : Decimal) : Decimal :=
  let (a, b, power) := aligned a b
  make (a + b) power

def negate (a : Decimal) : Decimal :=
  ⟨-a.digits, a.power⟩

def multiply (a b : Decimal) : Decimal :=
  make (a.digits * b.digits) (a.power + b.power)

def divide (a b : Decimal) : Decimal :=
  let places : Int := 35 + (Nat.toDigits 10 b.digits.natAbs).length
  let scaled := a.digits.natAbs * Nat.pow 10 places.toNat
  let quotient := scaled / b.digits.natAbs
  let excess := (Nat.toDigits 10 quotient).length - 34
  let rounded := (quotient + Nat.pow 10 excess / 2) / Nat.pow 10 excess
  let sign : Int := if (a.digits < 0) = (b.digits < 0) then 1 else -1
  make (sign * rounded) (a.power - b.power - places + excess)

def toInt? (decimal : Decimal) : Option Int :=
  if 0 ≤ decimal.power then some (decimal.digits * Nat.pow 10 decimal.power.toNat) else none

def text (decimal : Decimal) : String :=
  let digits := Nat.toDigits 10 decimal.digits.natAbs
  let places := (-decimal.power).toNat
  let padded := List.replicate (places + 1 - digits.length) '0' ++ digits
  let sign := if decimal.digits < 0 then "-" else ""
  if 0 ≤ decimal.power then
    sign ++ String.ofList (digits ++ List.replicate decimal.power.toNat '0')
  else
    sign ++ String.ofList (padded.take (padded.length - places)) ++ "." ++
      String.ofList (padded.drop (padded.length - places))

end Decimal

structure Number where
  whole : Bool
  value : Decimal
  deriving DecidableEq, Repr

namespace Number

def ofInt (n : Int) : Number :=
  ⟨true, .make n 0⟩

def text (number : Number) : String :=
  if number.whole || number.value.power < 0 then number.value.text
  else number.value.text ++ ".0"

end Number

end Schematic

namespace Schematic.Data

/-- Whether a field has to be there. -/
inductive Presence where
  | present
  | optional
  | required
  deriving DecidableEq, Repr

inductive Operator where
  | either
  | both
  | or
  | and
  | equal
  | unequal
  | less
  | atMost
  | greater
  | atLeast
  | like
  | unlike
  | add
  | subtract
  | multiply
  | divide
  deriving DecidableEq, Repr

mutual

inductive Term where
  | bottom
  | null
  | truth (value : Bool)
  | number (value : Number)
  | text (content : String)
  | bytes (content : String)
  | joined (bytes : Bool) (parts : List Term)
  | word (name : String)
  | list (elements : List Element)
  | record (declarations : List Declaration)
  | not (operand : Term)
  | sign (negative : Bool) (operand : Term)
  | preferred (operand : Term)
  | bound (operator : Operator) (limit : Term)
  | operation (operator : Operator) (left right : Term)
  | member (base : Term) (name : String) (quoted : Bool)
  | item (base index : Term)
  | slice (base : Term) (low high : Option Term)
  | call (function : Term) (arguments : List Term)
  | check (package function : String) (arguments : List Term)
  | importing (packages : List (String × String)) (inner : Term)
  | named (name : String) (value : Term)
  | grouped (inner : Term)
  | closed (inner : Term)
  | nameOf (names : List String)

inductive Element where
  | item (value : Term)
  | more (value : Term)
  | each (clauses : List Clause) (body : Term)

inductive Declaration where
  | field (label : Label) (presence : Presence) (value : Term)
  | part (value : Term)
  | more
  | name (name : String) (value : Term)
  | each (clauses : List Clause) (body : Term)

inductive Label where
  | word (name : String)
  | text (name : String)
  | computed (name : Term)
  | pattern (name : String) (labels : Term)
  | named (name : String) (label : Label)

inductive Clause where
  | source (key value : String) (items : Term)
  | condition (test : Term)
  | name (name : String) (value : Term)

end

end Schematic.Data
