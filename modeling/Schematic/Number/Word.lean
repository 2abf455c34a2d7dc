import Schematic.Text.Split

/-! # Machine words

Whole numbers of 64 bits: sums wrap around, and a numeral that leaves the range is no number. -/

namespace Schematic.Word

def modulus : Nat := 0x10000000000000000

def greatest : Int := 0x7FFFFFFFFFFFFFFF

def least : Int := -0x8000000000000000

def fits (n : Int) : Bool :=
  least ≤ n && n ≤ greatest

def wrap (n : Int) : Int :=
  n.bmod modulus

theorem fits_iff {n : Int} : fits n = true ↔ least ≤ n ∧ n ≤ greatest := by
  simp only [fits, Bool.and_eq_true, decide_eq_true_eq]

theorem wrap_of_fits {n : Int} (fitting : fits n = true) : wrap n = n := by
  rw [fits_iff] at fitting
  simp only [least, greatest] at fitting
  simp only [wrap, modulus]
  rw [Int.bmod_def]
  split <;> omega

def unsigned (n : Int) : Nat :=
  (n % modulus).toNat

def shiftOne (distance : Nat) : Int :=
  if distance < 64 then wrap (Nat.pow 2 distance) else 0

def lowBit (n : Int) : Bool :=
  n % 2 == 1

def bitLength (n : Nat) : Nat :=
  if n = 0 then 0 else n.log2 + 1

def digitValue? (base : Nat) (c : Char) : Option Nat :=
  let value :=
    if '0' ≤ c && c ≤ '9' then some (c.toNat - '0'.toNat)
    else if 'a' ≤ c && c ≤ 'z' then some (c.toNat - 'a'.toNat + 10)
    else if 'A' ≤ c && c ≤ 'Z' then some (c.toNat - 'A'.toNat + 10)
    else none
  value.filter (· < base)

def digitsValue? (base : Nat) (digits : List Char) : Option Nat :=
  digits.foldl
    (fun value c => value.bind fun n => (digitValue? base c).map fun d => n * base + d) (some 0)

def readUnsigned? (base bound : Nat) (text : List Char) : Option Nat :=
  if text.isEmpty then none else (digitsValue? base text).filter (· ≤ bound)

def readSign : List Char → Bool × List Char
  | '-' :: rest => (true, rest)
  | '+' :: rest => (false, rest)
  | rest => (false, rest)

def signed? (negative : Bool) (magnitude : Nat) : Option Int :=
  let value : Int := if negative then -(magnitude : Int) else magnitude
  if fits value then some value else none

def readDecimal? (text : List Char) : Option Int :=
  let (negative, digits) := readSign text
  (readUnsigned? 10 0x8000000000000000 digits).bind (signed? negative)

def readBase : List Char → Nat × List Char × Bool
  | '0' :: c :: d :: rest =>
    if c == 'b' || c == 'B' then (2, d :: rest, true)
    else if c == 'o' || c == 'O' then (8, d :: rest, true)
    else if c == 'x' || c == 'X' then (16, d :: rest, true)
    else (8, c :: d :: rest, true)
  | '0' :: rest => (8, rest, true)
  | text => (10, text, false)

def underscoresSeparate (afterDigit : Bool) : List Char → Bool
  | [] => true
  | ['_'] => false
  | '_' :: c :: rest => afterDigit && c != '_' && underscoresSeparate true rest
  | _ :: rest => underscoresSeparate true rest

def readNumeral? (text : List Char) : Option Int :=
  let (negative, unsigned) := readSign text
  let (base, digits, stated) := readBase unsigned
  if unsigned.isEmpty || !underscoresSeparate stated digits then none
  else (digitsValue? base (digits.filter (· != '_'))).bind (signed? negative)

def saturated (digits : List Char) : Int :=
  match digitsValue? 10 digits with
  | some n => min n greatest
  | none => 0

def readTruth? (text : String) : Option Bool :=
  if ["1", "t", "T", "TRUE", "true", "True"].contains text then some true
  else if ["0", "f", "F", "FALSE", "false", "False"].contains text then some false
  else none

end Schematic.Word
