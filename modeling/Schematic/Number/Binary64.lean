import Schematic.Number.Word

/-! # Binary fractions of double precision

A fraction is `mantissa * 2 ^ exponent` with at most 53 binary digits, and all arithmetic is
exact. -/

namespace Schematic

/-- A non-negative fraction `mantissa * 2 ^ exponent`. -/
structure Binary64 where
  mantissa : Nat
  exponent : Int
  deriving DecidableEq, Repr

namespace Binary64

def zero : Binary64 := ⟨0, 0⟩

def leastExponent : Int := -1074

def greatestExponent : Int := 971

def roundDiv (numerator denominator : Nat) : Nat :=
  let quotient := numerator / denominator
  let twice := 2 * (numerator % denominator)
  if twice > denominator || (twice == denominator && quotient % 2 == 1) then quotient + 1
  else quotient

def scaled (base : Nat) (power : Int) (numerator denominator : Nat) : Nat × Nat :=
  if 0 ≤ power then (numerator * Nat.pow base power.toNat, denominator)
  else (numerator, denominator * Nat.pow base (-power).toNat)

def exponentOf (numerator denominator : Nat) : Int :=
  let guess : Int := (Word.bitLength numerator : Int) - Word.bitLength denominator - 53
  let (n, d) := scaled 2 (-guess) numerator denominator
  max leastExponent
    (if n < d * Nat.pow 2 52 then guess - 1
    else if n < d * Nat.pow 2 53 then guess
    else guess + 1)

def ofRatio? (numerator denominator : Nat) : Option Binary64 :=
  if numerator = 0 then some zero
  else
    let exponent := exponentOf numerator denominator
    let (n, d) := scaled 2 (-exponent) numerator denominator
    let mantissa := roundDiv n d
    let fraction : Binary64 :=
      if mantissa == Nat.pow 2 53 then ⟨Nat.pow 2 52, exponent + 1⟩ else ⟨mantissa, exponent⟩
    if fraction.exponent > greatestExponent then none else some fraction

def ofDecimal? (digits : Nat) (power : Int) : Option Binary64 :=
  let size : Int := (Nat.toDigits 10 digits).length + power
  if digits = 0 || size < -400 then some zero
  else if size > 400 then none
  else
    let (n, d) := scaled 10 power digits 1
    ofRatio? n d

def ratio (fraction : Binary64) : Nat × Nat :=
  scaled 2 fraction.exponent fraction.mantissa 1

def floor (fraction : Binary64) : Nat :=
  let (n, d) := fraction.ratio
  n / d

def leadsBack (fraction : Binary64) (digits : Nat) (power : Int) : Bool :=
  ofDecimal? digits power == some fraction

def neighbours (fraction : Binary64) (power : Int) : List Nat :=
  let (n, d) := fraction.ratio
  let (n, d) := scaled 10 (-power) n d
  let below := n / d
  if 2 * (n % d) > d || (2 * (n % d) == d && below % 2 == 1) then [below + 1, below]
  else [below, below + 1]

def magnitude (fraction : Binary64) : Int :=
  let (n, d) := fraction.ratio
  if n ≥ d then (Nat.toDigits 10 (n / d)).length - 1
  else -((Nat.toDigits 10 (d / n)).length - 1 : Int)

def shortestFrom (fraction : Binary64) : (tries : Nat) → (power : Int) → Nat × Int
  | 0, power => ((fraction.neighbours power).headD 0, power)
  | tries + 1, power =>
    match (fraction.neighbours power).find? fun digits => fraction.leadsBack digits power with
    | some digits => (digits, power)
    | none => shortestFrom fraction tries (power - 1)

def shortest (fraction : Binary64) : Nat × Int :=
  if fraction.mantissa = 0 then (0, 0) else fraction.shortestFrom 20 (fraction.magnitude + 1)

def positional (digits : Nat) (power : Int) : String :=
  let text := Nat.toDigits 10 digits
  if 0 ≤ power then String.ofList (text ++ List.replicate power.toNat '0')
  else
    let places := (-power).toNat
    let text := List.replicate (places + 1 - text.length) '0' ++ text
    let whole := text.take (text.length - places)
    let behind := text.drop (text.length - places)
    String.ofList (whole ++ '.' :: behind)

def text (fraction : Binary64) : String :=
  let (digits, power) := fraction.shortest
  positional digits power

def fixed (places : Nat) (fraction : Binary64) : String :=
  let (n, d) := fraction.ratio
  positional (roundDiv (n * Nat.pow 10 places) d) (-(places : Int))

end Binary64

end Schematic
