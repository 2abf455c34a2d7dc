import Schematic.Schema.Term
import Schematic.Text.Regex

/-! # Values and ranges

A scalar is a value without parts. A range stands for all values of some natures that keep within
some bounds. -/

namespace Schematic.Data

/-- Why a term has no value. -/
inductive Fault where
  | incomplete
  | cyclic
  | wrong
  deriving DecidableEq, Repr

/-- The natures of values. -/
inductive Nature where
  | null
  | truth
  | whole
  | fraction
  | text
  | bytes
  | list
  | record
  deriving DecidableEq, Repr

inductive Scalar where
  | null
  | truth (value : Bool)
  | number (value : Number)
  | text (content : String)
  | bytes (content : String)
  deriving DecidableEq, Repr

/-- A concrete value. -/
inductive Datum where
  | scalar (value : Scalar)
  | list (items : List Datum)
  | record (fields : List (String × Datum))
  deriving BEq, Repr

namespace Datum

def text? : Datum → Option String
  | .scalar (.text content) => some content
  | _ => none

def number? : Datum → Option Decimal
  | .scalar (.number number) => some number.value
  | _ => none

def int? : Datum → Option Int
  | .scalar (.number number) => if number.whole then number.value.toInt? else none
  | _ => none

def items? : Datum → Option (List Datum)
  | .list items => some items
  | _ => none

def ofText (content : String) : Datum := .scalar (.text content)

def ofInt (n : Int) : Datum := .scalar (.number (.ofInt n))

def ofDecimal (value : Decimal) : Datum := .scalar (.number ⟨0 ≤ value.power, value⟩)

def ofBool (value : Bool) : Datum := .scalar (.truth value)

end Datum

namespace Nature

def all : List Nature :=
  [.null, .truth, .whole, .fraction, .text, .bytes, .list, .record]

def isNumber (nature : Nature) : Bool :=
  nature = .whole || nature = .fraction

end Nature

namespace Scalar

def nature : Scalar → Nature
  | .null => .null
  | .truth _ => .truth
  | .number value => if value.whole then .whole else .fraction
  | .text _ => .text
  | .bytes _ => .bytes

def toTerm : Scalar → Term
  | .null => .null
  | .truth value => .truth value
  | .number value => .number value
  | .text content => .text content
  | .bytes content => .bytes content

def order? : Scalar → Scalar → Option Ordering
  | .number a, .number b => some (a.value.compare b.value)
  | .text a, .text b => some (compare a b)
  | .bytes a, .bytes b => some (compare a b)
  | _, _ => none

def same? : Scalar → Scalar → Option Bool
  | .null, b => some (b = .null)
  | a, .null => some (a = .null)
  | .truth a, .truth b => some (a = b)
  | a, b => (order? a b).map (· = .eq)

def content? : Scalar → Option String
  | .text content => some content
  | .bytes content => some content
  | _ => none

def isLike? (a b : Scalar) : Option Bool := do
  let content ← a.content?
  let expression ← b.content?
  let regex ← Regex.parse? expression
  return regex.occursIn content

def compares? (operator : Operator) (a b : Scalar) : Option Bool :=
  match operator with
  | .equal => same? a b
  | .unequal => (same? a b).map (!·)
  | .less => (order? a b).map (· = .lt)
  | .atMost => (order? a b).map (· ≠ .gt)
  | .greater => (order? a b).map (· = .gt)
  | .atLeast => (order? a b).map (· ≠ .lt)
  | .like => isLike? a b
  | .unlike => (isLike? a b).map (!·)
  | _ => none

def limits (limit : Scalar) (operator : Operator) : Bool :=
  match limit with
  | .null => operator = .unequal
  | .truth _ => false
  | .number _ => operator ≠ .like && operator ≠ .unlike
  | _ => true

def insertedText? : Scalar → Option String
  | .null => none
  | .truth value => some (if value then "true" else "false")
  | .number value => some value.text
  | .text content => some content
  | .bytes content => some content

end Scalar

mutual

def Datum.toTerm : Datum → Term
  | .scalar value => value.toTerm
  | .list items => .list (Datum.toElements items)
  | .record fields => .record (Datum.toDeclarations fields)

def Datum.toElements : List Datum → List Element
  | [] => []
  | item :: items => .item item.toTerm :: Datum.toElements items

def Datum.toDeclarations : List (String × Datum) → List Declaration
  | [] => []
  | (name, value) :: fields =>
    .field (.text name) .present value.toTerm :: Datum.toDeclarations fields

end

structure Range where
  natures : List Nature
  bounds : List (Operator × Scalar) := []
  names : List (List String) := []
  deriving DecidableEq, Repr

namespace Range

def any : Range := ⟨Nature.all, [], []⟩

def ofBound (operator : Operator) (limit : Scalar) : Range :=
  let natures :=
    if limit.nature.isNumber then [.whole, .fraction]
    else if operator = .unequal && limit = .null then Nature.all.filter (· ≠ .null)
    else [limit.nature]
  ⟨natures, [(operator, limit)], []⟩

def meet (a b : Range) : Range :=
  ⟨a.natures.filter b.natures.contains, a.bounds ++ b.bounds, a.names ++ b.names⟩

def allows (range : Range) (scalar : Scalar) : Bool :=
  range.natures.contains scalar.nature &&
  range.bounds.all (fun (operator, limit) => (scalar.compares? operator limit).getD false) &&
  range.names.all fun names =>
    match scalar with
    | .text content => names.any (Text.sameIdentifier content)
    | _ => false

def between (whole : Bool) (low high : Operator × Decimal) : Except Fault (Option Decimal) :=
  let one : Decimal := ⟨1, 0⟩
  let gap := high.2.add low.2.negate
  let closed := low.1 = .atLeast && high.1 = .atMost
  let openEnds := low.1 = .greater && high.1 = .less
  if gap.digits < 0 then .error .wrong
  else if gap.digits = 0 then if closed then .ok (some low.2) else .error .wrong
  else if whole && gap = one then
    if openEnds then .error .wrong
    else if closed then .ok none
    else if low.1 = .atLeast then .ok (some low.2)
    else .ok (some high.2)
  else if whole && gap = ⟨2, 0⟩ && openEnds then .ok (some (low.2.add one))
  else .ok none

def limits (range : Range) (operators : List Operator) : List (Operator × Decimal) :=
  range.bounds.filterMap fun (operator, limit) =>
    match limit with
    | .number number => if operators.contains operator then some (operator, number.value) else none
    | _ => none

def only? (range : Range) : Except Fault (Option Scalar) :=
  if range.natures.isEmpty then .error .wrong
  else if range.natures = [.null] then .ok (some .null)
  else if range.natures.all Nature.isNumber then
    let whole := !range.natures.contains .fraction
    let pairs := (range.limits [.atLeast, .greater]).flatMap fun low =>
      (range.limits [.atMost, .less]).map fun high => (low, high)
    pairs.foldlM
      (fun found (low, high) => do
        match ← between whole low high with
        | none => return found
        | some value =>
          let scalar := Scalar.number ⟨range.natures.contains .whole && 0 ≤ value.power, value⟩
          if range.allows scalar then return some scalar else throw .wrong)
      none
  else .ok none

def wholeBetween (low high : Int) : Range :=
  ⟨[.whole], [(.atLeast, .number (.ofInt low)), (.atMost, .number (.ofInt high))], []⟩

def ofWord? : String → Option Range
  | "_" => some any
  | "bool" => some ⟨[.truth], [], []⟩
  | "int" => some ⟨[.whole], [], []⟩
  | "float" => some ⟨[.fraction], [], []⟩
  | "number" => some ⟨[.whole, .fraction], [], []⟩
  | "string" => some ⟨[.text], [], []⟩
  | "bytes" => some ⟨[.bytes], [], []⟩
  | "uint" => some ⟨[.whole], [(.atLeast, .number (.ofInt 0))], []⟩
  | "uint8" => some (wholeBetween 0 255)
  | "uint16" => some (wholeBetween 0 65535)
  | "uint32" => some (wholeBetween 0 4294967295)
  | "uint64" => some (wholeBetween 0 18446744073709551615)
  | "uint128" => some (wholeBetween 0 340282366920938463463374607431768211455)
  | "int8" => some (wholeBetween (-128) 127)
  | "int16" => some (wholeBetween (-32768) 32767)
  | "int32" => some (wholeBetween (-2147483648) 2147483647)
  | "int64" => some (wholeBetween (-9223372036854775808) 9223372036854775807)
  | "int128" =>
    some (wholeBetween (-170141183460469231731687303715884105728)
      170141183460469231731687303715884105727)
  | "rune" => some (wholeBetween 0 0x10FFFF)
  | "float32" =>
    some ⟨[.whole, .fraction],
      [(.atLeast, .number ⟨false, ⟨-340282346638528859811704183484516925440, 0⟩⟩),
        (.atMost, .number ⟨false, ⟨340282346638528859811704183484516925440, 0⟩⟩)], []⟩
  | "float64" =>
    some ⟨[.whole, .fraction],
      [(.atLeast, .number ⟨false, ⟨-1797693134862315708145274237317043567981, 269⟩⟩),
        (.atMost, .number ⟨false, ⟨1797693134862315708145274237317043567981, 269⟩⟩)], []⟩
  | _ => none

end Range

def functionWords : List String :=
  ["len", "close", "and", "or", "div", "mod", "quo", "rem", "error", "matchN", "matchIf"]

def plainWord (name : String) : String :=
  match name.toList with
  | '_' :: '_' :: rest => String.ofList rest
  | _ => name

def isCommonWord (name : String) : Bool :=
  (Range.ofWord? (plainWord name)).isSome || functionWords.contains (plainWord name)

end Schematic.Data
