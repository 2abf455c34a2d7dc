import Schematic.Schema.Value

/-! # Packages of functions

A package is a set of functions on values that a data text may ask for by name. -/

namespace Schematic.Data.Library

def splitText (separator : List Char) : (steps : Nat) → List Char → List (List Char)
  | 0, text => [text]
  | steps + 1, text =>
    if separator.isEmpty then text.map fun c => [c]
    else
      match Text.splitFirst? separator text with
      | some (before, behind) => before :: splitText separator steps behind
      | none => [text]

def split (separator text : String) : List String :=
  (splitText separator.toList (text.length + 1) text.toList).map String.ofList

def trimmed (characters text : String) : String :=
  let isCut (c : Char) := characters.toList.contains c
  String.ofList (Text.dropEndWhile isCut (text.toList.dropWhile isCut))

def range (step limit : Decimal) : (count : Nat) → Decimal → List Decimal
  | 0, _ => []
  | count + 1, start =>
    let done := if step.digits < 0 then start.compare limit ≠ .gt else start.compare limit ≠ .lt
    if done then [] else start :: range step limit count (start.add step)

def flattened : (depth : Nat) → List Datum → List Datum
  | 0, items => items
  | depth + 1, items =>
    items.flatMap fun item =>
      match item with
      | .list inner => flattened depth inner
      | item => [item]

def floor (number : Decimal) : Int :=
  if 0 ≤ number.power then number.digits * Nat.pow 10 number.power.toNat
  else Int.fdiv number.digits (Nat.pow 10 (-number.power).toNat)

def ceiling (number : Decimal) : Int :=
  -floor number.negate

def magnitude (number : Decimal) : Decimal :=
  ⟨number.digits.natAbs, number.power⟩

def truncated (number : Decimal) : Int :=
  if number.digits < 0 then ceiling number else floor number

def rounded (number : Decimal) : Int :=
  let half : Decimal := ⟨5, -1⟩
  if number.digits < 0 then ceiling (number.add half.negate) else floor (number.add half)

def readInt? (text : String) : Option Int :=
  let (negative, digits) := match text.toList with
    | '-' :: digits => (true, digits)
    | '+' :: digits => (false, digits)
    | digits => (false, digits)
  if digits.isEmpty || !digits.all Char.isDigit then none
  else
    let size : Int := digits.foldl (fun n c => n * 10 + (c.toNat - '0'.toNat)) 0
    some (if negative then -size else size)

def areUnique : List Datum → Bool
  | [] => true
  | item :: items => !items.contains item && areUnique items

def textFunction? (function : String) (arguments : List Datum) : Option Datum :=
  match function, arguments with
  | "ToUpper", [text] => text.text?.map fun text => .ofText (Text.upper text)
  | "ToLower", [text] => text.text?.map fun text => .ofText (Text.lower text)
  | "TrimSpace", [text] => text.text?.map fun text => .ofText (Text.trim text)
  | "Trim", [text, characters] => do return .ofText (trimmed (← characters.text?) (← text.text?))
  | "TrimPrefix", [text, start] => do
    return .ofText (Text.withoutStart (← start.text?) (← text.text?))
  | "TrimSuffix", [text, ending] => do
    return .ofText (Text.withoutEnd (← ending.text?) (← text.text?))
  | "Contains", [text, part] => do return .ofBool (Text.contains (← text.text?) (← part.text?))
  | "HasPrefix", [text, start] => do
    return .ofBool (Text.startsWith (← text.text?) (← start.text?))
  | "HasSuffix", [text, ending] => do
    return .ofBool (Text.endsWith (← text.text?) (← ending.text?))
  | "MinRunes", [text, least] => do return .ofBool ((← least.int?) ≤ (← text.text?).length)
  | "MaxRunes", [text, most] => do return .ofBool ((← text.text?).length ≤ (← most.int?))
  | "Join", [texts, separator] => do
    let texts ← (← texts.items?).mapM Datum.text?
    return .ofText (String.intercalate (← separator.text?) texts)
  | "Split", [text, separator] => do
    return .list ((split (← separator.text?) (← text.text?)).map .ofText)
  | "Fields", [text] => do return .list ((Text.fields Text.isBlank (← text.text?)).map .ofText)
  | "Count", [text, part] => do
    let text ← text.text?
    let part ← part.text?
    return .ofInt (if part.isEmpty then text.length + 1 else ((split part text).length : Int) - 1)
  | "Repeat", [text, count] => do
    let count ← count.int?
    if count < 0 then none
    else return .ofText (String.join (List.replicate (min count.toNat 1000000) (← text.text?)))
  | "Replace", [text, old, new, count] => do
    let old ← old.text?
    let count ← count.int?
    let parts := split old (← text.text?)
    if old.isEmpty then none
    else if count < 0 then return .ofText (String.intercalate (← new.text?) parts)
    else
      let first := parts.take (count.toNat + 1)
      let rest := parts.drop (count.toNat + 1)
      let replaced := String.intercalate (← new.text?) first
      return .ofText (String.join (replaced :: rest.map fun part => old ++ part))
  | _, _ => none

def listFunction? (function : String) (arguments : List Datum) : Option Datum :=
  match function, arguments with
  | "Concat", [lists] => do return .list (← (← lists.items?).mapM Datum.items?).flatten
  | "Repeat", [items, count] => do
    let count ← count.int?
    if count < 0 then none
    else return .list (List.replicate (min count.toNat 100000) (← items.items?)).flatten
  | "Range", [start, limit, step] => do
    let start ← start.number?
    let limit ← limit.number?
    let step ← step.number?
    let gap := limit.add start.negate
    if step.digits = 0 || (0 < gap.digits && step.digits < 0) || (gap.digits < 0 && 0 < step.digits)
    then none
    else
      let count := (ceiling (gap.divide step)).toNat + 1
      return .list ((range step limit (min count 100000) start).map .ofDecimal)
  | "Sum", [items] => do
    let numbers ← (← items.items?).mapM Datum.number?
    return .ofDecimal (numbers.foldl Decimal.add ⟨0, 0⟩)
  | "Product", [items] => do
    let numbers ← (← items.items?).mapM Datum.number?
    return .ofDecimal (numbers.foldl Decimal.multiply ⟨1, 0⟩)
  | "Max", [items] => do
    let numbers ← (← items.items?).mapM Datum.number?
    let first ← numbers.head?
    return .ofDecimal (numbers.foldl (fun a b => if a.compare b = .lt then b else a) first)
  | "Min", [items] => do
    let numbers ← (← items.items?).mapM Datum.number?
    let first ← numbers.head?
    return .ofDecimal (numbers.foldl (fun a b => if b.compare a = .lt then b else a) first)
  | "Contains", [items, value] => do return .ofBool ((← items.items?).contains value)
  | "MinItems", [items, least] => do return .ofBool ((← least.int?) ≤ (← items.items?).length)
  | "MaxItems", [items, most] => do return .ofBool ((← items.items?).length ≤ (← most.int?))
  | "UniqueItems", [items] => do return .ofBool (areUnique (← items.items?))
  | "Reverse", [items] => do return .list (← items.items?).reverse
  | "Take", [items, count] => do
    let count ← count.int?
    if count < 0 then none else return .list ((← items.items?).take count.toNat)
  | "Drop", [items, count] => do
    let count ← count.int?
    if count < 0 then none else return .list ((← items.items?).drop count.toNat)
  | "Slice", [items, low, high] => do
    let items ← items.items?
    let low ← low.int?
    let high ← high.int?
    if low < 0 || high < low || items.length < high then none
    else return .list ((items.take high.toNat).drop low.toNat)
  | "FlattenN", [items, depth] => do
    let depth ← depth.int?
    return .list (flattened (if depth < 0 then 100 else depth.toNat) (← items.items?))
  | "SortStrings", [items] => do
    let texts ← (← items.items?).mapM Datum.text?
    return .list ((texts.mergeSort fun a b => a ≤ b).map .ofText)
  | "IsSortedStrings", [items] => do
    let texts ← (← items.items?).mapM Datum.text?
    return .ofBool ((texts.mergeSort fun a b => a ≤ b) = texts)
  | _, _ => none

def numberFunction? (function : String) (arguments : List Datum) : Option Datum :=
  match function, arguments with
  | "Abs", [number] => number.number?.map fun number => .ofDecimal (magnitude number)
  | "Floor", [number] => number.number?.map fun number => .ofInt (floor number)
  | "Ceil", [number] => number.number?.map fun number => .ofInt (ceiling number)
  | "Trunc", [number] => number.number?.map fun number => .ofInt (truncated number)
  | "Round", [number] => number.number?.map fun number => .ofInt (rounded number)
  | "MultipleOf", [number, divisor] => do
    let number ← number.number?
    let divisor ← divisor.number?
    if divisor.digits = 0 then none
    else
      let (a, b, _) := number.aligned divisor
      return .ofBool (a % b = 0)
  | _, _ => none

def spellingFunction? (function : String) (arguments : List Datum) : Option Datum :=
  match function, arguments with
  | "Atoi", [text] => do return .ofInt (← readInt? (← text.text?))
  | "FormatInt", [number, base] => do
    let number ← number.int?
    let base ← base.int?
    if base < 2 || 16 < base then none
    else
      let digits := String.ofList (Nat.toDigits base.toNat number.natAbs)
      return .ofText (if number < 0 then "-" ++ digits else digits)
  | "FormatBool", [.scalar (.truth value)] => some (.ofText (if value then "true" else "false"))
  | "ParseBool", [text] => do
    let text ← text.text?
    if ["1", "t", "T", "TRUE", "true", "True"].contains text then return .ofBool true
    else if ["0", "f", "F", "FALSE", "false", "False"].contains text then return .ofBool false
    else none
  | _, _ => none

def recordFunction? (function : String) (arguments : List Datum) : Option Datum :=
  match function, arguments with
  | "MinFields", [.record fields, least] => do return .ofBool ((← least.int?) ≤ fields.length)
  | "MaxFields", [.record fields, most] => do return .ofBool (fields.length ≤ (← most.int?))
  | _, _ => none

def regexFunction? (function : String) (arguments : List Datum) : Option Datum :=
  match function, arguments with
  | "Match", [expression, text] => do
    let regex ← Regex.parse? (← expression.text?)
    return .ofBool (regex.occursIn (← text.text?))
  | _, _ => none

def packages : List String :=
  ["list", "math", "regexp", "strconv", "strings", "struct"]

def call? (package function : String) (arguments : List Datum) : Option Datum :=
  match package with
  | "strings" => textFunction? function arguments
  | "list" => listFunction? function arguments
  | "math" => numberFunction? function arguments
  | "strconv" => spellingFunction? function arguments
  | "struct" => recordFunction? function arguments
  | "regexp" => regexFunction? function arguments
  | _ => none

def conditions : List (String × String × Nat) :=
  [("strings", "Contains", 2), ("strings", "HasPrefix", 2), ("strings", "HasSuffix", 2),
    ("strings", "MinRunes", 2), ("strings", "MaxRunes", 2), ("list", "Contains", 2),
    ("list", "MinItems", 2), ("list", "MaxItems", 2), ("list", "UniqueItems", 1),
    ("list", "IsSortedStrings", 1), ("math", "MultipleOf", 2), ("struct", "MinFields", 2),
    ("struct", "MaxFields", 2), ("regexp", "Match", 2)]

def isCondition (package function : String) (count : Nat) : Bool :=
  conditions.contains (package, function, count + 1)

end Schematic.Data.Library
