import Schematic.Json.Decode
import Schematic.Text.Bytes
import Schematic.Yaml.Node

/-! # Values

What is asked of a value decides what it is taken for. A record takes the members of the mappings
that it merges, unless it has members of the same names itself. -/

namespace Schematic.Yaml

inductive Meaning where
  | null
  | truth (value : Bool)
  | whole (value : Int)
  | fraction (negative : Bool) (size : Binary64)
  | infinite (negative : Bool)
  | notNumber
  | moment
  | text (content : String)
  deriving DecidableEq

namespace Meaning

def tag : Meaning → String
  | .null => "!!null"
  | .truth _ => "!!bool"
  | .whole _ => "!!int"
  | .fraction _ _ => "!!float"
  | .infinite _ => "!!float"
  | .notNumber => "!!float"
  | .moment => "!!timestamp"
  | .text _ => "!!str"

def named? (text : String) : Option Meaning :=
  if ["", "~", "null", "Null", "NULL"].contains text then some .null
  else if ["true", "True", "TRUE"].contains text then some (.truth true)
  else if ["false", "False", "FALSE"].contains text then some (.truth false)
  else if [".nan", ".NaN", ".NAN"].contains text then some .notNumber
  else if [".inf", ".Inf", ".INF", "+.inf", "+.Inf", "+.INF"].contains text then
    some (.infinite false)
  else if ["-.inf", "-.Inf", "-.INF"].contains text then some (.infinite true)
  else none

def isDecimal (text : List Char) : Bool :=
  let body := (Word.readSign text).2
  let before := body.takeWhile Char.isDigit
  let rest := body.dropWhile Char.isDigit
  let (behind, rest) := match rest with
    | '.' :: rest => (rest.takeWhile Char.isDigit, rest.dropWhile Char.isDigit)
    | rest => ([], rest)
  let exponentOk := match rest with
    | [] => true
    | e :: rest =>
      let digits := (Word.readSign rest).2
      (e == 'e' || e == 'E') && !digits.isEmpty && digits.all Char.isDigit
  (!before.isEmpty || !behind.isEmpty) && exponentOk

def fraction? (text : List Char) : Option Meaning :=
  if isDecimal text then
    let (negative, digits, power) := Json.numeralParts (String.ofList text)
    (Binary64.ofDecimal? digits power).map (.fraction negative)
  else none

def underscoresBetween : (behindDigit : Bool) → List Char → Bool
  | _, [] => true
  | behindDigit, '_' :: rest =>
    behindDigit && (rest.head?.map Char.isDigit).getD false && underscoresBetween false rest
  | _, c :: rest => underscoresBetween c.isDigit rest

def greatestWhole : Nat := 0xFFFFFFFFFFFFFFFF

def inBase? (base : Nat) (text : List Char) : Option Int :=
  let (negative, digits) := Word.readSign text
  ((Word.readUnsigned? base greatestWhole digits).bind (Word.signed? negative)) <|>
    ((Word.readUnsigned? base greatestWhole text).map Int.ofNat)

def behindBase? (letter : Char) (base : Nat) (text : List Char) : Option Int :=
  match text with
  | '0' :: c :: rest => if c == letter then inBase? base rest else none
  | '-' :: '0' :: c :: rest =>
    if c == letter then (Word.readUnsigned? base greatestWhole rest).bind (Word.signed? true)
    else none
  | _ => none

def whole? (text : List Char) : Option Int :=
  (Word.readNumeral? text) <|>
    (let (base, digits, _) := Word.readBase text
    if text.isEmpty then none else (Word.readUnsigned? base greatestWhole digits).map Int.ofNat)

def shortNumber? (least greatest : Nat) (text : List Char) : Option (Nat × List Char) :=
  let digits := (text.take 2).takeWhile Char.isDigit
  if digits.isEmpty then none
  else do
    let value ← Word.digitsValue? 10 digits
    if least ≤ value && value ≤ greatest then some (value, text.drop digits.length) else none

def behindSign? (sign : Char) : List Char → Option (List Char)
  | c :: rest => if c == sign then some rest else none
  | [] => none

def daysIn (year month : Nat) : Nat :=
  if month = 2 then
    if year % 4 = 0 && (year % 100 ≠ 0 || year % 400 = 0) then 29 else 28
  else if [4, 6, 9, 11].contains month then 30
  else 31

def date? (text : List Char) : Option (List Char) := do
  let digits := text.takeWhile Char.isDigit
  if digits.length ≠ 4 then none
  else
    let year ← Word.digitsValue? 10 digits
    let (month, text) ← shortNumber? 1 12 (← behindSign? '-' (text.drop 4))
    let (day, text) ← shortNumber? 1 31 (← behindSign? '-' text)
    if day ≤ daysIn year month then some text else none

def time? (text : List Char) : Option (List Char) := do
  let (_, text) ← shortNumber? 0 23 text
  let (_, text) ← shortNumber? 0 59 (← behindSign? ':' text)
  let (_, text) ← shortNumber? 0 59 (← behindSign? ':' text)
  match text with
  | c :: d :: rest =>
    if (c == '.' || c == ',') && d.isDigit then some (rest.dropWhile Char.isDigit)
    else some (c :: d :: rest)
  | text => some text

def isZone : List Char → Bool
  | ['Z'] => true
  | [sign, a, b, ':', c, d] =>
    (sign == '+' || sign == '-') && ((Word.readUnsigned? 10 24 [a, b]).isSome) &&
      (Word.readUnsigned? 10 60 [c, d]).isSome
  | _ => false

def isMoment (text : List Char) : Bool :=
  match date? text with
  | none => false
  | some [] => true
  | some (c :: rest) =>
    if c == 'T' || c == 't' then (time? rest).any isZone
    else if c == ' ' then (time? (rest.dropWhile (· == ' '))).any List.isEmpty
    else false

def ofText (moments : Bool) (text : String) : Meaning :=
  match named? text, text.toList with
  | some meaning, _ => meaning
  | none, [] => .null
  | none, start :: rest =>
    if start == '.' then
      if underscoresBetween false (start :: rest) then
        (fraction? ((start :: rest).filter (· != '_'))).getD (.text text)
      else .text text
    else if start.isDigit || start == '-' || start == '+' then
      if moments && isMoment (start :: rest) then .moment
      else
        let plain := (start :: rest).filter (· != '_')
        (((whole? plain).map Meaning.whole) <|> (fraction? plain) <|>
          ((behindBase? 'b' 2 plain).map Meaning.whole) <|>
          ((behindBase? 'o' 8 plain).map Meaning.whole)).getD (.text text)
    else .text text

def ofTagged? (text tag : String) : Option Meaning :=
  match tag with
  | "" => some (ofText true text)
  | "!!str" => some (.text text)
  | "!!binary" => (Text.ofSigns? text).map .text
  | tag =>
    if ["!!bool", "!!int", "!!float", "!!null", "!!timestamp"].contains tag then
      let meaning := ofText (tag = "!!timestamp") text
      if meaning.tag = tag then some meaning
      else
        match tag, meaning with
        | "!!float", .whole value =>
          if value ≤ Word.greatest then
            (Binary64.ofDecimal? value.natAbs 0).map (.fraction (value < 0))
          else none
        | _, _ => none
    else some (.text text)

def truncated? (negative : Bool) (size : Binary64) : Option Int :=
  let n : Int := size.floor
  if negative then some (max (-n) Word.least)
  else if n > Word.greatest + 1 then none
  else some (if n > Word.greatest then Word.least else n)

def word? : Meaning → Option Int
  | .whole value => if value ≤ Word.greatest then some value else none
  | .fraction negative size => truncated? negative size
  | .infinite true => some Word.least
  | _ => none

def truth? : Meaning → Option Bool
  | .truth value => some value
  | .text content =>
    if ["y", "Y", "yes", "on"].contains content then some true
    else if ["n", "N", "no", "off"].contains content then some false
    else none
  | _ => none

end Meaning

/-- How much has been decoded. -/
structure Tally where
  decoded : Nat := 0
  aliased : Nat := 0
  followed : List Nat := []

abbrev Decoding (α : Type) := ReaderT (List (Nat × Yaml)) (StateT Tally Option) α

namespace Tally

def allowance (decoded : Nat) : Nat :=
  if decoded ≤ 400000 then 356400000
  else if 4000000 ≤ decoded then 36000000
  else 356400000 - 89 * (decoded - 400000)

def isExcessive (tally : Tally) : Bool :=
  100 < tally.aliased && 1000 < tally.decoded &&
    allowance tally.decoded * tally.decoded < 360000000 * tally.aliased

end Tally

namespace Decoding

def count : Decoding Unit := do
  let tally ← get
  let tally : Tally :=
    { tally with
      decoded := tally.decoded + 1
      aliased := if tally.followed.isEmpty then tally.aliased else tally.aliased + 1 }
  if tally.isExcessive then failure else set tally

def follow {α : Type} (decode : Yaml → Decoding α) (value : Yaml) : Decoding α := do
  count
  match value with
  | .alias _ number anchor =>
    let followed := (← get).followed
    match (← read).lookup anchor with
    | none => failure
    | some target =>
      if followed.contains number then failure
      else
        modify fun tally => { tally with followed := number :: followed }
        count
        let result ← decode target
        modify fun tally => { tally with followed }
        return result
  | value => decode value

def scalar : Yaml → Decoding (Meaning × String) :=
  follow fun value =>
    match value with
    | .scalar text tag =>
      match Meaning.ofTagged? text tag with
      | some (.text content) => return (.text content, content)
      | some meaning => return (meaning, text)
      | none => failure
    | _ => failure

def optionalText (value : Yaml) : Decoding (Option String) := do
  let (meaning, text) ← scalar value
  return if meaning = .null then none else some text

def text (value : Yaml) : Decoding String := do
  return (← optionalText value).getD ""

def optionalWord (value : Yaml) : Decoding (Option Int) := do
  match ← scalar value with
  | (.null, _) => return none
  | (meaning, _) =>
    match meaning.word? with
    | some word => return some word
    | none => failure

def word (value : Yaml) : Decoding Int := do
  return (← optionalWord value).getD 0

def truth (value : Yaml) : Decoding Bool := do
  match ← scalar value with
  | (.null, _) => return false
  | (meaning, _) =>
    match meaning.truth? with
    | some truth => return truth
    | none => failure

def isNull : Yaml → Bool
  | .scalar text tag => Meaning.ofTagged? text tag = some .null
  | _ => false

def list {α : Type} (item : Yaml → Decoding (Option α)) : Yaml → Decoding (List α) :=
  follow fun value =>
    match value with
    | .sequence items => do
      let found ← items.mapM item
      return found.filterMap id
    | value => if isNull value then return [] else failure

def keyMark : Yaml → Nat × String
  | .scalar text _ => (0, text)
  | .sequence _ => (1, "")
  | .mapping _ => (2, "")
  | .alias name _ _ => (3, name)

def isMergeKey : Yaml → Bool
  | .scalar text tag => text = "<<" && tag = "!!merge"
  | _ => false

def mergeSources : Yaml → List Yaml
  | .sequence items => items
  | source => [source]

def fill {α : Type} (member : String → Option (α → Yaml → Decoding α)) : (depth : Nat) →
    (taken : Option (List String)) → (entries : List (Yaml × Yaml)) → α →
    Decoding (α × Option (List String))
  | 0, _, _, _ => failure
  | depth + 1, taken, entries, record => do
    let marks := entries.map fun entry => keyMark entry.1
    if marks.eraseDups.length ≠ marks.length then failure
    else
      let (record, taken, _) ← entries.foldlM
        (fun (record, taken, done) (key, value) => do
          if isMergeKey key then return (record, taken, done)
          else
            match ← optionalText key with
            | none => return (record, taken, done)
            | some name =>
              if taken.any fun names : List String => names.contains name then
                return (record, taken, done)
              else
                let taken := taken.map (name :: ·)
                match member name with
                | none => return (record, taken, done)
                | some change =>
                  if done.contains name then failure
                  else return (← change record value, taken, name :: done))
        (record, taken, ([] : List String))
      match (entries.filter fun entry => isMergeKey entry.1).getLast? with
      | none => return (record, taken)
      | some (_, source) =>
        let names ← match taken with
          | some names => pure names
          | none => do
            let texts ← entries.mapM fun (key, _) => optionalText key
            pure (texts.filterMap id)
        let (record, names) ← (mergeSources source).foldlM
          (fun (record, names) source =>
            follow
              (fun source =>
                match source with
                | .mapping entries => do
                  let (record, taken) ← fill member depth (some names) entries record
                  return (record, taken.getD names)
                | _ => failure)
              source)
          (record, names)
        return (record, taken.map fun _ => names)

def optionalRecord {α : Type} (member : String → Option (α → Yaml → Decoding α)) (fresh : α) :
    Yaml → Decoding (Option α) :=
  follow fun value =>
    match value with
    | .mapping entries => do
      let (record, _) ← fill member Scanner.deepest none entries fresh
      return some record
    | value => if isNull value then return none else failure

def record {α : Type} (member : String → Option (α → Yaml → Decoding α)) (fresh : α)
    (value : Yaml) : Decoding α := do
  return (← optionalRecord member fresh value).getD fresh

end Decoding

def Document.decode? {α : Type} (decode : Yaml → Decoding α) (document : Document) : Option α :=
  let decoding : Decoding α := do
    Decoding.count
    decode document.root
  ((decoding.run document.anchored).run {}).map (·.1)

end Schematic.Yaml
