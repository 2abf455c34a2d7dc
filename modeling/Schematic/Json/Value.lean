import Schematic.Text.Quoted

/-! # JSON values

Numbers are numerals, and an object lists its members in order, repeated names included. -/

namespace Schematic

inductive Json where
  | null
  | bool (value : Bool)
  | number (numeral : String)
  | string (text : String)
  | array (items : List Json)
  | object (members : List (String × Json))

namespace Json

def ofInt (n : Int) : Json :=
  .number (toString n)

def ofTexts (texts : List String) : Json :=
  .array (texts.map .string)

end Json

end Schematic

namespace Schematic.Json

def writeChar (c : Char) : List Char :=
  match c with
  | '"' => ['\\', '"']
  | '\\' => ['\\', '\\']
  | '\n' => ['\\', 'n']
  | '\r' => ['\\', 'r']
  | '\t' => ['\\', 't']
  | c =>
    let code := c.toNat
    if code == 8 then ['\\', 'b']
    else if code == 12 then ['\\', 'f']
    else if code < 0x20 || c == '<' || c == '>' || c == '&' || code == 0x2028 || code == 0x2029 then
      '\\' :: 'u' :: Text.hexDigits 4 code
    else [c]

def writeString (text : String) : String :=
  String.ofList ('"' :: text.toList.flatMap writeChar ++ ['"'])

mutual

def compact : Json → String
  | .null => "null"
  | .bool value => if value then "true" else "false"
  | .number numeral => numeral
  | .string text => writeString text
  | .array items => "[" ++ ",".intercalate (compactItems items) ++ "]"
  | .object members => "\x7b" ++ ",".intercalate (compactMembers members) ++ "\x7d"

def compactItems : List Json → List String
  | [] => []
  | item :: items => item.compact :: compactItems items

def compactMembers : List (String × Json) → List String
  | [] => []
  | (name, value) :: members =>
    (writeString name ++ ":" ++ value.compact) :: compactMembers members

end

def newline (level : Nat) : String :=
  String.ofList ('\n' :: List.replicate (2 * level) ' ')

mutual

def indentedAt (level : Nat) : Json → String
  | .array [] => "[]"
  | .array items =>
    let start := newline (level + 1)
    "[" ++ start ++ ("," ++ start).intercalate (indentedItems (level + 1) items) ++
      newline level ++ "]"
  | .object [] => "\x7b\x7d"
  | .object members =>
    let start := newline (level + 1)
    "\x7b" ++ start ++ ("," ++ start).intercalate (indentedMembers (level + 1) members) ++
      newline level ++ "\x7d"
  | .null => "null"
  | .bool value => if value then "true" else "false"
  | .number numeral => numeral
  | .string text => writeString text

def indentedItems (level : Nat) : List Json → List String
  | [] => []
  | item :: items => item.indentedAt level :: indentedItems level items

def indentedMembers (level : Nat) : List (String × Json) → List String
  | [] => []
  | (name, value) :: members =>
    (writeString name ++ ": " ++ value.indentedAt level) :: indentedMembers level members

end

def indented (value : Json) : String :=
  value.indentedAt 0

end Schematic.Json
