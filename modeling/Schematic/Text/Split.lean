/-! # Splitting and padding texts

Texts are cut at separators and filled up to a width. -/

namespace Schematic.Text

def isBlank (c : Char) : Bool :=
  let n := c.toNat
  (9 ≤ n && n ≤ 13) || n == 0x20 || n == 0x85 || n == 0xA0 || n == 0x1680 ||
    (0x2000 ≤ n && n ≤ 0x200A) || n == 0x2028 || n == 0x2029 || n == 0x202F ||
    n == 0x205F || n == 0x3000

def dropEndWhile {α : Type} (p : α → Bool) (items : List α) : List α :=
  (items.reverse.dropWhile p).reverse

def trim (text : String) : String :=
  String.ofList (dropEndWhile isBlank (text.toList.dropWhile isBlank))

def trimEnd (p : Char → Bool) (text : String) : String :=
  String.ofList (dropEndWhile p text.toList)

def isBlankText (text : String) : Bool :=
  text.toList.all isBlank

def widestField : Nat := 1000000

def badField : String := "%!(BADWIDTH)"

def padTo (width : Nat) (text : String) : String :=
  if width ≤ widestField then
    text ++ String.ofList (List.replicate (width - text.length) ' ')
  else badField ++ text

def columnWidth (texts : List String) : Nat :=
  (texts.map String.utf8ByteSize).foldl max 0

def repeated (count : Nat) (text : String) : String :=
  String.join (List.replicate count text)

def separated {α : Type} (separator : String) (render : α → String) : List α → List String
  | [] => []
  | [last] => [render last]
  | item :: rest => (render item ++ separator) :: separated separator render rest

def splitList (p : Char → Bool) : List Char → List (List Char)
  | [] => [[]]
  | c :: rest =>
    if p c then [] :: splitList p rest
    else
      match splitList p rest with
      | [] => [[c]]
      | piece :: pieces => (c :: piece) :: pieces

def splitAt (separator : Char) (text : String) : List String :=
  (splitList (· == separator) text.toList).map String.ofList

def lines (text : String) : List String :=
  splitAt '\n' text

def fields (p : Char → Bool) (text : String) : List String :=
  ((splitList p text.toList).filter (!·.isEmpty)).map String.ofList

def dropStart? {α : Type} [BEq α] : (start text : List α) → Option (List α)
  | [], text => some text
  | _ :: _, [] => none
  | s :: start, c :: text => if s == c then dropStart? start text else none

def splitFirst? (pattern : List Char) : List Char → Option (List Char × List Char)
  | [] => (dropStart? pattern []).map fun rest => ([], rest)
  | c :: text =>
    match dropStart? pattern (c :: text) with
    | some rest => some ([], rest)
    | none => (splitFirst? pattern text).map fun (before, behind) => (c :: before, behind)

def contains (text pattern : String) : Bool :=
  (splitFirst? pattern.toList text.toList).isSome

def startsWith (text start : String) : Bool :=
  (dropStart? start.toList text.toList).isSome

def endsWith (text ending : String) : Bool :=
  (dropStart? ending.toList.reverse text.toList.reverse).isSome

def withoutEnd (ending text : String) : String :=
  match dropStart? ending.toList.reverse text.toList.reverse with
  | some rest => String.ofList rest.reverse
  | none => text

def withoutStart (start text : String) : String :=
  match dropStart? start.toList text.toList with
  | some rest => String.ofList rest
  | none => text

end Schematic.Text
