import Schematic.Hdl.Dialect

/-! # Source lines

Lines are nested by indentation, and a line of blanks is empty at any depth. -/

namespace Schematic.Hdl

def indentUnit : String := "   "

namespace Lines

def place (depth : Nat) (line : String) : String :=
  if Text.isBlankText line then "" else Text.repeated depth indentUnit ++ line

def ofText (text : String) : List String :=
  (Text.lines text).map (place 0)

def nest (lines : List String) : List String :=
  lines.map (place 1)

def gap (lines : List String) : List String :=
  if lines.getLast? == some "" then lines else lines ++ [""]

def gapIfAny (lines : List String) : List String :=
  if lines.isEmpty then [] else gap lines

def comment (dialect : Dialect) (text : String) : List String :=
  (Text.lines text).map fun line =>
    place 0 (Text.trimEnd (· == ' ') (dialect.commentMark ++ " " ++ line))

def remark (dialect : Dialect) (texts : List String) : List String :=
  let rule := dialect.commentMark ++ Text.repeated 74 "="
  rule :: texts.map (fun text => place 0 (dialect.commentMark ++ "== " ++ text)) ++ [rule]

def toText (lines : List String) : String :=
  String.join (lines.map (· ++ "\n"))

def closeLast (ending : String) : List String → List String
  | [] => []
  | [last] => [last ++ ending]
  | line :: rest => line :: closeLast ending rest

end Lines

/-- A source text under construction: the lines so far and the depth of the next one. -/
structure Source where
  dialect : Dialect
  lines : List String := []
  depth : Nat := 0

namespace Source

def addLines (source : Source) (lines : List String) : Source :=
  { source with lines := source.lines ++ lines.map (Lines.place source.depth) }

def addText (source : Source) (text : String) : Source :=
  source.addLines (Text.lines text)

def addGap (source : Source) : Source :=
  { source with lines := Lines.gap source.lines }

def addComment (source : Source) (text : String) : Source :=
  source.addLines (Lines.comment source.dialect text)

def addRemark (source : Source) (texts : List String) : Source :=
  source.addLines (Lines.remark source.dialect texts)

def deeper (source : Source) : Source :=
  { source with depth := source.depth + 1 }

def shallower (source : Source) : Source :=
  { source with depth := source.depth - 1 }

end Source

end Schematic.Hdl
