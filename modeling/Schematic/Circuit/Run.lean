import Schematic.Netlist.Design

/-! # Runs

The bits of a port in maximal runs, from the most significant bit down: bits that consecutive bits
of one net feed in the same order, and bits that are not connected. -/

namespace Schematic

/-- The bits `high` down to `low` of a net. -/
structure NetRange where
  net : Int
  high : Int
  low : Int
  deriving DecidableEq, Repr

/-- The bits `high` down to `low` of a port with the net bits that feed them, if any. -/
structure Run where
  high : Nat
  low : Nat
  source : Option NetRange
  deriving DecidableEq, Repr

namespace Run

def isGap (run : Run) : Bool :=
  run.source.isNone

def width (run : Run) : Nat :=
  run.high - run.low + 1

def bits (run : Run) : String :=
  if run.high = run.low then s!"bit {run.low}" else s!"bits {run.high} downto {run.low}"

def single (position : Nat) (point : Point) : Run :=
  ⟨position, position,
    if point.isConnected then some ⟨point.net, point.bit, point.bit⟩ else none⟩

def extend? (run : Run) (position : Nat) (point : Point) : Option Run :=
  match run.source with
  | none => if point.isConnected then none else some { run with low := position }
  | some range =>
    if point.isConnected && range.net = point.net && point.bit = Word.wrap (range.low - 1) then
      some { run with low := position, source := some { range with low := point.bit } }
    else none

def addBit (runs : List Run) (entry : Point × Nat) : List Run :=
  match runs with
  | [] => [single entry.2 entry.1]
  | last :: rest =>
    match last.extend? entry.2 entry.1 with
    | some longer => longer :: rest
    | none => single entry.2 entry.1 :: last :: rest

def pointAt? (run : Run) (position : Nat) : Option Point :=
  match run.source with
  | some range =>
    if run.low ≤ position && position ≤ run.high then
      some ⟨range.net, Word.wrap (range.low + (position - run.low : Nat))⟩
    else none
  | none => none

end Run

def runs (points : List Point) : List Run :=
  (points.zipIdx.reverse.foldl Run.addBit []).reverse

def expandRuns (runs : List Run) (width : Nat) : List Point :=
  (List.range width).map fun position =>
    (runs.findSome? fun run => run.pointAt? position).getD Point.unconnected

end Schematic
