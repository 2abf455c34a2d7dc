import Schematic.Hdl.Expr
import Schematic.Hdl.Source

/-! # Instances and statements

An instance is written in either dialect from the same associations. -/

namespace Schematic.Hdl

/-- A formal generic or port with the expression bound to it; a formal without one stays open. -/
structure Association where
  formal : Expr
  actual : Option Expr
  deriving Repr

structure Instance where
  label : String
  target : String
  generics : List Association := []
  ports : List Association := []
  deriving Repr

namespace Association

def bound (formal : String) (actual : Expr) : Association :=
  ⟨.signal formal, some actual⟩

def vhdl (column : Nat) (association : Association) : String :=
  let formal := Text.padTo column (association.formal.spell .vhdl)
  let actual := match association.actual with
    | some actual => actual.spell .vhdl
    | none => "open"
  s!"{formal} => {actual}"

def verilog (association : Association) : String :=
  let formal := association.formal.spell .verilog
  let actual := match association.actual with
    | some actual => actual.spell .verilog
    | none => ""
  s!".{formal}({actual})"

end Association

namespace Instance

def vhdlAssociations (associations : List Association) : List String :=
  let column := Text.columnWidth (associations.map fun a => a.formal.spell .vhdl)
  (Text.separated "," (Association.vhdl column) associations).flatMap Lines.ofText

def vhdlMap (title : String) (associations : List Association) : List String :=
  if associations.isEmpty then []
  else (title ++ " map (") :: Lines.nest (vhdlAssociations associations) ++ [")"]

def vhdl (inst : Instance) : List String :=
  Lines.closeLast ";" <|
    Lines.ofText (inst.label ++ " : " ++ inst.target) ++
      Lines.nest (vhdlMap "generic" inst.generics ++ vhdlMap "port" inst.ports)

def verilogAssociations (associations : List Association) : List String :=
  Lines.nest ((Text.separated "," Association.verilog associations).flatMap Lines.ofText)

def verilog (inst : Instance) : List String :=
  let opening :=
    if inst.generics.isEmpty then []
    else Lines.ofText (inst.target ++ " #(") ++ verilogAssociations inst.generics
  let head := if inst.generics.isEmpty then inst.target else ")"
  if inst.ports.isEmpty then
    opening ++ Lines.ofText (head ++ " " ++ inst.label ++ " ();")
  else
    opening ++ Lines.ofText (head ++ " " ++ inst.label ++ " (") ++
      verilogAssociations inst.ports ++ [");"]

def lines (inst : Instance) : Dialect → List String
  | .vhdl => inst.vhdl
  | .verilog => inst.verilog

end Instance

end Schematic.Hdl

namespace Schematic

open Hdl

structure Assignment where
  target : Expr
  source : Expr
  deriving Repr

inductive Statement where
  | gap
  | assign (assignment : Assignment)
  | instantiate (use : Instance)
  deriving Repr

/-- A titled part of a body. -/
structure BodySection where
  title : String
  statements : List Statement
  deriving Repr

namespace Assignment

def lines (assignment : Assignment) (dialect : Dialect) : List String :=
  Lines.ofText
    (dialect.assign (assignment.target.spell dialect) (assignment.source.spell dialect))

end Assignment

namespace Statement

def spell (dialect : Dialect) (statements : List Statement) : List String :=
  statements.foldl
    (fun lines statement =>
      match statement with
      | .gap => Lines.gap lines
      | .assign assignment => lines ++ assignment.lines dialect
      | .instantiate use => lines ++ use.lines dialect)
    []

end Statement

namespace BodySection

def spell (dialect : Dialect) (sections : List BodySection) : List String :=
  sections.foldl
    (fun lines part =>
      if part.statements.isEmpty then lines
      else
        Lines.gapIfAny lines ++ Lines.comment dialect part.title ++
          Statement.spell dialect part.statements)
    []

end BodySection

end Schematic
