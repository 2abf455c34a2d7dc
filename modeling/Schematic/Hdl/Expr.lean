import Schematic.Hdl.Dialect
import Schematic.Number.Word

/-! # Expressions

The sides of assignments and the actuals of port maps, kept apart from their spelling. -/

namespace Schematic.Hdl.Dialect

def digit (value : Bool) : Char :=
  if value then '1' else '0'

def bit (dialect : Dialect) (value : Bool) : String :=
  match dialect with
  | .vhdl => String.ofList ['\'', digit value, '\'']
  | .verilog => "1'b" ++ String.ofList [digit value]

def digits (dialect : Dialect) (width : Int) (text : List Char) : String :=
  match dialect with
  | .vhdl => String.ofList ('"' :: text ++ ['"'])
  | .verilog => s!"{width}'b" ++ String.ofList text

def binaryDigits (value width : Nat) : List Char :=
  (List.range width).reverse.map fun position => digit (value.testBit position)

def literal (dialect : Dialect) (value : Nat) (width : Int) : String :=
  if width == 1 then dialect.bit (value.testBit 0)
  else dialect.digits width (binaryDigits value width.toNat)

def fill (dialect : Dialect) (value : Bool) (width : Nat) : String :=
  if width == 1 then dialect.bit value
  else dialect.digits width (List.replicate width (digit value))

def fill? (dialect : Dialect) (value : Bool) (width : Int) : Except Abort String :=
  (storable 1 width).map (dialect.fill value)

def others (dialect : Dialect) (value : Bool) (width : String) : String :=
  match dialect with
  | .vhdl => "(others => " ++ bit .vhdl value ++ ")"
  | .verilog => "\x7b" ++ width ++ "\x7b" ++ bit .verilog value ++ "\x7d\x7d"

def index (dialect : Dialect) (name : String) (position : Int) : String :=
  match dialect with
  | .vhdl => s!"{name}({position})"
  | .verilog => s!"{name}[{position}]"

def slice (dialect : Dialect) (name : String) (high low : Int) : String :=
  if high == low then dialect.index name high
  else
    match dialect with
    | .vhdl => s!"{name}({high} downto {low})"
    | .verilog => s!"{name}[{high}:{low}]"

def concat (dialect : Dialect) : List String → String
  | [part] => part
  | parts =>
    match dialect with
    | .vhdl => " & ".intercalate parts
    | .verilog => "\x7b" ++ ", ".intercalate parts ++ "\x7d"

def complement (dialect : Dialect) (operand : String) : String :=
  match dialect with
  | .vhdl => s!"not({operand})"
  | .verilog => s!"~({operand})"

inductive Operator where
  | and
  | or
  | xor
  deriving DecidableEq, Repr

def operatorSign (dialect : Dialect) : Operator → String
  | .and => match dialect with | .vhdl => " and " | .verilog => " & "
  | .or => match dialect with | .vhdl => " or " | .verilog => " | "
  | .xor => match dialect with | .vhdl => " xor " | .verilog => " ^ "

def join (dialect : Dialect) (operator : Operator) (operands : List String) : String :=
  (dialect.operatorSign operator).intercalate operands

def assign (dialect : Dialect) (target source : String) : String :=
  match dialect with
  | .vhdl => s!"{target} <= {source};"
  | .verilog => s!"assign {target} = {source};"

def paddedTarget (width : Int) (target : String) : String :=
  Text.padTo width.natAbs target

def assignAligned (dialect : Dialect) (target : String) (width : Int) (source : String) : String :=
  dialect.assign (paddedTarget width target) source

def range (dialect : Dialect) (width : String) : String :=
  match dialect with
  | .vhdl => s!"({width}-1 downto 0)"
  | .verilog => s!"[{width}-1:0]"

def fixedType (dialect : Dialect) (width : Int) : String :=
  let high := Word.wrap (width - 1)
  match dialect with
  | .vhdl => if width == 1 then "std_logic" else s!"std_logic_vector({high} downto 0)"
  | .verilog => if width == 1 then "" else s!"[{high}:0]"

def sizedType (dialect : Dialect) (width : String) : String :=
  match dialect with
  | .vhdl => "std_logic_vector" ++ dialect.range width
  | .verilog => dialect.range width

end Schematic.Hdl.Dialect

namespace Schematic.Hdl

/-- An expression over the signals of a module. -/
inductive Expr where
  | signal (name : String)
  | number (value : Int)
  | bit (value : Bool)
  | literal (value width : Nat)
  | fill (value : Bool) (width : Nat)
  | index (name : String) (position : Int)
  | slice (name : String) (high low : Int)
  | concat (parts : List Expr)
  | complement (operand : Expr)
  deriving Repr

namespace Expr

def spell (dialect : Dialect) : Expr → String
  | .signal name => name
  | .number value => toString value
  | .bit value => dialect.bit value
  | .literal value width => dialect.literal value width
  | .fill value width => dialect.fill value width
  | .index name position => dialect.index name position
  | .slice name high low => dialect.slice name high low
  | .concat parts => dialect.concat (spellAll dialect parts)
  | .complement operand => dialect.complement (operand.spell dialect)
where
  spellAll (dialect : Dialect) : List Expr → List String
    | [] => []
    | part :: parts => part.spell dialect :: spellAll dialect parts

def bitsOf (name : String) (width high low : Int) : Expr :=
  if width == 1 || (high == Word.wrap (width - 1) && low == 0) then .signal name
  else .slice name high low

def bitOf (name : String) (width position : Int) : Expr :=
  if width == 1 then .signal name else .index name position

end Expr

end Schematic.Hdl
