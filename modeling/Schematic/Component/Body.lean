import Schematic.Component.Port

/-! # Component bodies

What the module of a variant does, written in either dialect. -/

namespace Schematic.Variant

open Hdl

def ledBody (dialect : Dialect) : List String :=
  [dialect.assign hiddenOutput "Input"]

def switchBody (dialect : Dialect) : List String :=
  [dialect.assign "Output" hiddenInput]

def portIOBody (dialect : Dialect) (width : Nat) : List String :=
  match dialect with
  | .vhdl =>
    let released := if 1 < width then "(others => 'Z')" else "'Z'"
    [s!"{hiddenInout} <= DataIn when OutputEnable = '1' else {released};",
      s!"DataOut <= {hiddenInout};"]
  | .verilog =>
    let released := Text.repeated width "z"
    [s!"assign {hiddenInout} = OutputEnable ? DataIn : {width}'b{released};",
      s!"assign DataOut = {hiddenInout};"]

def gateOperator : GateOperator → Dialect.Operator
  | .and => .and
  | .nand => .and
  | .or => .or
  | .nor => .or
  | .xor => .xor
  | .xnor => .xor

def gateInverts : GateOperator → Bool
  | .nand => true
  | .nor => true
  | .xnor => true
  | _ => false

def complementedIf (dialect : Dialect) (inverts : Bool) (expression : String) : String :=
  if inverts then dialect.complement expression else expression

def gateBody (dialect : Dialect) (operator : GateOperator) (inputs : Nat) : List String :=
  let joined := dialect.join (gateOperator operator) (gateInputNames inputs)
  [dialect.assign "Result" (complementedIf dialect (gateInverts operator) joined)]

def bufferBody (dialect : Dialect) (inverts : Bool) : List String :=
  [dialect.assign "Result" (complementedIf dialect inverts (gateInput 1))]

def sumSlice (dialect : Dialect) (high low : String) : String :=
  match dialect with
  | .vhdl => s!"s_sum_result({high} downto {low})"
  | .verilog => s!"s_sum_result[{high}:{low}]"

def sumBit (dialect : Dialect) (position : String) : String :=
  match dialect with
  | .vhdl => s!"s_sum_result({position})"
  | .verilog => s!"s_sum_result[{position}]"

def adderBody (dialect : Dialect) (bus : Bool) : List String :=
  let result := if bus then sumSlice dialect "NrOfBits-1" "0" else sumBit dialect "0"
  let carry := sumBit dialect (if bus then "NrOfBits" else "1")
  let sum := match dialect with
    | .vhdl =>
      ["s_sum_result     <= std_logic_vector(unsigned(s_extended_dataA) + " ++
        "unsigned(s_extended_dataB) +",
        "                    unsigned'(0 => CarryIn));"]
    | .verilog => ["assign s_sum_result     = s_extended_dataA + s_extended_dataB + CarryIn;"]
  [dialect.assignAligned "s_extended_dataA" 16 (dialect.concat [dialect.bit false, "DataA"]),
    dialect.assignAligned "s_extended_dataB" 16 (dialect.concat [dialect.bit false, "DataB"])] ++
    sum ++
    ["", dialect.assignAligned "Result" 8 result, dialect.assignAligned "CarryOut" 8 carry]

def withSum (bus : Bool) (interface : Interface) : Interface :=
  ["s_extended_dataA", "s_extended_dataB", "s_sum_result"].foldl
    (fun interface name => interface.addWire name (computedWidth bus)) interface

def multiplierBody (dialect : Dialect) (bus : Bool) : List String :=
  if bus then
    match dialect with
    | .vhdl => ["Mult <= std_logic_vector(unsigned(INP_A) * unsigned(INP_B));"]
    | .verilog => ["assign Mult = INP_A * INP_B;"]
  else
    [dialect.assign "Mult"
      (dialect.concat [dialect.bit false, "(" ++ dialect.join .and ["INP_A", "INP_B"] ++ ")"])]

def muxArms (select : Nat) : List (Nat × String) :=
  (List.range (muxSize select - 1).toNat).map fun value : Nat => (value, muxInput value)

def muxDefault (select : Nat) : String :=
  muxInput (muxSize select - 1)

def muxSensitivity (select : Nat) : List String :=
  "Enable" :: "Sel" :: muxInputNames select

def muxTarget : Dialect → String
  | .vhdl => "MuxOut"
  | .verilog => "s_selected_vector"

/-- The choice of all values that are not named. -/
def muxOthers : Dialect → String
  | .vhdl => "others"
  | .verilog => "default"

def muxArm (dialect : Dialect) (choice input : String) : String :=
  let drive := muxTarget dialect ++ " <= " ++ input ++ ";"
  match dialect with
  | .vhdl => "when " ++ choice ++ " => " ++ drive
  | .verilog => choice ++ ": " ++ drive

def muxArmLines (dialect : Dialect) (select : Nat) : List String :=
  ((muxArms select).map fun (value, input) =>
      muxArm dialect (dialect.literal value select) input) ++
    [muxArm dialect (muxOthers dialect) (muxDefault select)]

def muxZero (dialect : Dialect) (bus : Bool) : String :=
  match dialect with
  | .vhdl => if bus then dialect.others false "NrOfBits" else "'0'"
  | .verilog => "0"

def muxBody (dialect : Dialect) (select : Nat) (bus : Bool) : List String :=
  match dialect with
  | .vhdl =>
    ["make_mux : process(" ++ ", ".intercalate (muxSensitivity select) ++ ")", "begin"] ++
      Lines.nest (["if (Enable = '0') then"] ++
        Lines.nest ["MuxOut <= " ++ muxZero dialect bus ++ ";"] ++
        ["else"] ++
        Lines.nest (["case (Sel) is"] ++ Lines.nest (muxArmLines dialect select) ++
          ["end case;"]) ++
        ["end if;"]) ++
      ["end process make_mux;"]
  | .verilog =>
    ["assign MuxOut = s_selected_vector;", "", "always @(*)", "begin"] ++
      Lines.nest (["if (~Enable) s_selected_vector <= 0;", "else case (Sel)"] ++
        Lines.nest (muxArmLines dialect select) ++ ["endcase"]) ++
      ["end"]

def clockEnable (dialect : Dialect) (trigger : Trigger) : String :=
  dialect.index clockBusPort (Clock.enableOf trigger).position

def oscillator (dialect : Dialect) : String :=
  dialect.index clockBusPort Clock.BusSignal.globalClock.position

def registerZero (dialect : Dialect) (bus : Bool) : String :=
  match dialect with
  | .vhdl => if bus then dialect.others false "NrOfBits" else dialect.fill false 1
  | .verilog => "0"

def withState (dialect : Dialect) (bus : Bool) (interface : Interface) : Interface :=
  (interface.addRegister "s_state_reg" (dataWidth bus)).setInitial "s_state_reg"
    (registerZero dialect bus)

def registerBody (dialect : Dialect) (bus : Bool) (trigger : Trigger) : List String :=
  let enable := clockEnable dialect trigger
  let edge := oscillator dialect
  let zero := registerZero dialect bus
  [dialect.assign "Q" "s_state_reg", ""] ++
    match dialect with
    | .vhdl =>
      [s!"make_state : process({edge}, Reset)", "begin"] ++
        Lines.nest (["if (Reset = '1') then"] ++ Lines.nest [s!"s_state_reg <= {zero};"] ++
          [s!"elsif rising_edge({edge}) then"] ++
          Lines.nest ([s!"if ({enable} = '1' and Enable = '1') then"] ++
            Lines.nest ["s_state_reg <= D;"] ++ ["end if;"]) ++
          ["end if;"]) ++
        ["end process make_state;"]
    | .verilog =>
      [s!"always @(posedge {edge} or posedge Reset)", "begin"] ++
        Lines.nest
          ["if (Reset) s_state_reg <= 0;", s!"else if ({enable} & Enable) s_state_reg <= D;"] ++
        ["end"]

end Schematic.Variant
