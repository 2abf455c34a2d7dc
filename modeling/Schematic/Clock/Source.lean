import Schematic.Clock.Tick

/-! # Clock sources

A clock source counts down the ticks of the high and of the low phase in turn. -/

namespace Schematic.Clock

open Hdl

/-- The derived clock is high for some ticks and low for some, starting late by a phase. -/
structure ClockSource where
  highTicks : Int
  lowTicks : Int
  phase : Int
  deriving DecidableEq, Repr

def sourceModule : String := "LogisimClockComponent"

def sourceClockPort : String := "GlobalClock"

def sourceTickPort : String := "ClockTick"

def sourceBusPort : String := "ClockBus"

def edgeRegisters : List String :=
  ["s_derived_clock_reg", "s_pos_edge_tick_reg", "s_neg_edge_tick_reg"]

namespace ClockSource

def bits (source : ClockSource) : Nat :=
  counterBits
    (max (max (Word.wrap (source.highTicks - 1)) (Word.wrap (source.lowTicks - 1)))
      (max source.phase 1))

def values (source : ClockSource) : List (String × Int) :=
  [("HighTicks", source.highTicks), ("LowTicks", source.lowTicks), ("Phase", source.phase),
    ("NrOfBits", source.bits)]

def interface (fullSpeed : Bool) : Interface :=
  let ports := ({} : Interface).addGeneric 1 "HighTicks"
    |>.addGeneric 2 "LowTicks"
    |>.addGeneric 3 "Phase"
    |>.addGeneric 4 "NrOfBits"
    |>.addInput sourceClockPort (.bits 1)
    |>.addInput sourceTickPort (.bits 1)
    |>.addOutput sourceBusPort (.bits busWidth)
  if fullSpeed then ports
  else
    (edgeRegisters.foldl (fun interface name => interface.addRegister name (.bits 1)) ports)
      |>.addRegister "s_counter_reg" (.generic 4)
      |>.addWire "s_counter_next" (.generic 4)
      |>.addWire "s_counter_is_zero" (.bits 1)

def fullSpeedBus : Expr :=
  .concat [.complement (.signal sourceClockPort), .signal sourceClockPort, .bit true, .bit true,
    .complement (.signal sourceClockPort), .signal sourceClockPort]

def dividedBody : Dialect → List String
  | .vhdl =>
    ["ClockBus <= not(GlobalClock) & GlobalClock & s_neg_edge_tick_reg & s_pos_edge_tick_reg &",
      "            not(s_derived_clock_reg) & s_derived_clock_reg;",
      "",
      "s_counter_is_zero <= '1' when unsigned(s_counter_reg) = 0 else '0';",
      "s_counter_next    <= std_logic_vector(unsigned(s_counter_reg) - 1) when " ++
        "s_counter_is_zero = '0' else",
      "                     std_logic_vector(to_unsigned(LowTicks-1, NrOfBits)) when " ++
        "s_derived_clock_reg = '1' else",
      "                     std_logic_vector(to_unsigned(HighTicks-1, NrOfBits));",
      "",
      "make_derived_clock : process(GlobalClock)",
      "begin"] ++
    Lines.nest (["if rising_edge(GlobalClock) then"] ++
      Lines.nest (
        ["s_pos_edge_tick_reg <= ClockTick and s_counter_is_zero and not(s_derived_clock_reg);",
          "s_neg_edge_tick_reg <= ClockTick and s_counter_is_zero and s_derived_clock_reg;",
          "if (ClockTick = '1') then"] ++
        Lines.nest (
          ["s_counter_reg <= s_counter_next;", "if (s_counter_is_zero = '1') then"] ++
          Lines.nest ["s_derived_clock_reg <= not(s_derived_clock_reg);"] ++
          ["end if;"]) ++
        ["end if;"]) ++
      ["end if;"]) ++
    ["end process make_derived_clock;"]
  | .verilog =>
    ["assign ClockBus = \x7b~GlobalClock, GlobalClock, s_neg_edge_tick_reg, s_pos_edge_tick_reg,",
      "                   ~s_derived_clock_reg, s_derived_clock_reg\x7d;",
      "",
      "assign s_counter_is_zero = (s_counter_reg == 0) ? 1'b1 : 1'b0;",
      "assign s_counter_next    = (~s_counter_is_zero) ? s_counter_reg - 1 :",
      "                           s_derived_clock_reg ? LowTicks - 1 : HighTicks - 1;",
      "",
      "always @(posedge GlobalClock)",
      "begin"] ++
    Lines.nest (
      ["s_pos_edge_tick_reg <= ClockTick & s_counter_is_zero & ~s_derived_clock_reg;",
        "s_neg_edge_tick_reg <= ClockTick & s_counter_is_zero & s_derived_clock_reg;",
        "if (ClockTick)",
        "begin"] ++
      Lines.nest
        ["s_counter_reg <= s_counter_next;",
          "if (s_counter_is_zero) s_derived_clock_reg <= ~s_derived_clock_reg;"] ++
      ["end"]) ++
    ["end"]

def withInitial (dialect : Dialect) (interface : Interface) : Interface :=
  let counter := match dialect with
    | .vhdl => "std_logic_vector(to_unsigned(Phase, NrOfBits))"
    | .verilog => "Phase"
  edgeRegisters.foldl (fun interface name => interface.setInitial name (dialect.bit false))
    (interface.setInitial "s_counter_reg" counter)

def unit (dialect : Dialect) (fullSpeed : Bool) : DesignUnit :=
  if fullSpeed then
    DesignUnit.write dialect sourceModule category (interface true) []
      [dialect.assign sourceBusPort (fullSpeedBus.spell dialect)] ["Clock source, full speed"]
  else
    DesignUnit.write dialect sourceModule category (withInitial dialect (interface false)) []
      (dividedBody dialect) ["Clock source, divided"]

end ClockSource

/-- The registers of a clock source. -/
structure SourceState where
  counter : Nat
  derived : Bool
  positive : Bool
  negative : Bool
  deriving DecidableEq, Repr

namespace ClockSource

def cut (source : ClockSource) (n : Int) : Nat :=
  Word.unsigned n % Nat.pow 2 source.bits

def start (source : ClockSource) : SourceState :=
  ⟨source.cut source.phase, false, false, false⟩

def step (source : ClockSource) (state : SourceState) (tick : Bool) : SourceState :=
  let zero := state.counter = 0
  let positive := tick && zero && !state.derived
  let negative := tick && zero && state.derived
  if !tick then { state with positive, negative }
  else
    let counter :=
      if !zero then source.cut ((state.counter : Int) - 1)
      else if state.derived then source.cut (source.lowTicks - 1)
      else source.cut (source.highTicks - 1)
    ⟨counter, if zero then !state.derived else state.derived, positive, negative⟩

def run (source : ClockSource) (state : SourceState) : (ticks : List Bool) → List SourceState
  | [] => []
  | tick :: ticks => source.step state tick :: source.run (source.step state tick) ticks

end ClockSource

def SourceState.bus (state : SourceState) (oscillator : Bool) : List Bool :=
  [state.derived, !state.derived, state.positive, state.negative, oscillator, !oscillator]

end Schematic.Clock
