import Schematic.Hdl.Instance
import Schematic.Hdl.Unit
import Schematic.Naming.Template

/-! # Clock buses and tick generators

The tick generator is a down counter that reloads and ticks whenever it has reached one. -/

namespace Schematic.Clock

inductive BusSignal where
  | derivedClock
  | invertedDerivedClock
  | positiveEdgeTick
  | negativeEdgeTick
  | globalClock
  | invertedGlobalClock
  deriving DecidableEq, Repr

def BusSignal.position : BusSignal → Nat
  | .derivedClock => 0
  | .invertedDerivedClock => 1
  | .positiveEdgeTick => 2
  | .negativeEdgeTick => 3
  | .globalClock => 4
  | .invertedGlobalClock => 5

def busWidth : Nat := 6

def enableOf : Trigger → BusSignal
  | .rising => .positiveEdgeTick
  | .falling => .negativeEdgeTick
  | .high => .derivedClock
  | .low => .invertedDerivedClock

def category : String := "base"

open Hdl

/-- How the oscillator is divided into ticks. -/
inductive Mode where
  | raw
  | static
  | dynamic
  | undivided
  deriving DecidableEq, Repr

def Mode.name : Mode → String
  | .raw => "raw"
  | .static => "static"
  | .dynamic => "dynamic"
  | .undivided => "raw"

def Mode.ofPeriod (period : Int) : Mode :=
  if period < 0 then .dynamic else if period = 0 then .raw else .static

structure TickSettings where
  mode : Mode
  period : Int
  dynamicBits : Int

def tickModule : String := "LogisimTickGenerator"

def tickClockPort : String := "FPGAClock"

def tickOutPort : String := "FPGATick"

def tickReloadPort : String := "ReloadValue"

def counterBits (n : Int) : Nat :=
  if n < 1 then 1 else Word.bitLength n.toNat

namespace TickSettings

def interface (settings : TickSettings) : Interface :=
  let ports := ({} : Interface).addInput tickClockPort (.bits 1) |>.addOutput tickOutPort (.bits 1)
  let divided := match settings.mode with
    | .static => (ports.addGeneric 1 "NrOfBits").addGeneric 2 tickReloadPort
    | .dynamic => (ports.addGeneric 1 "NrOfBits").addInput tickReloadPort (.generic 1)
    | _ => ports
  if settings.mode = .raw then divided
  else
    divided.addRegister "s_count_reg" (.generic 1)
      |>.addWire "s_count_next" (.generic 1)
      |>.addRegister "s_tick_reg" (.bits 1)
      |>.addWire "s_tick_next" (.bits 1)

def values (settings : TickSettings) : List (String × Int) :=
  match settings.mode with
  | .static => [("NrOfBits", counterBits settings.period), (tickReloadPort, settings.period)]
  | .dynamic => [("NrOfBits", settings.dynamicBits)]
  | _ => []

def body (settings : TickSettings) (dialect : Dialect) : List String :=
  if settings.mode = .raw then [dialect.assign tickOutPort (dialect.bit true)]
  else
    match dialect with
    | .vhdl =>
      let reload :=
        if settings.mode = .static then "std_logic_vector(to_unsigned(ReloadValue, NrOfBits))"
        else tickReloadPort
      ["FPGATick     <= s_tick_reg;",
        "s_tick_next  <= '1' when unsigned(s_count_reg) = 1 else '0';",
        s!"s_count_next <= {reload} when s_tick_next = '1' else",
        "                std_logic_vector(unsigned(s_count_reg) - 1);",
        "",
        "make_counter : process(FPGAClock)",
        "begin"] ++
      Lines.nest (["if rising_edge(FPGAClock) then"] ++
        Lines.nest ["s_count_reg <= s_count_next;", "s_tick_reg  <= s_tick_next;"] ++
        ["end if;"]) ++
      ["end process make_counter;"]
    | .verilog =>
      ["assign FPGATick     = s_tick_reg;",
        "assign s_tick_next  = (s_count_reg == 1) ? 1'b1 : 1'b0;",
        "assign s_count_next = s_tick_next ? ReloadValue : s_count_reg - 1;",
        "",
        "always @(posedge FPGAClock)",
        "begin"] ++
      Lines.nest ["s_count_reg <= s_count_next;", "s_tick_reg  <= s_tick_next;"] ++
      ["end"]

def unit (settings : TickSettings) (dialect : Dialect) : DesignUnit :=
  let interface :=
    if settings.mode = .raw then settings.interface
    else
      match dialect with
      | .vhdl =>
        settings.interface.setInitial "s_count_reg" "std_logic_vector(to_unsigned(1, NrOfBits))"
          |>.setInitial "s_tick_reg" (dialect.bit false)
      | .verilog =>
        settings.interface.setInitial "s_count_reg" "1"
          |>.setInitial "s_tick_reg" (dialect.bit false)
  DesignUnit.write dialect tickModule category interface [] (settings.body dialect)
    ["Tick generator, mode " ++ settings.mode.name]

end TickSettings

/-- The registers of a tick generator with a fixed divisor, over counters of `width` bits. -/
structure TickCounter where
  width : Nat
  reload : Nat
  count : Nat
  tick : Bool
  deriving DecidableEq, Repr

namespace TickCounter

def start (period : Int) : TickCounter :=
  ⟨counterBits period, Word.unsigned period, 1, false⟩

def step (counter : TickCounter) : TickCounter :=
  let size := Nat.pow 2 counter.width
  if counter.count = 1 then { counter with count := counter.reload % size, tick := true }
  else { counter with count := (counter.count + size - 1) % size, tick := false }

def run (counter : TickCounter) : (steps : Nat) → List TickCounter
  | 0 => []
  | steps + 1 => counter.step :: counter.step.run steps

end TickCounter

end Schematic.Clock
