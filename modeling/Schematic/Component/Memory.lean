import Schematic.Component.Body

/-! # Memories

A read-only memory has one array per lane, preloaded with its contents; a random access memory has
one array that starts undefined. -/

namespace Schematic.MemoryContents

def cut (width : Int) (word : Nat) : Nat :=
  if width < 0 || 64 ≤ width then word else word % Nat.pow 2 width.toNat

/-- The word that the contents deal to a lane at an address, which is zero behind their end. -/
def dealtWord (contents : Array Nat) (lanes lane address : Nat) : Except Abort Nat :=
  let index := Word.wrap (address * lanes + lane)
  if index < 0 then .error .index else .ok (contents[index.toNat]?.getD 0)

def laneWords (contents : Array Nat) (depth lanes : Nat) (width : Int) (lane : Nat) :
    Except Abort (List Nat) :=
  (List.range depth).mapM fun address => (dealtWord contents lanes lane address).map (cut width)

def dealt (contents : List Nat) (depth lanes width : Int) : Except Abort (List (List Nat)) := do
  let lanes ← storable 24 lanes
  if lanes = 0 then return []
  let depth ← storable 8 depth
  let words := contents.toArray
  (List.range lanes).mapM (laneWords words depth lanes width)

def capitalHex (n : Nat) : List Char :=
  (Nat.toDigits 16 n).map Char.toUpper

def digitCount (width : Int) : Int :=
  Int.tdiv (Word.wrap (width + 3)) 4

def wordText (digits : Int) (word : Nat) : String :=
  let text := capitalHex word
  if digits < 0 || Text.widestField < digits.natAbs then
    Text.padTo digits.natAbs (String.ofList text)
  else String.ofList (List.replicate (digits.natAbs - text.length) '0' ++ text)

def wordFile (words : List Nat) (width : Int) : String :=
  String.join (words.map fun word => wordText (digitCount width) word ++ "\n")

def initializationHeader (depth : Nat) (width : Int) : String :=
  "-- Generated by hdlgen\n" ++ s!"DEPTH = {depth};\n" ++ s!"WIDTH = {width};\n" ++
    "ADDRESS_RADIX = HEX;\nDATA_RADIX = HEX;\nCONTENT\nBEGIN\n"

def initializationFile (words : List Nat) (width : Int) : String :=
  let entries := words.zipIdx.map fun (word, address) =>
    "   " ++ String.ofList (capitalHex address) ++ " : " ++
      wordText (digitCount width) word ++ ";\n"
  initializationHeader words.length width ++ String.join entries ++ "END;\n"

def fileName (module : String) (lane : Nat) (lanes : Int) (vendor : Hdl.Vendor) : String :=
  let stem := if 1 < lanes then module ++ "_" ++ toString lane else module
  match vendor with
  | .altera => stem ++ ".mif"
  | _ => stem ++ ".mem"

def fileText (vendor : Hdl.Vendor) (words : List Nat) (width : Int) : String :=
  match vendor with
  | .altera => initializationFile words width
  | _ => wordFile words width

def preload (vendor : Hdl.Vendor) : Hdl.Preload :=
  match vendor with
  | .altera => .byAttribute
  | _ => .fromFile

def files (contents : List Nat) (module : String) (depth : Int) (lanes : Nat) (width : Nat)
    (vendor : Hdl.Vendor) : Except Abort (List Hdl.Attachment) := do
  let dealt ← dealt contents depth lanes width
  return dealt.zipIdx.map fun (words, lane) =>
    ⟨fileName module lane lanes vendor, fileText vendor words width⟩

end Schematic.MemoryContents

namespace Schematic.Variant

open Hdl

def memorySignal (lane : Nat) : String := s!"s_memory_{lane}"

def memoryDepth (addressBits : Nat) : Int := Word.shiftOne addressBits

def addressIndex (dialect : Dialect) (addressBits : Nat) : String :=
  match dialect with
  | .vhdl =>
    if addressBits = 1 then "to_integer(unsigned'(0 => Address))"
    else "to_integer(unsigned(Address))"
  | .verilog => "Address"

def wordAt (dialect : Dialect) (memory index : String) : String :=
  match dialect with
  | .vhdl => s!"{memory}({index})"
  | .verilog => s!"{memory}[{index}]"

def withLanes (vendor : Vendor) (module : String) (addressBits dataBits lanes : Nat)
    (interface : Interface) : Interface :=
  (List.range lanes).foldl
    (fun interface lane => interface.addMemory (memorySignal lane)
      ⟨"t_rom_memory", MemoryContents.fileName module lane lanes vendor,
        MemoryContents.preload vendor⟩)
    (interface.addType ⟨"t_rom_memory", memoryDepth addressBits, dataBits⟩)

def romBody (dialect : Dialect) (addressBits lanes : Nat) : List String :=
  (List.range lanes).map fun lane =>
    dialect.assign (dataPort lanes lane)
      (wordAt dialect (memorySignal lane) (addressIndex dialect addressBits))

def withArray (addressBits dataBits : Nat) (interface : Interface) : Interface :=
  (interface.addType ⟨"t_ram_memory", memoryDepth addressBits, dataBits⟩).addMemory "s_memory"
    ⟨"t_ram_memory", "", .none⟩

def ramBody (dialect : Dialect) (addressBits : Nat) (trigger : Trigger) : List String :=
  let word := wordAt dialect "s_memory" (addressIndex dialect addressBits)
  let enable := clockEnable dialect trigger
  let edge := oscillator dialect
  [dialect.assign "DataOut" word, ""] ++
    match dialect with
    | .vhdl =>
      [s!"make_memory : process({edge})", "begin"] ++
        Lines.nest ([s!"if rising_edge({edge}) then"] ++
          Lines.nest ([s!"if (WE = '1' and {enable} = '1') then"] ++
            Lines.nest [s!"{word} <= DataIn;"] ++ ["end if;"]) ++
          ["end if;"]) ++
        ["end process make_memory;"]
    | .verilog =>
      [s!"always @(posedge {edge})"] ++ Lines.nest [s!"if (WE & {enable}) {word} <= DataIn;"]

end Schematic.Variant
