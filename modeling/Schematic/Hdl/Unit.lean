import Schematic.File.Path
import Schematic.Hdl.Interface
import Schematic.Hdl.Source

/-! # Declarations and units

The complete output for one module: its source files and the files that go with them. -/

namespace Schematic.Hdl

def vhdlLibraries : List String :=
  ["library ieee;", "use ieee.std_logic_1164.all;", "use ieee.numeric_std.all;"]

def vhdlFileLibraries : List String :=
  ["use std.textio.all;", "use ieee.std_logic_textio.all;"]

def banner (dialect : Dialect) (name : String) (notes : List String) : List String :=
  Lines.remark dialect ("Generated by hdlgen" :: ("Component : " ++ name) :: notes)

namespace Interface

def vhdlGenerics (interface : Interface) : List String :=
  let names := interface.parameters.map (·.2.name)
  let column := Text.columnWidth names
  if names.isEmpty then []
  else
    "generic (" ::
      Lines.nest ((Text.separated ";"
        (fun name => Text.padTo column name ++ " : integer") names).flatMap Lines.ofText) ++ [");"]

def vhdlPort (interface : Interface) (column : Nat) (name : String) : String :=
  match interface.port? name with
  | some (direction, width) =>
    Text.padTo column name ++ " : " ++ Text.padTo 5 direction.name ++ " " ++
      interface.typeText .vhdl width
  | none => Text.padTo column name

def vhdlPorts (interface : Interface) : List String :=
  let names := interface.portNames
  let column := Text.columnWidth names
  if names.isEmpty then []
  else
    "port (" ::
      Lines.nest ((Text.separated ";" (interface.vhdlPort column) names).flatMap Lines.ofText) ++
      [");"]

def vhdlClauses (interface : Interface) : List String :=
  interface.vhdlGenerics ++ interface.vhdlPorts

def vhdlLoader (type : MemoryType) : List String :=
  let name := type.name
  let readBits := Word.wrap (Int.tdiv (Word.wrap (type.width + 3)) 4 * 4 - 1)
  let high := Word.wrap (type.width - 1)
  let word := if type.width > 1 then s!"v_word({high} downto 0)" else "v_word(0)"
  Lines.ofText s!"impure function f_load_{name}(file_name : string) return {name} is" ++
    Lines.nest (
      ["file     v_file : text open read_mode is file_name;",
        "variable v_line : line;",
        s!"variable v_word : std_logic_vector({readBits} downto 0);"] ++
      Lines.ofText s!"variable v_mem  : {name};") ++
    ["begin"] ++
    Lines.nest (
      Lines.ofText s!"for i in {name}'range loop" ++
      Lines.nest ["readline(v_file, v_line);", "hread(v_line, v_word);", s!"v_mem(i) := {word};"] ++
      ["end loop;", "return v_mem;"]) ++
    ["end function;"]

def loadedTypes (interface : Interface) : List String :=
  let types := interface.memories.filterMap fun (_, memory) =>
    if memory.preload = .fromFile then some memory.type else none
  types.foldl (fun seen type => if seen.contains type then seen else seen ++ [type]) []

def vhdlSignals (interface : Interface) : List String :=
  let column := Text.columnWidth (interface.wires.keys ++ interface.registers.keys)
  let signals := interface.registers.foldl
    (fun table entry => table.insert entry.1 entry.2) interface.wires
  signals.flatMap fun (name, width) =>
    let initial := match interface.initial.find? name with
      | some value => " := " ++ value
      | none => ""
    Lines.ofText
      ("signal " ++ Text.padTo column name ++ " : " ++ interface.typeText .vhdl width ++ initial ++
        ";")

def vhdlMemories (declared : Bool) : List (String × Memory) → List String
  | [] => []
  | (name, memory) :: rest =>
    let type := memory.type
    let contents := Text.rawQuote memory.contents
    match memory.preload with
    | .fromFile =>
      Lines.ofText s!"signal {name} : {type} := f_load_{type}({contents});" ++
        vhdlMemories declared rest
    | .byAttribute =>
      Lines.ofText s!"signal {name} : {type};" ++
        (if declared then [] else ["attribute ram_init_file : string;"]) ++
        Lines.ofText s!"attribute ram_init_file of {name} : signal is {contents};" ++
        vhdlMemories true rest
    | .none =>
      Lines.ofText s!"signal {name} : {type};" ++ vhdlMemories declared rest

def vhdlDeclarations (interface : Interface) : List String :=
  let types := interface.types.flatMap fun (_, type) =>
    let name := type.name
    let last := Word.wrap (type.depth - 1)
    let word := Dialect.vhdl.fixedType type.width
    Lines.ofText s!"type {name} is array (0 to {last}) of {word};"
  let loaders := interface.loadedTypes.flatMap fun name =>
    match interface.types.find? name with
    | some type => vhdlLoader type
    | none => []
  types ++ loaders ++ interface.vhdlSignals ++ vhdlMemories false interface.memories

def verilogWords (words : List String) : String :=
  " ".intercalate (words.filter (· ≠ ""))

def verilogDirection : Direction → String
  | .input => "input "
  | .output => "output"
  | .bidirectional => "inout "

def verilogPort (interface : Interface) (name : String) : String :=
  match interface.port? name with
  | some (direction, width) =>
    verilogWords [verilogDirection direction, "wire", interface.typeText .verilog width, name]
  | none => name

def verilogHeader (interface : Interface) (name : String) : List String :=
  let parameters := interface.parameters.map (·.2.name)
  let opening :=
    if parameters.isEmpty then []
    else
      Lines.ofText ("module " ++ name ++ " #(") ++
        Lines.nest ((Text.separated ","
          (fun parameter => "parameter " ++ parameter ++ " = 1") parameters).flatMap Lines.ofText)
  let head := if parameters.isEmpty then "module " ++ name else ")"
  let names := interface.portNames
  if names.isEmpty then opening ++ Lines.ofText (head ++ ";")
  else
    opening ++ Lines.ofText (head ++ " (") ++
      Lines.nest ((Text.separated "," interface.verilogPort names).flatMap Lines.ofText) ++ [");"]

def verilogMemory (interface : Interface) (name : String) (memory : Memory) : List String :=
  match interface.types.find? memory.type with
  | none => []
  | some type =>
    let last := Word.wrap (type.depth - 1)
    let contents := Text.rawQuote memory.contents
    let words := verilogWords ["reg", Dialect.verilog.fixedType type.width, name]
    let declaration := s!"{words} [0:{last}];"
    match memory.preload with
    | .byAttribute => Lines.ofText s!"(* ram_init_file = {contents} *) {declaration}"
    | .fromFile =>
      Lines.ofText declaration ++ Lines.ofText s!"initial $readmemh({contents}, {name});"
    | .none => Lines.ofText declaration

def verilogDeclarations (interface : Interface) : List String :=
  let wires := interface.wires.flatMap fun (name, width) =>
    Lines.ofText (verilogWords ["wire", interface.typeText .verilog width, name] ++ ";")
  let registers := interface.registers.flatMap fun (name, width) =>
    let initial := match interface.initial.find? name with
      | some value => " = " ++ value
      | none => ""
    Lines.ofText (verilogWords ["reg", interface.typeText .verilog width, name] ++ initial ++ ";")
  let memories := interface.memories.flatMap fun (name, memory) =>
    interface.verilogMemory name memory
  wires ++ registers ++ memories

end Interface

def entityLines (name : String) (interface : Interface) (notes : List String) : List String :=
  Lines.gap (Lines.gap (banner .vhdl name notes) ++ vhdlLibraries) ++
    Lines.ofText ("entity " ++ name ++ " is") ++ Lines.nest interface.vhdlClauses ++
    Lines.ofText ("end entity " ++ name ++ ";")

def componentLines (name : String) (interface : Interface) : List String :=
  Lines.ofText ("component " ++ name) ++ Lines.nest interface.vhdlClauses ++ ["end component;"]

def architectureLines (name : String) (interface : Interface) (components : List (List String))
    (body : List String) (notes : List String) : List String :=
  let readsFiles := interface.memories.any fun (_, memory) => memory.preload = .fromFile
  let libraries := vhdlLibraries ++ (if readsFiles then vhdlFileLibraries else [])
  let head := Lines.gap (Lines.gap (banner .vhdl name notes) ++ libraries) ++
    Lines.ofText ("architecture platform_independent of " ++ name ++ " is")
  let declarations := interface.vhdlDeclarations
  let declared :=
    if declarations.isEmpty then head else Lines.gap head ++ Lines.nest declarations
  let opened := components.foldl (fun lines component => Lines.gap lines ++ Lines.nest component)
    declared
  Lines.gap (Lines.gap opened ++ ["begin"] ++ Lines.nest body) ++ ["end platform_independent;"]

def moduleLines (name : String) (interface : Interface) (body : List String)
    (notes : List String) : List String :=
  let head := Lines.gap (banner .verilog name notes) ++ interface.verilogHeader name
  let declarations := interface.verilogDeclarations
  let declared :=
    if declarations.isEmpty then head else Lines.gap head ++ Lines.nest declarations
  let filled := if body.isEmpty then declared else Lines.gap declared ++ Lines.nest body
  Lines.gap filled ++ ["endmodule"]

/-- A file that goes with a module, such as the first contents of a memory. -/
structure Attachment where
  name : String
  content : String
  deriving DecidableEq, Repr

structure DesignUnit where
  name : String
  category : String
  entity : List String := []
  behavior : List String := []
  verbatim : Option String := none
  attachments : List Attachment := []
  deriving DecidableEq, Repr

def entitySuffix : String := "_entity"

def behaviorSuffix : String := "_behavior"

def sourcePath (root : String) (dialect : Dialect) (category stem : String) : String :=
  Path.join [root, dialect.directory, category, stem ++ "." ++ dialect.extension]

namespace DesignUnit

def write (dialect : Dialect) (name category : String) (interface : Interface)
    (components : List (List String)) (body notes : List String) : DesignUnit :=
  match dialect with
  | .vhdl =>
    { name, category,
      entity := entityLines name interface notes,
      behavior := architectureLines name interface components body notes }
  | .verilog => { name, category, behavior := moduleLines name interface body notes }

def files (unit : DesignUnit) (root : String) (dialect : Dialect) : List (String × String) :=
  let sources := match unit.verbatim, dialect with
    | some text, _ => [(sourcePath root dialect unit.category unit.name, text)]
    | none, .vhdl =>
      (if unit.entity.isEmpty then []
        else [(sourcePath root dialect unit.category (unit.name ++ entitySuffix),
          Lines.toText unit.entity)]) ++
      [(sourcePath root dialect unit.category (unit.name ++ behaviorSuffix),
        Lines.toText unit.behavior)]
    | none, .verilog =>
      [(sourcePath root dialect unit.category unit.name, Lines.toText unit.behavior)]
  let directory := Path.join [root, dialect.directory, unit.category]
  sources ++ unit.attachments.map fun file => (Path.join [directory, file.name], file.content)

def targets (unit : DesignUnit) (root : String) (dialect : Dialect) : List String :=
  (unit.files root dialect).map (·.1)

end DesignUnit

end Schematic.Hdl
