import Schematic.Failure
import Schematic.Text.Quoted
import Schematic.Text.Split

/-! # Dialects

The two languages that modules are written in, and the makers of devices whose tools read them. -/

namespace Schematic.Hdl

def vhdlReserved : List String := [
  "abs", "access", "after", "alias", "all", "and", "architecture", "array", "assert",
  "attribute", "begin", "block", "body", "buffer", "bus", "case", "component", "configuration",
  "constant", "disconnect", "downto", "else", "elsif", "end", "entity", "exit", "file", "for",
  "function", "generate", "generic", "group", "guarded", "if", "impure", "in", "inertial",
  "inout", "is", "label", "library", "linkage", "literal", "loop", "map", "mod", "nand", "new",
  "next", "nor", "not", "null", "of", "on", "open", "or", "others", "out", "package", "port",
  "postponed", "procedure", "process", "pure", "range", "record", "register", "reject", "rem",
  "report", "return", "rol", "ror", "select", "severity", "signal", "shared", "sla", "sll",
  "sra", "srl", "subtype", "then", "to", "transport", "type", "unaffected", "units", "until",
  "use", "variable", "wait", "when", "while", "with", "xnor", "xor", "std_logic",
  "std_logic_vector", "integer", "natural", "boolean", "string", "ieee", "work"]

def verilogReserved : List String := [
  "always", "and", "assign", "automatic", "begin", "buf", "bufif0", "bufif1", "case", "casex",
  "casez", "cell", "cmos", "config", "deassign", "default", "defparam", "design", "disable",
  "edge", "else", "end", "endcase", "endconfig", "endfunction", "endgenerate", "endmodule",
  "endprimitive", "endspecify", "endtable", "endtask", "event", "for", "force", "forever",
  "fork", "function", "generate", "genvar", "highz0", "highz1", "if", "ifnone", "incdir",
  "include", "initial", "inout", "input", "instance", "integer", "join", "large", "liblist",
  "library", "localparam", "macromodule", "medium", "module", "nand", "negedge", "nmos", "nor",
  "noshowcancelled", "not", "notif0", "notif1", "or", "output", "parameter", "pmos", "posedge",
  "primitive", "pull0", "pull1", "pulldown", "pullup", "pulsestyle_ondetect",
  "pulsestyle_onevent", "rcmos", "real", "realtime", "reg", "release", "repeat", "rnmos",
  "rpmos", "rtran", "rtranif0", "rtranif1", "scalared", "showcancelled", "signed", "small",
  "specify", "specparam", "strong0", "strong1", "supply0", "supply1", "table", "task", "time",
  "tran", "tranif0", "tranif1", "tri", "tri0", "tri1", "triand", "trior", "trireg", "unsigned",
  "use", "uwire", "vectored", "wait", "wand", "weak0", "weak1", "while", "wire", "wor", "xnor",
  "xor"]

def isReserved (name : String) : Bool :=
  let key := Text.lower name
  vhdlReserved.contains key || verilogReserved.contains key

inductive Dialect where
  | vhdl
  | verilog
  deriving DecidableEq, Repr

/-- The maker of the target device, as far as the generated text depends on it. -/
inductive Vendor where
  | altera
  | xilinx
  | generic
  deriving DecidableEq, Repr

/-- A text that names no dialect or no vendor. -/
inductive UnknownName where
  | dialect (text : String)
  | vendor (text : String)
  deriving DecidableEq, Repr

def UnknownName.message : UnknownName → String
  | .dialect text => "unknown HDL language " ++ Text.quote text
  | .vendor text => "unknown FPGA vendor " ++ Text.quote text

def UnknownName.failure (unknown : UnknownName) : Failure :=
  .error unknown.message

namespace Dialect

def name : Dialect → String
  | .vhdl => "VHDL"
  | .verilog => "Verilog"

def directory : Dialect → String
  | .vhdl => "vhdl"
  | .verilog => "verilog"

def extension : Dialect → String
  | .vhdl => "vhd"
  | .verilog => "v"

def commentMark : Dialect → String
  | .vhdl => "--"
  | .verilog => "//"

def named (text : String) : Except UnknownName Dialect :=
  match Text.lower (Text.trim text) with
  | "vhdl" => .ok .vhdl
  | "" => .ok .vhdl
  | "verilog" => .ok .verilog
  | _ => .error (.dialect text)

end Dialect

namespace Vendor

def name : Vendor → String
  | .altera => "altera"
  | .xilinx => "xilinx"
  | .generic => "generic"

def exactly (text : String) : Vendor :=
  match text with
  | "altera" => .altera
  | "xilinx" => .xilinx
  | _ => .generic

def named (text : String) : Except UnknownName Vendor :=
  match Text.lower (Text.trim text) with
  | "altera" => .ok .altera
  | "xilinx" => .ok .xilinx
  | "generic" => .ok .generic
  | "" => .ok .generic
  | _ => .error (.vendor text)

end Vendor

end Schematic.Hdl
