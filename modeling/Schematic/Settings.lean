import Schematic.Hdl.Dialect
import Schematic.Table

/-! # Settings

What the generated text depends on besides the design. -/

namespace Schematic

/-- Access to source files that a design refers to. -/
structure Library where
  locate : String → Except Failure String
  read : String → Except String String

def Library.copy (library : Library) (module path : String) : Except Failure String :=
  (library.read path).mapError fun reason =>
    .fatal "" module ("read external HDL source: " ++ reason)

def Library.fetch (library : Library) (module file : String) : Except Failure String := do
  let path ← (library.locate file).mapError (Failure.asFatal module)
  library.copy module path

structure Settings where
  dialect : Hdl.Dialect := .vhdl
  vendor : Hdl.Vendor := .generic
  templates : Table String String := []
  period : Int := 0
  library : Option Library := none

end Schematic
