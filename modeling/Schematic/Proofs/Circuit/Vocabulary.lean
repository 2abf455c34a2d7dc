import Schematic.Proofs.Circuit.Widths
import Schematic.Proofs.Hdl.Spelled

/-! # Names in the wiring of a circuit -/

open List

namespace Schematic

open Hdl Reporting

theorem Circuit.isPlace_rangeOf {circuit : Circuit} {good : String → Prop} (empty : good "")
    (nets : ∀ net ∈ circuit.nets, good net.signal) (range : NetRange) :
    (circuit.rangeOf range).IsPlace good := by
  rw [Circuit.rangeOf]
  split
  case h_1 net found => exact Expr.isPlace_bitsOf (nets net (net?_eq_some found).1) _ _ _
  case h_2 => exact .slice _ _ empty

namespace WiringContext

variable {context : WiringContext} {good : String → Prop}

theorem Assigned.isPlace_target (empty : good "") (divisor : good dynamicClockPort)
    (nets : ∀ net ∈ context.circuit.nets, good net.signal) {fragments : List Fragment}
    (wires : ∀ wire ∈ fragments.flatMap (·.wires), good wire.1) {assignment : Assignment}
    (assigned : Assigned context fragments assignment) : assignment.target.IsPlace good := by
  have range := Circuit.isPlace_rangeOf empty nets
  have bits : ∀ {name width points}, Bus context fragments name width points → ∀ run : Run,
      (run.bitsOf name width).IsPlace good := by
    intro name width points bus run
    apply Expr.isPlace_bitsOf
    cases bus with
    | divisor => exact divisor
    | wire home fed listed => exact wires _ listed
    | root present => exact nets _ present
    | feed present forced found => exact nets _ (Circuit.net?_eq_some found).1
  cases assigned with
  | constant => exact range _
  | takes bus => exact bits bus _
  | gives bus => exact range _
  | idle bus => exact bits bus _
  | gated home fed inside connected found listed => exact .signal (wires _ listed)

end WiringContext

end Schematic
