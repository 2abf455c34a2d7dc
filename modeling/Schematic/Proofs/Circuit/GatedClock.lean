import Schematic.Proofs.Circuit.Body
import Schematic.Proofs.Circuit.Connection

/-! # Gated clocks

A clocked component whose clock net belongs to no clock tree gets a bus of its own, written as six
bits of the net. The bus inverts the oscillator only for a trigger spelled `falling`, while the
module reads the trigger in any case and in two spellings. -/

open List

namespace Schematic

open Hdl Clock Reporting

/-- The level of a bit, given the levels of all the bits it may be wired to. -/
def Hdl.ExprBit.level {σ : Type} (levels : σ → Int → Bool) : ExprBit σ → Bool
  | .constant value => value
  | .wired signal position inverted => inverted ^^ levels signal position

variable {σ : Type} {variant : Variant} {trigger : Trigger}

@[simp] theorem Hdl.ExprBit.level_complement (levels : σ → Int → Bool) (bit : ExprBit σ) :
    bit.complement.level levels = !bit.level levels := by
  cases bit with
  | constant value => rfl
  | wired signal position inverted => simp [complement, level]

namespace Clock

/-- The levels on a bus gated by a net at `level`. -/
def gatedLevel (inverts level : Bool) : BusSignal → Bool
  | .derivedClock => level
  | .invertedDerivedClock => !level
  | .positiveEdgeTick | .negativeEdgeTick => true
  | .globalClock => inverts ^^ level
  | .invertedGlobalClock => !(inverts ^^ level)

/-- A clocked module takes over its data when the oscillator rises while the enable that its
trigger selects is high. -/
def TakesOver (trigger : Trigger) (before after : BusSignal → Bool) : Prop :=
  before .globalClock = false ∧ after .globalClock = true ∧ after (enableOf trigger) = true

theorem takesOver_falling_iff {trigger : Trigger} (inverts : Bool)
    (known : inverts = true → trigger = .falling) :
    TakesOver trigger (gatedLevel inverts true) (gatedLevel inverts false) ↔ inverts = true := by
  cases inverts with
  | false => simp [TakesOver, gatedLevel]
  | true =>
    obtain rfl := known rfl
    simp [TakesOver, gatedLevel, enableOf]

end Clock

/-- The trigger a clocked module is written for. -/
def Variant.trigger? : Variant → Option Trigger
  | .register _ trigger => some trigger
  | .ram _ _ trigger => some trigger
  | _ => none

theorem Variant.clockBus_mem_specs (clocked : variant.trigger? = some trigger) :
    PortSpec.clockBus ∈ variant.specs := by
  cases variant <;> simp_all [Variant.trigger?, Variant.specs]

theorem Component.trigger?_eq {component : Component} (known : component.variant? = some variant)
    (clocked : variant.trigger? = some trigger) : trigger = Trigger.named component.trigger := by
  simp only [Component.variant?] at known
  split at known <;> cases known <;> cases clocked <;> rfl

namespace WiringContext

variable {context : WiringContext} {component : Component} {label : String} {net : Net}

/-- The bus that an instance gets if its clock net is driven by no clock component. -/
def gatedClock (component : Component) (label : String) (net : Net) (point : Point) :
    PortMapping where
  actual := some (.signal (gatedWire label))
  wire := some (gatedWire label, Clock.busWidth)
  assignments := [⟨.signal (gatedWire label),
    gatedBus component.trigger (.bitsOf net.signal net.width point.bit point.bit)⟩]

variable {point : Point} {mapping : PortMapping}

theorem yields_clockBus (connected : point.isConnected = true)
    (found : context.circuit.net? point.net = some net) (outside : net.clockTree = none)
    (made : Yields (context.clockBus component label point) mapping) :
    mapping = gatedClock component label net point := by
  simp only [clockBus, connected, Bool.not_true, Bool.false_eq_true, ↓reduceIte, found,
    outside] at made
  obtain ⟨_, _, made⟩ := made.bind
  exact (yields_pure.mp made).symm

theorem yields_leafPort {variant : Variant} {port : PortBinding}
    (connects : component.BindsPort variant PortSpec.clockBus port) {e : End}
    (attached : component.end? "Clock" = some e) (listed : point ∈ e.points)
    (connected : point.isConnected = true) (found : context.circuit.net? point.net = some net)
    (outside : net.clockTree = none)
    (made : Yields (context.leafPort component label port) mapping) :
    mapping = gatedClock component label net point := by
  obtain ⟨fed, same, points⟩ | ⟨missing, _⟩ := connects.fed
  · obtain rfl := Option.some.inj (attached.symm.trans same)
    obtain ⟨only, alone⟩ := length_eq_one_iff.mp (points ▸ connects.clock rfl)
    obtain rfl := mem_singleton.mp (alone ▸ listed)
    rw [leafPort, connects.same, if_pos (show PortSpec.clockBus.clock = true from rfl),
      points, alone] at made
    exact yields_clockBus connected found outside made
  · cases attached.symm.trans missing

theorem bits?_gatedBus {σ : Type} {scope : Scope σ} {clock : Expr} {bit : ExprBit σ}
    (single : clock.bits? scope = some [bit]) (trigger : String) :
    ∃ bits, (gatedBus trigger clock).bits? scope = some bits ∧ bits.length = Clock.busWidth ∧
      ∀ levels signal, bits.reverse[signal.position]?.map (ExprBit.level levels) =
        some (Clock.gatedLevel (trigger = "falling") (bit.level levels) signal) := by
  let edge := if trigger = "falling" then bit.complement else bit
  have edged : (if trigger = "falling" then Expr.complement clock else clock).bits? scope =
      some [edge] := by
    simp only [edge]
    split
    · rw [Expr.bits?, single]
      rfl
    · exact single
  have level :
      ∀ levels, edge.level levels = (decide (trigger = "falling") ^^ bit.level levels) := by
    intro levels
    simp only [edge]
    split <;> simp_all
  refine ⟨[edge.complement, edge, .constant true, .constant true, bit.complement, bit], ?_, rfl,
    fun levels signal => ?_⟩
  · simp only [gatedBus, Expr.bits?, Expr.bits?.allBits?, edged, single, Option.map_some, map_cons,
      map_nil, cons_append, nil_append]
  · have enabled : (ExprBit.constant true).level levels = true := rfl
    cases signal <;> simp [BusSignal.position, gatedLevel, level, enabled]

/-- The bus of a gated clock follows the net in every bit, with the oscillator inverted exactly for
the trigger `falling`. So the component takes over on the falling edge of its net exactly for that
spelling, which agrees with its module unless the module is a falling-edge one under another
spelling of the trigger. -/
theorem gatedClock_takes_over {draft : DraftCircuit} (checked : draft.check = .ok context.circuit)
    (words : ∀ net ∈ context.circuit.nets, Word.fits net.width = true)
    (home : component ∈ context.circuit.components) {variant : Variant} {trigger : Trigger}
    (shown : component.variant? = some variant) (clocked : variant.trigger? = some trigger)
    {e : End} (attached : component.end? "Clock" = some e) {point : Point}
    (listed : point ∈ e.points)
    (connected : point.isConnected = true) (found : context.circuit.net? point.net = some net)
    (outside : net.clockTree = none) {fragment : Fragment}
    (made : Yields (context.leaf component) fragment) :
    ∃ label source bits bus,
      ⟨.signal clockBusPort, some (.signal (gatedWire label))⟩ ∈ fragment.use.ports ∧
      ⟨.signal (gatedWire label), source⟩ ∈ fragment.assignments ∧
      source.bits? context.circuit.netScope = some bits ∧ bits.length = Clock.busWidth ∧
      (∀ levels signal, bits.reverse[signal.position]?.map (ExprBit.level levels) =
        some (bus (levels (.net net.id) point.bit) signal)) ∧
      bus = Clock.gatedLevel (component.trigger = "falling") ∧
      trigger = Trigger.named component.trigger ∧
      (Clock.TakesOver trigger (bus true) (bus false) ↔ component.trigger = "falling") ∧
      ((Clock.TakesOver trigger (bus true) (bus false) ↔
          Clock.enableOf trigger = .negativeEdgeTick) ↔
        (Clock.enableOf trigger = .negativeEdgeTick → component.trigger = "falling")) := by
  have carries : context.circuit.Carries e.points :=
    ⟨(DraftCircuit.indexed_of_check checked).2, words, (DraftCircuit.placed_of_check checked).ends
      component home e (mem_of_find?_eq_some attached)⟩
  have inside := carries.checked point listed
  obtain ⟨_, again, positive, below⟩ := Circuit.net?_of_checkPoint inside connected
  obtain rfl := Option.some.inj (found.symm.trans again)
  obtain ⟨present, _⟩ := Circuit.net?_eq_some found
  have bit : (Expr.bitsOf net.signal net.width point.bit point.bit).bits? context.circuit.netScope =
      some [.wired (.net net.id) point.bit] := by
    rw [Expr.bits?_bitsOf (Circuit.netScope_signal carries.indexed present) (words net present)
      ⟨positive, Int.le_refl _, below⟩]
    simp [rangeBits]
  obtain ⟨bits, spelled, length, each⟩ := bits?_gatedBus bit component.trigger
  obtain ⟨label, binding, mappings, _, bound, mapped, rfl⟩ := exists_of_yields_leaf made
  obtain ⟨own, binds⟩ := Component.exists_of_bind bound
  obtain rfl := Option.some.inj (shown.symm.trans binds.variant_eq)
  obtain ⟨port, bus, connects⟩ :=
    exists_zip_of_forall₂ binds.ports (Variant.clockBus_mem_specs clocked)
  obtain ⟨mapping, paired, wired⟩ := exists_zip_of_forall₂ mapped (of_mem_zip bus).2
  obtain rfl := yields_leafPort connects attached listed connected found outside wired
  have spelling := Component.trigger?_eq shown clocked
  have known : component.trigger = "falling" → trigger = .falling := fun same => by
    rw [spelling, same]
    decide
  have falling := Clock.takesOver_falling_iff (component.trigger = "falling") fun same =>
    known (of_decide_eq_true same)
  rw [decide_eq_true_eq] at falling
  refine ⟨label, _, bits, _, ?_, ?_, spelled, length, fun levels signal => ?_, rfl, spelling,
    falling, ?_⟩
  · refine mem_append_left _ (mem_map.mpr ⟨_, paired, ?_⟩)
    simp only [connects.same]
    rfl
  · exact mem_flatMap.mpr ⟨_, (of_mem_zip paired).2, mem_singleton_self _⟩
  · rw [each, ExprBit.level, Bool.false_xor]
  · rw [falling]
    exact ⟨fun agrees => agrees.mpr, fun enough => ⟨fun same => known same ▸ rfl, enough⟩⟩

/-- A register at the falling edge of a net bit takes over exactly at its falling edges. -/
theorem gatedClock_takes_over_falling :
    let register : Component :=
      ⟨1, .register, [("trigger", "falling")], [⟨"Clock", false, [⟨7, 2⟩]⟩], ""⟩
    let main : Circuit := ⟨"main", [⟨7, 4, false, [], [], none⟩], [register], none⟩
    let names : Names := { instances := [(("main", 1), "r")], modules := [(("main", 1), "R")] }
    let context : WiringContext := ⟨⟨"d", "main", [main], []⟩, main, "main", 0, names, {}⟩
    ∃ fragment label source bits bus, Yields (context.leaf register) fragment ∧
      ⟨.signal (gatedWire label), source⟩ ∈ fragment.assignments ∧
      source.bits? main.netScope = some bits ∧
      (∀ levels, bits.reverse[4]?.map (ExprBit.level levels) = some (bus (levels (.net 7) 2))) ∧
      bus = not ∧ Clock.TakesOver .falling (Clock.gatedLevel true true)
        (Clock.gatedLevel true false) := by
  intro register main names context
  have gives : (Reporting.outcome (context.leaf register) []).1.toOption.isSome = true := by
    decide +kernel
  obtain ⟨fragment, made⟩ := exists_yields gives
  have checked : DraftCircuit.check ⟨"main", main.nets, [some register], none⟩ =
      .ok context.circuit := by rfl
  have shown : register.variant? = some (.register false .falling) :=
    congrArg₂ (fun bus trigger => some (Variant.register bus trigger))
      (by decide : register.isBus = false) (by decide : Trigger.named register.trigger = .falling)
  obtain ⟨label, source, bits, bus, _, assigned, spelled, _, each, rfl, _, falls, _⟩ :=
    gatedClock_takes_over checked (by decide) (mem_singleton_self register)
      shown rfl rfl (mem_singleton_self _) rfl rfl rfl made
  refine ⟨fragment, label, source, bits, _, made, assigned, spelled, fun levels => ?_, rfl,
    falls.mpr rfl⟩
  exact (each levels .globalClock).trans (congrArg some (Bool.true_xor _))

/-- The trigger `falling_edge` selects a falling-edge module, but the bus is built as for a rising
edge: the module takes over when its net rises. -/
theorem falling_edge_spelling_rises :
    let register : Component :=
      ⟨1, .register, [("trigger", "falling_edge")], [⟨"Clock", false, [⟨0, 0⟩]⟩], ""⟩
    let main : Circuit := ⟨"main", [⟨0, 1, false, [], [], none⟩], [register], none⟩
    let names : Names := { instances := [(("main", 1), "r")], modules := [(("main", 1), "R")] }
    let context : WiringContext := ⟨⟨"d", "main", [main], []⟩, main, "main", 0, names, {}⟩
    let clock : ExprBit PortSignal := .wired (.net 0) 0
    register.variant? = some (.register false .falling) ∧
      (∃ fragment, Yields (context.leaf register) fragment ∧
        fragment.assignments.map (·.source.bits? main.netScope) = [some [clock.complement, clock,
          .constant true, .constant true, clock.complement, clock]]) ∧
      Clock.TakesOver .falling (Clock.gatedLevel false false) (Clock.gatedLevel false true) ∧
      ¬Clock.TakesOver .falling (Clock.gatedLevel false true) (Clock.gatedLevel false false) := by
  intro register main names context clock
  have shown : register.variant? = some (.register false .falling) :=
    congrArg₂ (fun bus trigger => some (Variant.register bus trigger))
      (by decide : register.isBus = false) (by decide : Trigger.named register.trigger = .falling)
  refine ⟨shown, ?_, ⟨rfl, rfl, rfl⟩, fun takes => nomatch takes.1⟩
  have gives : (Reporting.outcome (context.leaf register) []).1.toOption.any (fun fragment =>
      fragment.assignments.map (·.source.bits? main.netScope) = [some [clock.complement, clock,
        .constant true, .constant true, clock.complement, clock]]) = true := by
    decide +kernel
  obtain ⟨fragment, made, holds⟩ := exists_yields_of_any gives
  exact ⟨fragment, made, of_decide_eq_true holds⟩

end WiringContext

end Schematic
