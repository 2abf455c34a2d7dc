import Schematic.Proofs.Board.Wrapper
import Schematic.Proofs.Circuit.Hiding
import Schematic.Proofs.Circuit.Widths

/-! # Names that modules hide around a design -/

open List

namespace Schematic

open Hdl Text Reporting

namespace Design

variable {design : Design} {names : Names} {layouts : Layouts} {period : Int}
  {tick : Clock.TickSettings} {top : Circuit} {placements : Placements}

/-- The ports, the signals and the labels of the module around a design. -/
def wrapperNames (design : Design) (names : Names) (layouts : Layouts) (period : Int)
    (tick : Clock.TickSettings) (top : Circuit) (ports : List PlacedPort) : List String :=
  (if design.clockTrees.isEmpty then [] else [globalClockPort]) ++ ports.map (·.port) ++
    ((design.wiredPorts names layouts period tick top).map (fun port => wrapperWire port.1) ++
      design.wrapperLabels)

variable {sections : List BodySection} {name : String}

theorem mem_wrapperNames_iff
    (labels : (BodySection.uses sections).map (·.label) = design.wrapperLabels) :
    name ∈ (design.wrapperInterface names layouts period tick top placements).portNames ++
        ((design.wrapperInterface names layouts period tick top placements).wireNames ++
          (BodySection.uses sections).map (·.label)) ↔
      name ∈ design.wrapperNames names layouts period tick top placements.ports := by
  have ports : name ∈ (design.wrapperInterface names layouts period tick top
      placements).portNames ↔ name ∈ (design.wrapperEntries placements).map (·.name) :=
    Interface.mem_portNames_addPorts WiringContext.Wired.portless_empty
  have wires : name ∈ (design.wrapperInterface names layouts period tick top
      placements).wireNames ↔
      name ∈ (design.wiredPorts names layouts period tick top).map fun port =>
        wrapperWire port.1 := by
    refine (Interface.mem_wireNames (Interface.wires_addPorts ..)).trans ?_
    rw [map_map]
    rfl
  rw [wrapperNames, ← names_wrapperEntries, labels, mem_append, mem_append,
    mem_append, mem_append, ports, wires]

theorem opening_wrapperName (numbered : placements.Numbered)
    (listed : name ∈ design.wrapperNames names layouts period tick top placements.ports) :
    opening 2 name ≠ ['l', 'o'] := by
  rw [wrapperNames, ← names_wrapperEntries, mem_append, mem_append] at listed
  rcases listed with port | wire | label
  · obtain ⟨entry, present, rfl⟩ := mem_map.mp port
    rw [opening_entry numbered present]
    decide
  · obtain ⟨port, _, rfl⟩ := mem_map.mp wire
    rw [opening_wrapperWire]
    decide
  · have others : ['l', 'o'] ∉ [['t', 'i'], ['c', 'l'], ['c', 'i']] := by decide
    intro same
    exact others (same ▸ opening_label label)

theorem hides_wrapper_iff (numbered : placements.Numbered)
    (labels : (BodySection.uses sections).map (·.label) = design.wrapperLabels) {module : String}
    {inner : Interface} : Hides (design.wrapperDeclarations tick module inner)
        (design.wrapperInterface names layouts period tick top placements) sections ↔
      ∃ name ∈ design.wrapperNames names layouts period tick top placements.ports,
        lower module = lower name := by
  constructor
  · rintro ⟨declaration, listed, name, inUse, same⟩
    have inUse := (mem_wrapperNames_iff labels).mp inUse
    rw [wrapperDeclarations, mem_append] at listed
    rcases listed with clock | own
    · -- The names of both clock modules begin alike.
      have start : opening 2 declaration.1 = ['l', 'o'] := by
        split at clock
        · cases clock
        · rcases mem_cons.mp clock with rfl | clock
          · exact (by decide : opening 2 Clock.tickModule = ['l', 'o'])
          · obtain rfl := mem_singleton.mp clock
            exact (by decide : opening 2 Clock.sourceModule = ['l', 'o'])
      rw [opening, same] at start
      exact absurd start (opening_wrapperName numbered inUse)
    · obtain rfl := mem_singleton.mp own
      exact ⟨name, inUse, same⟩
  · rintro ⟨name, inUse, same⟩
    exact ⟨(module, inner), mem_append_right _ (mem_singleton_self _), name,
      (mem_wrapperNames_iff labels).mpr inUse, same⟩

/-- Exactly those component declarations hide a name of their architecture that planning has given
the name: in a circuit, a module of an instance that is called as a port, a net, a wire of an
instance or a label; around the design, the module of the top if it is called as a port, a wire or a
label there. -/
theorem components_hide_iff (design : Design) (names : Names) (layouts : Layouts)
    {target : Settings} (vhdl : target.dialect = .vhdl) :
    (∀ circuit module unit,
      let context := design.wiring target names layouts circuit module
      Yields (context.unit target.dialect) unit →
      ∃ ports sections fragments, context.Writes .vhdl unit ports sections fragments ∧
        (Hides (Fragment.declarations fragments) (context.declared ports fragments) sections ↔
          ∃ used name, context.IsTarget used ∧ context.InUse fragments name ∧
            lower used = lower name)) ∧
    ∀ tick board wrapper, Yields (design.wrapper target names layouts tick board) wrapper →
      ∃ outline, design.Wraps target names layouts tick board outline wrapper ∧
        design.topCircuit? = some outline.top ∧
        names.circuit? outline.top.name = some outline.module ∧
        (Hides (design.wrapperDeclarations tick outline.module outline.inner)
            (outline.interface design target names layouts tick)
            (outline.sections design target names layouts tick) ↔
          ∃ name ∈ design.wrapperNames names layouts target.period tick outline.top wrapper.ports,
            lower outline.module = lower name) := by
  constructor
  · intro circuit module unit context made
    rw [vhdl] at made
    obtain ⟨ports, sections, fragments, writes⟩ := WiringContext.exists_written made
    exact ⟨ports, sections, fragments, writes,
      WiringContext.hides_iff writes.declared writes.wired⟩
  · intro tick board wrapper made
    obtain ⟨outline, wraps, root, named, _, numbered, labels⟩ := exists_outline made
    refine ⟨outline, wraps, root, named, ?_⟩
    rw [wraps.2]
    exact hides_wrapper_iff numbered labels

/-- The declaration of a light hides a pin of the same name, but nothing is hidden around the
design. -/
theorem components_hide_light :
    let pin : Component := ⟨1, .pin, [("label", "LED")], [⟨"LED", true, [⟨0, 0⟩]⟩], ""⟩
    let light : Component := ⟨2, .led, [], [⟨"Input", false, [⟨0, 0⟩]⟩], ""⟩
    let main : Circuit := ⟨"main", [⟨0, 1, false, [], [], none⟩], [pin, light], none⟩
    let design : Design := ⟨"d", "main", [main], []⟩
    ∃ names, (design.plan {}).1 = .ok names ∧
      (∃ unit ports sections fragments,
        let context := design.wiring {} names design.layouts main "main"
        Yields (context.unit .vhdl) unit ∧
        context.Writes .vhdl unit ports sections fragments ∧
        Hides (Fragment.declarations fragments) (context.declared ports fragments) sections) ∧
      ∃ wrapper outline,
        Yields (design.wrapper {} names design.layouts ⟨.raw, 0, 0⟩ none) wrapper ∧
        design.Wraps {} names design.layouts ⟨.raw, 0, 0⟩ none outline wrapper ∧
        ¬Hides (design.wrapperDeclarations ⟨.raw, 0, 0⟩ outline.module outline.inner)
          (outline.interface design {} names design.layouts ⟨.raw, 0, 0⟩)
          (outline.sections design {} names design.layouts ⟨.raw, 0, 0⟩) := by
  intro pin light main design
  have gives : (design.plan {}).1.toOption.any (fun names =>
      names.circuit? "main" = some "main" && names.module? "main" 2 = some "LED" &&
      names.port? "main" "LED" = some "LED" &&
      (outcome ((design.wiring {} names design.layouts main "main").unit .vhdl)
        []).1.toOption.isSome &&
      (outcome (design.wrapper {} names design.layouts ⟨.raw, 0, 0⟩ none) []).1.toOption.any
        fun wrapper => !(design.wrapperNames names design.layouts 0 ⟨.raw, 0, 0⟩ main
          wrapper.ports).any fun name => lower "main" == lower name) = true := by decide +kernel
  obtain ⟨names, planned, gives⟩ := exists_ok_of_any gives
  simp only [Bool.and_eq_true, decide_eq_true_eq] at gives
  obtain ⟨⟨⟨⟨home, module⟩, port⟩, circuits⟩, wrappers⟩ := gives
  obtain ⟨unit, made⟩ := exists_yields circuits
  obtain ⟨wrapper, wrapped, apart⟩ := exists_yields_of_any wrappers
  obtain ⟨inside, around⟩ := components_hide_iff design names design.layouts
    (rfl : ({} : Settings).dialect = .vhdl)
  obtain ⟨ports, sections, fragments, writes, hidden⟩ := inside main "main" unit made
  obtain ⟨outline, wraps, root, named, outside⟩ := around ⟨.raw, 0, 0⟩ none wrapper wrapped
  have top : main = outline.top := Option.some.inj root
  rw [← top] at named outside
  have own : "main" = outline.module := Option.some.inj (home.symm.trans named)
  refine ⟨names, planned, ⟨unit, ports, sections, fragments, made, writes, hidden.mpr ?_⟩,
    wrapper, outline, wrapped, wraps, ?_⟩
  · exact ⟨"LED", "LED", .inl ⟨light, List.mem_cons_of_mem _ (List.mem_singleton_self _), rfl,
      module⟩, .pin (List.mem_singleton_self pin) port, rfl⟩
  · intro hides
    obtain ⟨name, listed, same⟩ := outside.mp hides
    rw [Bool.not_eq_true', List.any_eq_false] at apart
    rw [← own] at same
    exact apart name listed (beq_iff_eq.mpr same)

/-- In a design that is planned without any message, a component declaration hides a port of its
circuit, and another hides a label around the design. -/
theorem component_hides_port_and_label :
    let pin : Component := ⟨1, .pin, [("label", "LED")], [⟨"LED", true, [⟨0, 0⟩]⟩], ""⟩
    let light : Component := ⟨2, .led, [], [⟨"Input", false, [⟨0, 0⟩]⟩], ""⟩
    let nets : List Net := [⟨0, 1, false, [], [], none⟩]
    let top : Circuit := ⟨"CircuitUnderTest", nets, [pin, light], none⟩
    let design : Design := ⟨"d", "CircuitUnderTest", [top], []⟩
    Draft.check ⟨"d", "CircuitUnderTest",
        [some ⟨"CircuitUnderTest", nets, [some pin, some light], none⟩], []⟩ = .ok design ∧
      (design.plan {}).2 = [] ∧ ∃ names, (design.plan {}).1 = .ok names ∧
        (∃ unit ports sections fragments,
          let context := design.wiring {} names design.layouts top "CircuitUnderTest"
          Yields (context.unit .vhdl) unit ∧ context.Writes .vhdl unit ports sections fragments ∧
          Hides (Fragment.declarations fragments) (context.declared ports fragments) sections) ∧
        ∃ wrapper outline,
          Yields (design.wrapper {} names design.layouts ⟨.raw, 0, 0⟩ none) wrapper ∧
          design.Wraps {} names design.layouts ⟨.raw, 0, 0⟩ none outline wrapper ∧
          Hides (design.wrapperDeclarations ⟨.raw, 0, 0⟩ outline.module outline.inner)
            (outline.interface design {} names design.layouts ⟨.raw, 0, 0⟩)
            (outline.sections design {} names design.layouts ⟨.raw, 0, 0⟩) := by
  intro pin light nets top design
  refine ⟨rfl, by decide +kernel, ?_⟩
  have gives : (design.plan {}).1.toOption.any (fun names =>
      names.circuit? "CircuitUnderTest" = some "CircuitUnderTest" &&
      (design.wiring {} names design.layouts top "CircuitUnderTest").makes
        (fun ports sections fragments => decide (Hides (Fragment.declarations fragments)
          ((design.wiring {} names design.layouts top "CircuitUnderTest").declared ports fragments)
          sections)) &&
      (outcome (design.wrapper {} names design.layouts ⟨.raw, 0, 0⟩ none)
        []).1.toOption.isSome) = true := by decide +kernel
  obtain ⟨names, planned, gives⟩ := exists_ok_of_any gives
  simp only [Bool.and_eq_true, decide_eq_true_eq] at gives
  obtain ⟨⟨home, circuits⟩, wrappers⟩ := gives
  obtain ⟨unit, ports, sections, fragments, made, writes, hides⟩ :=
    WiringContext.exists_of_makes circuits .vhdl
  obtain ⟨wrapper, wrapped⟩ := exists_yields wrappers
  obtain ⟨outline, wraps, root, named, _, numbered, labels⟩ := exists_outline wrapped
  have isTop : top = outline.top := Option.some.inj root
  rw [← isTop] at named
  have own : "CircuitUnderTest" = outline.module := Option.some.inj (home.symm.trans named)
  refine ⟨names, planned, ⟨unit, ports, sections, fragments, made, writes, of_decide_eq_true hides⟩,
    wrapper, outline, wrapped, wraps, (hides_wrapper_iff numbered labels).mpr ?_⟩
  have label : "CircuitUnderTest" ∈ design.wrapperLabels :=
    List.mem_append_right _ (List.mem_singleton_self _)
  exact ⟨_, List.mem_append_right _ (List.mem_append_right _ label), own ▸ rfl⟩

end Design

end Schematic
