import Schematic.Proofs.Board.Placing
import Schematic.Proofs.Circuit.Walk

/-! # No clashes around a design -/

open List

namespace Schematic

open Hdl Text Reporting

namespace Placements

variable {placements : Placements}

theorem Numbered.exists_number (numbered : placements.Numbered) {entry : PortEntry}
    (listed : entry ∈ placements.entries) :
    ∃ direction number, entry.name = portOf direction number := by
  obtain ⟨placed, present, rfl⟩ := mem_map.mp listed
  obtain ⟨number, _, name⟩ := numbered.shape placed present
  exact ⟨placed.direction, number, name⟩

end Placements

namespace Design

variable {design : Design} {settings : Settings} {names : Names} {layouts : Layouts}
  {period : Int} {tick : Clock.TickSettings} {board : Option Board} {wrapper : Wrapper}
  {top : Circuit} {placements : Placements}

/-- The labels of the instances in the module around a design. -/
def wrapperLabels (design : Design) : List String :=
  (if design.treesInOrder.isEmpty then []
    else "TICK_GENERATOR" :: design.treeIds.map fun tree => s!"CLOCK_SOURCE_{tree}") ++
    ["CircuitUnderTest"]

theorem labels_clockSection (design : Design) (tick : Clock.TickSettings)
    (control : Option Component) :
    ((design.clockSection tick control).statements.filterMap Statement.use?).map (·.label) =
      if design.treesInOrder.isEmpty then []
      else "TICK_GENERATOR" :: design.treeIds.map fun tree => s!"CLOCK_SOURCE_{tree}" := by
  simp only [clockSection]
  split
  · rfl
  · have sources : ∀ trees : List ClockTree, ((trees.flatMap fun tree =>
        [Statement.gap, .instantiate (sourceInstance tree)]).filterMap Statement.use?).map
          (·.label) = trees.map fun tree => s!"CLOCK_SOURCE_{tree.id}" := by
      intro trees
      induction trees with
      | nil => rfl
      | cons tree trees ih =>
        rw [flatMap_cons, filterMap_append, map_append, ih]
        rfl
    rw [treeIds, map_map]
    exact congrArg ("TICK_GENERATOR" :: ·) (sources design.treesInOrder)

theorem exists_of_outline {outline : Outline}
    (made : Yields (design.outline period names layouts board) outline) :
    design.topCircuit? = some outline.top ∧ names.circuit? outline.top.name = some outline.module ∧
      outline.top.ports design period names layouts = .ok outline.inner ∧
      storable 16 (layouts.ofCircuit outline.top.name).total.inouts = .ok outline.inouts ∧
      Yields ((design.outerBits layouts board (plannedPins names outline.top)
        (layouts.ofCircuit outline.top.name).total).foldlM
          (Placements.place outline.top.name) (.blank outline.inouts)) outline.placements := by
  simp only [Design.outline] at made
  split at made
  case h_2 => exact absurd made not_yields_throw
  case h_1 top root =>
    split at made
    case h_2 => exact absurd made not_yields_throw
    case h_1 module planned =>
      split at made
      case h_2 =>
        obtain ⟨_, failed, _⟩ := made.bind
        exact absurd failed not_yields_throw
      case h_1 inner declared =>
        obtain ⟨_, passed, made⟩ := made.bind
        obtain rfl := yields_pure.mp passed
        split at made
        case h_2 =>
          obtain ⟨_, failed, _⟩ := made.bind
          exact absurd failed not_yields_throw
        case h_1 inouts counted =>
          obtain ⟨_, passed, made⟩ := made.bind
          obtain rfl := yields_pure.mp passed
          obtain ⟨placements, placed, made⟩ := made.bind
          obtain rfl := yields_pure.mp made
          exact ⟨root, planned, declared, counted, placed⟩

/-- The module around a design is written from an outline of it. -/
def Wraps (design : Design) (settings : Settings) (names : Names) (layouts : Layouts)
    (tick : Clock.TickSettings) (board : Option Board) (outline : Outline) (wrapper : Wrapper) :
    Prop :=
  Yields (design.outline settings.period names layouts board) outline ∧
    wrapper = outline.wrapper design settings names layouts tick board

theorem exists_outline (made : Yields (design.wrapper settings names layouts tick board) wrapper) :
    ∃ outline, design.Wraps settings names layouts tick board outline wrapper ∧
      design.topCircuit? = some outline.top ∧
      names.circuit? outline.top.name = some outline.module ∧
      outline.top.ports design settings.period names layouts = .ok outline.inner ∧
      outline.placements.Numbered ∧
      (BodySection.uses (outline.sections design settings names layouts tick)).map (·.label) =
        design.wrapperLabels := by
  rw [Design.wrapper] at made
  obtain ⟨outline, outlined, written⟩ := made.bind
  obtain ⟨root, named, declared, _, placed⟩ := exists_of_outline outlined
  refine ⟨outline, ⟨outlined, (yields_pure.mp written).symm⟩, root, named, declared,
    Placements.numbered_of_foldlM placed, ?_⟩
  simp only [Outline.sections, BodySection.uses, flatMap_cons, flatMap_nil, filterMap_use?_assign,
    map_append, labels_clockSection]
  rfl

def opening (count : Nat) (name : String) : List Char :=
  (lower name).toList.take count

theorem opening_append {count : Nat} (start rest : String)
    (long : count ≤ (lower start).toList.length) :
    opening count (start ++ rest) = opening count start := by
  rw [opening, lower_append, String.toList_append, take_append_of_le_length long, opening]

theorem opening_wrapperWire (port : String) : opening 2 (wrapperWire port) = ['s', '_'] := by
  rw [wrapperWire, opening_append _ _ (by decide)]
  decide

theorem opening_entry (numbered : placements.Numbered) {entry : PortEntry}
    (listed : entry ∈ design.wrapperEntries placements) : opening 2 entry.name = ['f', 'p'] := by
  rw [wrapperEntries] at listed
  obtain clock | own := mem_append.mp listed
  · split at clock
    · cases clock
    · obtain rfl := mem_singleton.mp clock
      decide
  · obtain ⟨direction, number, name⟩ := numbered.exists_number own
    rw [name, Placements.portOf]
    cases direction <;> rw [opening_append _ _ (by decide)] <;> decide

theorem opening_source (tree : Int) : opening 2 s!"CLOCK_SOURCE_{tree}" = ['c', 'l'] :=
  opening_append "CLOCK_SOURCE_" _ (by decide)

theorem opening_label {label : String} (listed : label ∈ design.wrapperLabels) :
    opening 2 label ∈ [['t', 'i'], ['c', 'l'], ['c', 'i']] := by
  rw [wrapperLabels] at listed
  obtain clock | last := mem_append.mp listed
  · split at clock
    · cases clock
    · obtain rfl | source := mem_cons.mp clock
      · decide
      · obtain ⟨tree, _, rfl⟩ := mem_map.mp source
        rw [opening_source]
        decide
  · obtain rfl := mem_singleton.mp last
    decide

theorem nodup_wrapperEntries (design : Design) (numbered : placements.Numbered) :
    ((design.wrapperEntries placements).map fun entry => lower entry.name).Nodup := by
  have own : (placements.entries.map fun entry => lower entry.name).Nodup := by
    rw [Placements.entries, map_map]
    exact numbered.distinct
  rw [wrapperEntries]
  split
  · exact own
  · refine nodup_cons.mpr ⟨?_, own⟩
    intro again
    obtain ⟨entry, listed, same⟩ := mem_map.mp again
    obtain ⟨direction, number, name⟩ := numbered.exists_number listed
    have clash : opening 6 (Placements.portOf direction number) = opening 6 globalClockPort := by
      rw [← name, opening, same, opening]
    rw [Placements.portOf] at clash
    cases direction <;> rw [opening_append _ _ (by decide)] at clash <;> revert clash <;> decide

theorem nodup_wrapperLabels (linked : design.Linked) : (design.wrapperLabels.map lower).Nodup := by
  have sources : ((design.treeIds.map fun tree => s!"CLOCK_SOURCE_{tree}").map lower).Nodup := by
    rw [map_map]
    refine (nodup_treeIds linked).map fun first second same => ?_
    have texts : lower ("CLOCK_SOURCE_" ++ toString first) =
        lower ("CLOCK_SOURCE_" ++ toString second) := same
    rw [lower_append, lower_append, lower_toString_int, lower_toString_int] at texts
    exact toString_int_injective ((String.append_right_inj _).mp texts)
  have apart : ∀ label, opening 2 label ≠ ['c', 'l'] →
      lower label ∉ (design.treeIds.map fun tree => s!"CLOCK_SOURCE_{tree}").map lower := by
    intro label differ listed
    rw [map_map] at listed
    obtain ⟨tree, _, same⟩ := mem_map.mp listed
    apply differ
    rw [← opening_source tree, opening, opening]
    exact congrArg (fun text => text.toList.take 2) same.symm
  rw [wrapperLabels]
  split
  · exact nodup_singleton _
  · rw [map_append, map_cons, perm_append_comm.nodup_iff]
    refine nodup_cons.mpr ⟨?_, nodup_cons.mpr ⟨apart _ (by decide), sources⟩⟩
    intro again
    obtain same | source := mem_cons.mp again
    · revert same
      decide
    · exact apart _ (by decide) source

theorem fixedWires_sublist (design : Design) (control : Option Component) (total : HiddenCount) :
    (((if design.clockTrees.isEmpty then [] else [(tickSignal, 1)]) ++
      design.fixedWires control total).map Prod.fst).Sublist ([tickSignal, dynamicClockPort] ++
        (design.treeIds.map clockTreePort ++ [hiddenInput, hiddenOutput, hiddenInout])) := by
  have ticks : ((if design.clockTrees.isEmpty then [] else [(tickSignal, 1)]).map
      Prod.fst).Sublist [tickSignal] := by
    split
    · exact nil_sublist _
    · exact List.Sublist.refl _
  have hidden : (((if 0 < total.inputs then [(hiddenInput, total.inputs.toNat)] else []) ++
      (if 0 < total.outputs then [(hiddenOutput, total.outputs.toNat)] else [])).map
        Prod.fst).Sublist [hiddenInput, hiddenOutput, hiddenInout] := by
    split <;> split <;> simp
  have trees : (design.treeIds.map fun tree => (clockTreePort tree, Clock.busWidth)).map Prod.fst =
      design.treeIds.map clockTreePort := by
    rw [map_map]
    rfl
  -- Whether there is a divisor is the only case to tell apart.
  have reloaded : ∀ reload : List (String × Nat), (reload.map Prod.fst).Sublist
      [dynamicClockPort] → (((if design.clockTrees.isEmpty then [] else [(tickSignal, 1)]) ++
        (reload ++ design.treeIds.map (fun tree => (clockTreePort tree, Clock.busWidth)) ++
          (if 0 < total.inputs then [(hiddenInput, total.inputs.toNat)] else []) ++
          if 0 < total.outputs then [(hiddenOutput, total.outputs.toNat)] else [])).map
            Prod.fst).Sublist ([tickSignal, dynamicClockPort] ++
              (design.treeIds.map clockTreePort ++ [hiddenInput, hiddenOutput, hiddenInout])) := by
    intro reload divisor
    rw [append_assoc, append_assoc, map_append, map_append, map_append,
      trees, ← append_assoc]
    exact (ticks.append divisor).append ((List.Sublist.refl _).append hidden)
  cases control with
  | none => exact reloaded [] (nil_sublist _)
  | some control =>
    refine reloaded (if design.treeIds.isEmpty then [] else [(dynamicClockPort, control.width)]) ?_
    split
    · exact nil_sublist _
    · exact List.Sublist.refl _

section Clashes

variable (layouts : Layouts) (period : Int) (tick : Clock.TickSettings) (linked : design.Linked)
  (apart : names.Apart design) (pins : top.PinsDiffer)
  (planned : ∀ pin ∈ top.componentsOf .pin, ∃ port,
    names.port? top.name pin.pathName = some port)
include linked apart pins planned

theorem nodup_wiredPorts : ((design.wiredPorts names layouts period tick top).map fun port =>
      lower port.1).Nodup := by
  have order := design.fixedWires_sublist (design.tickControl? period tick top)
    (layouts.ofCircuit top.name).total
  have reordered : (fixedNames design).Perm ([tickSignal, dynamicClockPort] ++
      (design.treeIds.map clockTreePort ++ [hiddenInput, hiddenOutput, hiddenInout])) := by
    have swap : ([hiddenInput, hiddenOutput, hiddenInout] ++ design.treeIds.map clockTreePort).Perm
        (design.treeIds.map clockTreePort ++ [hiddenInput, hiddenOutput, hiddenInout]) :=
      perm_append_comm
    exact swap.append_left [tickSignal, dynamicClockPort]
  have distinct := ((reordered.map lower).nodup_iff.mp (nodup_fixedNames linked)).sublist
    (order.map lower)
  have all := Circuit.nodup_append_pinPorts apart pins planned distinct
    fun name listed => reordered.mem_iff.mpr (order.subset listed)
  rw [wiredPorts, ← append_assoc, map_append]
  rw [map_append, map_map, Circuit.pinPorts, map_map] at all
  rw [map_map]
  exact all

theorem nodup_wires : (((design.wiredPorts names layouts period tick top).map fun port =>
      wrapperWire port.1).map lower).Nodup := by
  have ports : ((design.wiredPorts names layouts period tick top).map fun port =>
      lower port.1).Nodup := nodup_wiredPorts _ _ _ linked apart pins planned
  rw [map_map]
  refine List.Nodup.map_on ?_ ports.of_map
  intro first firstListed second secondListed same
  have texts : lower ("s_" ++ first.1) = lower ("s_" ++ second.1) := same
  rw [lower_append, lower_append] at texts
  exact inj_on_of_nodup_map ports firstListed secondListed
    ((String.append_right_inj _).mp texts)

theorem nodup_wrapper (numbered : placements.Numbered) :
    (((design.wrapperEntries placements).map (·.name) ++
      ((design.wiredPorts names layouts period tick top).map (fun port => wrapperWire port.1) ++
        design.wrapperLabels)).map lower).Nodup := by
  have entries : (((design.wrapperEntries placements).map (·.name)).map lower).Nodup := by
    rw [map_map]
    exact nodup_wrapperEntries design numbered
  -- Ports begin with `fp`, wires with `s_`, and labels with none of these.
  have differ : ∀ first second : String, opening 2 first ≠ opening 2 second →
      lower first ≠ lower second := by
    intro first second other same
    exact other (congrArg (fun text => text.toList.take 2) same)
  rw [map_append, map_append, nodup_append, nodup_append]
  refine ⟨entries, ⟨nodup_wires layouts period tick linked apart pins planned,
    nodup_wrapperLabels linked, ?_⟩, ?_⟩
  · intro wire own label listed
    obtain ⟨_, wired, rfl⟩ := mem_map.mp own
    obtain ⟨port, _, rfl⟩ := mem_map.mp wired
    obtain ⟨label, member, rfl⟩ := mem_map.mp listed
    apply differ
    rw [opening_wrapperWire]
    intro same
    exact absurd (same ▸ opening_label member) (by decide)
  · intro port own other listed
    obtain ⟨_, present, rfl⟩ := mem_map.mp own
    obtain ⟨entry, member, rfl⟩ := mem_map.mp present
    obtain wire | label := mem_append.mp listed
    · obtain ⟨_, wired, rfl⟩ := mem_map.mp wire
      obtain ⟨port, _, rfl⟩ := mem_map.mp wired
      apply differ
      rw [opening_entry numbered member, opening_wrapperWire]
      decide
    · obtain ⟨label, own, rfl⟩ := mem_map.mp label
      apply differ
      rw [opening_entry numbered member]
      intro same
      exact absurd (same ▸ opening_label own) (by decide)

end Clashes

theorem names_wrapperEntries (design : Design) (placements : Placements) :
    (design.wrapperEntries placements).map (·.name) =
      (if design.clockTrees.isEmpty then [] else [globalClockPort]) ++
        placements.ports.map (·.port) := by
  rw [wrapperEntries, Placements.entries, map_append, map_map]
  split <;> rfl

theorem perm_wrapperInterface {labels : List String}
    (distinct : (((design.wrapperEntries placements).map (·.name) ++
      ((design.wiredPorts names layouts period tick top).map (fun port => wrapperWire port.1) ++
        labels)).map lower).Nodup) :
    (design.wrapperInterface names layouts period tick top placements).portNames.Perm
        ((design.wrapperEntries placements).map (·.name)) ∧
      (design.wrapperInterface names layouts period tick top placements).wireNames.Perm
        ((design.wiredPorts names layouts period tick top).map fun port => wrapperWire port.1) := by
  obtain ⟨entries, rest, _⟩ := nodup_append.mp distinct.of_map
  obtain ⟨wires, _, _⟩ := nodup_append.mp rest
  have blank : (({} : Interface).addPorts (design.wrapperEntries placements)).wires = [] :=
    Interface.wires_addPorts ..
  refine ⟨Interface.perm_portNames WiringContext.Wired.portless_empty entries, ?_⟩
  refine (perm_ext_iff_of_nodup (Interface.nodup_wireNames blank _) wires).mpr fun name => ?_
  refine (Interface.mem_wireNames blank).trans ?_
  rw [map_map]
  rfl

/-- **No two declared identifiers clash.** In a design that was planned without a fatal message, the
ports, wires and labels of every circuit that is made differ without regard to case, apart from two
wires of one component that is written elsewhere, and so do those of the module around the
design. -/
theorem identifiers_never_clash {draft : Draft} (checked : draft.check = .ok design)
    (planned : (design.plan settings).1 = .ok names)
    (clean : ∀ message ∈ (design.plan settings).2, message.severity ≠ .fatal) :
    (∀ circuit ∈ design.circuits, ∀ module, names.circuit? circuit.name = some module →
      ∀ target layouts unit,
        let context := design.wiring target names layouts circuit module
        Yields (context.unit target.dialect) unit →
        ∃ ports sections fragments,
          context.Writes target.dialect unit ports sections fragments ∧
          (context.identifiers fragments).Pairwise context.Tells ∧
          let declared := context.declared ports fragments
          (declared.portNames ++ (declared.wireNames ++
            (BodySection.uses sections).map (·.label))).Pairwise context.Tells) ∧
    ∀ target layouts tick board wrapper,
      Yields (design.wrapper target names layouts tick board) wrapper →
      ∃ outline, design.Wraps target names layouts tick board outline wrapper ∧
        design.topCircuit? = some outline.top ∧
        let interface := outline.interface design target names layouts tick
        let sections := outline.sections design target names layouts tick
        interface.portNames.Perm
          ((if design.clockTrees.isEmpty then [] else [globalClockPort]) ++
            wrapper.ports.map (·.port)) ∧
        interface.wireNames.Perm
          ((design.wiredPorts names layouts target.period tick outline.top).map fun port =>
            wrapperWire port.1) ∧
        ((interface.portNames ++ (interface.wireNames ++
          (BodySection.uses sections).map (·.label))).map lower).Nodup := by
  have indexed := Draft.indexed_of_check checked
  have linked := Draft.linked_of_check checked
  have apart := apart_of_plan linked planned
  have differ : ∀ circuit ∈ design.circuits, ∀ module,
      names.circuit? circuit.name = some module → circuit.PinsDiffer :=
    fun circuit member module named => pinsDiffer_of_plan linked indexed planned clean member named
  constructor
  · intro circuit member module named target layouts unit context made
    obtain ⟨ports, sections, fragments, writes⟩ := WiringContext.exists_written made
    obtain ⟨clocks, divisors, pins, roots, _, _, _, _, instances, rfl⟩ :=
      WiringContext.exists_parts writes.wired
    have wired : context.Wired ports fragments :=
      ⟨indexed, linked, member, apart, writes.declared, instances⟩
    have own := differ circuit member module named
    have told := wired.pairwise_identifiers differ own
    refine ⟨ports, _, fragments, writes, told, ?_⟩
    rw [WiringContext.uses_bodySections, List.map_map]
    exact wired.pairwise_declared own told
  · intro target layouts tick board wrapper made
    obtain ⟨outline, wraps, root, named, declared, numbered, labels⟩ := exists_outline made
    have pins := differ outline.top (circuit?_eq_some root).1 outline.module named
    have distinct := nodup_wrapper layouts target.period tick linked apart pins
      (Circuit.ports_eq_ok declared).2 numbered
    obtain ⟨portNames, wireNames⟩ := perm_wrapperInterface distinct
    refine ⟨outline, wraps, root, ?_, wireNames, ?_⟩
    · rw [wraps.2]
      exact names_wrapperEntries .. ▸ portNames
    · rw [labels]
      have all := portNames.append (wireNames.append_right design.wrapperLabels)
      exact (all.map lower).nodup_iff.mpr distinct

/-- Two pins whose labels differ in case only, a gate behind a wire of its own, a button and a
clock: the circuit and the module around it are made, and nothing clashes. -/
theorem identifiers_never_clash_cases :
    let pin (id : Int) (label : String) (output : Bool) : Component :=
      ⟨id, .pin, [("label", label)], [⟨label, output, [⟨0, 0⟩, ⟨0, 1⟩]⟩], ""⟩
    let gate : Component :=
      ⟨3, .not, [("width", "2")], [⟨"Input_1", false, [⟨0, 1⟩, ⟨0, 0⟩]⟩], ""⟩
    let components := [pin 1 "A" true, pin 2 "a" false, gate, ⟨4, .button, [], [], ""⟩]
    let net : Net := ⟨0, 2, false, [], [], none⟩
    let main : Circuit := ⟨"main", [net], components, none⟩
    let design : Design := ⟨"d", "main", [main], [⟨0, 1, 1, 0⟩]⟩
    ∃ names, (design.plan {}).1 = .ok names ∧
      (∃ unit ports sections fragments,
        let context := design.wiring {} names design.layouts main "main"
        Yields (context.unit .vhdl) unit ∧
        context.Writes .vhdl unit ports sections fragments ∧
        (context.identifiers fragments).Pairwise context.Tells ∧
        "A" ∈ context.identifiers fragments ∧ "a_1" ∈ context.identifiers fragments) ∧
      ∃ wrapper outline, Yields (design.wrapper {} names design.layouts ⟨.raw, 0, 0⟩ none) wrapper ∧
        design.Wraps {} names design.layouts ⟨.raw, 0, 0⟩ none outline wrapper ∧
        let interface := outline.interface design {} names design.layouts ⟨.raw, 0, 0⟩
        ((interface.portNames ++ interface.wireNames).map lower).Nodup ∧
        interface.wireNames.Perm ["s_FPGA_Tick", "s_LOGISIM_CLOCK_TREE_0",
          "s_LOGISIM_HIDDEN_FPGA_INPUT", "s_A", "s_a_1"] := by
  intro pin gate components net main design
  have checked : Draft.check ⟨"d", "main", [some ⟨"main", [net], components.map some, none⟩],
      [⟨0, 1, 1, 0⟩]⟩ = .ok design := by rfl
  have clean : ∀ message ∈ (design.plan {}).2, message.severity ≠ .fatal := by decide +kernel
  have home : (design.plan {}).1.toOption.bind (·.circuit? "main") = some "main" := by
    decide +kernel
  have entries : (design.plan {}).1.toOption.map (fun names =>
      (main.portEntries design 0 names design.layouts).map (·.name)) =
      some ["LOGISIM_CLOCK_TREE_0", "LOGISIM_HIDDEN_FPGA_INPUT", "A", "a_1"] := by decide +kernel
  have wires : (design.plan {}).1.toOption.map (fun names =>
      (design.wiredPorts names design.layouts 0 ⟨.raw, 0, 0⟩ main).map fun port =>
        wrapperWire port.1) = some ["s_FPGA_Tick", "s_LOGISIM_CLOCK_TREE_0",
          "s_LOGISIM_HIDDEN_FPGA_INPUT", "s_A", "s_a_1"] := by decide +kernel
  have units : (design.plan {}).1.toOption.any (fun names =>
      (Reporting.outcome ((design.wiring {} names design.layouts main "main").unit .vhdl)
        []).1.toOption.isSome &&
      (Reporting.outcome (design.wrapper {} names design.layouts ⟨.raw, 0, 0⟩ none)
        []).1.toOption.isSome) = true := by decide +kernel
  cases planned : (design.plan {}).1 with
  | error failure => rw [planned] at home; cases home
  | ok names =>
    rw [planned] at home entries wires units
    simp only [Except.toOption, Option.any_some, Option.map_some, Option.some.injEq,
      Bool.and_eq_true] at entries wires units
    obtain ⟨unit, made⟩ := exists_yields units.1
    obtain ⟨wrapper, wrapped⟩ := exists_yields units.2
    obtain ⟨inside, around⟩ := identifiers_never_clash checked planned clean
    obtain ⟨ports, sections, fragments, writes, told, _⟩ :=
      inside main (List.mem_singleton_self main) "main" home {} design.layouts unit made
    obtain ⟨outline, wraps, root, _, wireNames, distinct⟩ :=
      around {} design.layouts ⟨.raw, 0, 0⟩ none wrapper wrapped
    have top : main = outline.top := Option.some.inj root
    rw [← top, wires] at wireNames
    have listed : ∀ name, name ∈ ["LOGISIM_CLOCK_TREE_0", "LOGISIM_HIDDEN_FPGA_INPUT", "A",
        "a_1"] → name ∈ (design.wiring {} names design.layouts main "main").identifiers
          fragments := by
      intro name member
      exact List.mem_append_left _ (entries ▸ member)
    refine ⟨names, rfl, ⟨unit, ports, sections, fragments, made, writes, told,
      listed "A" (by simp), listed "a_1" (by simp)⟩, wrapper, outline, wrapped, wraps, ?_,
      wireNames⟩
    rw [← List.append_assoc, List.map_append] at distinct
    exact (List.nodup_append.mp distinct).1

end Design

end Schematic
