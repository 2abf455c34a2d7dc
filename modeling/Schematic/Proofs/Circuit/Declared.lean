import Schematic.Proofs.Circuit.Body
import Schematic.Proofs.Circuit.InnerNames
import Schematic.Proofs.Component.Ports

/-! # What the module of a circuit declares -/

open List

namespace Schematic

open Hdl Text Reporting

theorem Design.Linked.mem_treeIds {design : Design} (linked : design.Linked) {circuit : Circuit}
    (member : circuit ∈ design.circuits) {net : Net} (present : net ∈ circuit.nets) {tree : Int}
    (belongs : net.clockTree = some tree) : tree ∈ design.treeIds := by
  obtain ⟨clockTree, known⟩ := linked.trees _ member net present tree belongs
  rw [Design.clockTree?] at known
  have ids := List.find?_some known
  refine mem_map.mpr ⟨clockTree, ?_, eq_of_beq ids⟩
  exact mem_mergeSort.mpr (mem_of_find?_eq_some known)

namespace Circuit

variable {interface : Interface} {entry : PortEntry} {design : Design} {period : Int}
  {names : Names} {layouts : Layouts} {circuit : Circuit}

theorem ports_eq_ok (made : circuit.ports design period names layouts = .ok interface) :
    interface = ({} : Interface).addPorts (circuit.portEntries design period names layouts) ∧
      ∀ pin ∈ circuit.componentsOf .pin, ∃ port,
        names.port? circuit.name pin.pathName = some port := by
  obtain ⟨_, checked, made⟩ := exists_ok_of_bind made
  cases made
  refine ⟨rfl, fun pin listed => ?_⟩
  have planned := checkAll_eq_ok.mp checked pin listed
  unfold checkPin at planned
  split at planned
  · cases planned
  case h_2 port named => exact ⟨port, named⟩

theorem fixedEntries_sublist (design : Design) (period : Int) (layouts : Layouts)
    (circuit : Circuit) : ((circuit.fixedEntries design period layouts).map (·.name)).Sublist
      (design.treeIds.map clockTreePort ++
        [tickSignal, dynamicClockPort, hiddenInput, hiddenOutput, hiddenInout]) := by
  have trees : (design.treeIds.map fun tree =>
      (⟨.input, clockTreePort tree, .bits Clock.busWidth⟩ : PortEntry)).map (·.name) =
      design.treeIds.map clockTreePort := by
    rw [map_map]
    rfl
  have divisor : (((design.dynamicClock? period circuit).toList.map fun control =>
      (⟨.output, dynamicClockPort, .bits control.width⟩ : PortEntry)).map (·.name)).Sublist
      [dynamicClockPort] := by
    cases design.dynamicClock? period circuit with
    | none => exact nil_sublist _
    | some control => exact List.Sublist.refl _
  rw [fixedEntries, map_append, map_append, trees, append_assoc]
  refine (List.Sublist.refl _).append ?_
  exact (divisor.append (HiddenCount.entries_sublist _)).trans (sublist_cons_self ..)

theorem name_mem_fixedNames (listed : entry ∈ circuit.fixedEntries design period layouts) :
    entry.name ∈ fixedNames design := by
  have named := (fixedEntries_sublist design period layouts circuit).subset
    (mem_map_of_mem (f := (·.name)) listed)
  exact perm_append_comm.mem_iff.mp named

theorem nodup_fixedEntries (linked : design.Linked) (period : Int) (layouts : Layouts)
    (circuit : Circuit) :
    ((circuit.fixedEntries design period layouts).map fun entry => lower entry.name).Nodup := by
  have fixed := nodup_fixedNames linked
  rw [fixedNames, map_append, perm_append_comm.nodup_iff, ← map_append] at fixed
  have names := (fixedEntries_sublist design period layouts circuit).map lower
  rw [map_map] at names
  exact fixed.sublist names

theorem looksInner_entry (apart : names.Apart design)
    (planned : ∀ pin ∈ circuit.componentsOf .pin, ∃ port,
      names.port? circuit.name pin.pathName = some port)
    (listed : entry ∈ circuit.portEntries design period names layouts) :
    looksInner entry.name = false := by
  obtain fixed | own := mem_append.mp listed
  · exact looksInner_fixed (name_mem_fixedNames fixed)
  · obtain ⟨pin, present, rfl⟩ := mem_map.mp own
    obtain ⟨port, named⟩ := planned pin present
    obtain ⟨number, form⟩ := apart.exists_port named
    rw [pinEntry, named, Option.getD_some, form]
    exact looksInner_port ..

end Circuit

namespace Hdl.Interface

variable {interface : Interface} {name : String} {wires : List (String × Width)} {count : Nat}

theorem port?_eq_none (outside : name ∉ interface.portNames) : interface.port? name = none := by
  cases found : interface.port? name with
  | none => rfl
  | some entry =>
    refine absurd ?_ outside
    exact mem_portNames.mpr ⟨entry.1, Table.mem_keys_of_find? (side_of_port? found)⟩

theorem mem_wireNames (blank : interface.wires = []) :
    name ∈ (interface.addWires wires).wireNames ↔ name ∈ wires.map Prod.fst := by
  rw [wireNames, addWires, blank, Table.mem_keys_insertAll, map_nil]
  exact ⟨fun listed => listed.resolve_right not_mem_nil, .inl⟩

theorem nodup_wireNames (blank : interface.wires = [])
    (wires : List (String × Width)) : (interface.addWires wires).wireNames.Nodup := by
  rw [wireNames, addWires, blank]
  exact (Table.ordered_nil.insertAll _).nodup

theorem scope_of_wire (outside : name ∉ interface.portNames) (blank : interface.wires = [])
    (listed : name ∈ wires.map Prod.fst)
    (agree : ∀ width, (name, width) ∈ wires → width = .bits count) :
    (interface.addWires wires).scope name = some (name, (count : Int)) := by
  have none : (interface.addWires wires).port? name = none := port?_eq_none outside
  obtain ⟨width, found⟩ : ∃ width, (interface.wires.insertAll wires).find? name = some width :=
    Table.exists_find? (Table.mem_keys_insertAll.mpr (.inl listed))
  rw [blank] at found
  obtain added | ⟨_, earlier⟩ := Table.find?_insertAll found
  · obtain rfl := agree width added
    have own : (interface.addWires wires).wires.find? name = some (.bits count) := by
      rw [addWires, blank, found]
    simp only [scope, none, own, Option.bind_some, Width.count?, Option.map_some]
  · cases earlier

theorem scope_of_port (portless : interface.Portless)
    {entries : List PortEntry} {entry : PortEntry} (listed : entry ∈ entries)
    (agree : ∀ other ∈ entries, other.name = entry.name → other.width = .bits count)
    (wires : List (String × Width)) :
    ((interface.addPorts entries).addWires wires).scope entry.name =
      some (entry.name, (count : Int)) := by
  obtain ⟨direction, width, found⟩ := exists_port?_of_mem portless listed
  obtain rfl : width = .bits count := agree _ (mem_of_port? portless found) rfl
  have same : ((interface.addPorts entries).addWires wires).port? entry.name =
      some (direction, .bits count) := found
  simp only [scope, same, Width.count?, Option.map_some]

end Hdl.Interface

namespace PortNeed

variable {need : PortNeed} {circuit : Circuit} {points : List Point} {mapping : PortMapping}

inductive Connects (need : PortNeed) (circuit : Circuit) (points : List Point) : PortMapping → Prop
  | direct (run : Run) (range : NetRange) : runs points = [run] → run.source = some range →
      Connects need circuit points { actual := some (circuit.rangeOf range) }
  | opened : need.direction ≠ .input → Connects need circuit points { actual := none }
  | idle : need.direction = .input →
      Connects need circuit points { actual := some (.fill need.idle points.length) }
  | through : 1 < (runs points).length →
      Connects need circuit points (need.throughWire circuit points.length (runs points))

theorem connects_of_connect (connected : need.connect circuit points = .ok mapping) :
    need.Connects circuit points mapping := by
  obtain ⟨run, range, single, source, direct⟩ | ⟨_, _, loose⟩ | ⟨many, split⟩ :=
    need.connect_cases circuit points
  · rw [direct] at connected
    cases connected
    exact .direct run range single source
  · rw [loose] at connected
    split at connected
    case isTrue facing =>
      cases connected
      exact .opened facing
    case isFalse facing =>
      split at connected
      · cases connected
      · cases connected
        exact .idle (Decidable.not_not.mp facing)
  · rw [split] at connected
    split at connected
    · cases connected
    · cases connected
      exact .through many

theorem wire_of_connect (connected : need.connect circuit points = .ok mapping)
    {wire : String × Nat} (own : mapping.wire = some wire) :
    wire = (need.wire, points.length) ∧ 1 < (runs points).length := by
  cases connects_of_connect connected with
  | direct => cases own
  | opened => cases own
  | idle => cases own
  | through many =>
    cases own
    exact ⟨rfl, many⟩

end PortNeed

theorem runs_unconnected (count : Nat) :
    (runs (List.replicate count Point.unconnected)).length ≤ 1 ∧
      ∀ run ∈ runs (List.replicate count Point.unconnected), run.source = none := by
  have gathered := runs_induction (List.replicate count Point.unconnected)
    (motive := fun _ found => found.length ≤ 1 ∧ ∀ run ∈ found, run.source = none)
    ⟨by simp, by simp⟩ fun {position point found} here gathered => ?_
  · rw [length_reverse] at gathered
    exact ⟨gathered.1, fun run member => gathered.2 run (mem_reverse.mpr member)⟩
  obtain rfl := eq_of_mem_replicate (mem_of_getElem? here)
  obtain ⟨few, gaps⟩ := gathered
  match found with
  | [] =>
    exact ⟨Nat.le_refl _, by simp [Run.addBit, Run.single, Point.unconnected, Point.isConnected]⟩
  | [run] =>
    have gap := gaps run (mem_singleton_self run)
    simp [Run.addBit, Run.extend?, gap, Point.unconnected, Point.isConnected]

namespace WiringContext

variable {context : WiringContext} {component : Component} {ports : Interface}
  {fragments : List Fragment}

inductive CarriesWire (context : WiringContext) (component : Component) (port : String)
    (width : Nat) : Prop
  | leaf (variant : Variant) (spec : PortSpec) : component.kind.isSpecial = false →
      component.variant? = some variant → spec ∈ variant.specs → spec.name = port →
      variant.ports.portWidth? port (variant.values component.width) = some (width : Int) →
      CarriesWire context component port width
  | inner (circuit : Circuit) (pin : Component) (e : End) : component.kind = .subcircuit →
      context.design.circuit? component.circuit = some circuit →
      pin ∈ circuit.componentsOf .pin →
      context.names.port? circuit.name pin.pathName = some port →
      component.end? pin.pathName = some e → e.points.length = width →
      CarriesWire context component port width

theorem CarriesWire.width_eq (apart : context.names.Apart context.design) {port : String}
    {first second : Nat} (early : CarriesWire context component port first)
    (late : CarriesWire context component port second) : first = second := by
  cases early with
  | leaf variant spec ordinary known _ _ width =>
    cases late with
    | leaf other _ _ again _ _ otherWidth =>
      rw [known] at again
      cases again
      rw [width] at otherWidth
      exact Int.ofNat.inj (Option.some.inj otherWidth)
    | inner circuit pin e isInner => rw [isInner] at ordinary; cases ordinary
  | inner circuit pin e isInner found _ named end' width =>
    cases late with
    | leaf variant spec ordinary => rw [isInner] at ordinary; cases ordinary
    | inner other otherPin otherEnd _ again _ otherNamed otherEnds otherWidth =>
      rw [found] at again
      cases again
      have paths := apart.port_inj named otherNamed rfl
      rw [← paths, end'] at otherEnds
      cases otherEnds
      rw [← width, otherWidth]

theorem FragmentOf.exists_wire {fragment : Fragment} (made : FragmentOf context component fragment)
    {wire : String × Nat} (listed : wire ∈ fragment.wires) :
    ∃ label port, context.names.instance? context.circuit.name component.id = some label ∧
      wire.1 = wireOf label port ∧ CarriesWire context component port wire.2 := by
  cases made with
  | leaf label binding mappings ordinary labelled bound mapped =>
    obtain ⟨mapping, member, own⟩ := mem_filterMap.mp listed
    obtain ⟨variant, binds⟩ := Component.exists_of_bind bound
    obtain ⟨port, connected, form⟩ := exists_of_forall₂ mapped member
    obtain ⟨spec, present, binding⟩ := exists_of_forall₂ binds.ports connected
    have same := binding.same
    cases form with
    | ordinary mapping plain connects =>
      obtain ⟨rfl, _⟩ := PortNeed.wire_of_connect connects own
      refine ⟨label, spec.name, labelled, ?_, ?_⟩
      · rw [PortNeed.wire_eq, needOf, same]
      · refine .leaf variant spec ordinary binds.variant_eq present rfl ?_
        rw [binding.width, ← binding.length (same ▸ plain)]
    | loose => cases own
    | tree => cases own
    | gated net point clock =>
      cases own
      obtain ⟨name, width⟩ := Variant.portWidth?_of_clock present (same ▸ clock)
        (variant.values component.width)
      refine ⟨label, clockBusPort, labelled, rfl, ?_⟩
      exact .leaf variant spec ordinary binds.variant_eq present name (name ▸ width)
  | inner label module circuit interface mapped isInner labelled found planned declared pins =>
    obtain ⟨entry, member, own⟩ := mem_filterMap.mp listed
    obtain ⟨pin, present, mapping⟩ := exists_of_forall₂ pins member
    obtain ⟨points, feeds, length, connects⟩ := mapping.connected
    obtain ⟨rfl, many⟩ := PortNeed.wire_of_connect connects own
    obtain ⟨port, named⟩ := (Circuit.ports_eq_ok declared).2 pin present
    refine ⟨label, port, labelled, ?_, ?_⟩
    · rw [PortNeed.wire_eq, pinNeed, named, Option.getD_some]
    · obtain ⟨e, known, rfl⟩ | rfl := feeds
      · exact .inner circuit pin e isInner found present named known rfl
      · have few := (runs_unconnected pin.pinWidth).1
        omega

/-- The ports that the module of a circuit declares. -/
abbrev entriesOf (context : WiringContext) (circuit : Circuit) : List PortEntry :=
  circuit.portEntries context.design context.period context.names context.layouts

theorem declared_eq_of_ports (made : context.circuit.ports context.design context.period
      context.names context.layouts = .ok ports) (fragments : List Fragment) :
    context.declared ports fragments = (({} : Interface).addPorts
      (context.entriesOf context.circuit)).addWires (context.circuit.wireEntries fragments) := by
  rw [declared, ← (Circuit.ports_eq_ok made).1]

structure Wired (context : WiringContext) (ports : Interface) (fragments : List Fragment) :
    Prop where
  indexed : context.design.Indexed
  linked : context.design.Linked
  member : context.circuit ∈ context.design.circuits
  apart : context.names.Apart context.design
  ports : context.circuit.ports context.design context.period context.names context.layouts =
    .ok ports
  instances : Yields context.instances fragments

namespace Wired

variable {wire : String × Nat} {net : Net} {tree : Int}

variable (wired : context.Wired ports fragments)
include wired

theorem declared_eq : context.declared ports fragments = (({} : Interface).addPorts
    (context.entriesOf context.circuit)).addWires (context.circuit.wireEntries fragments) :=
  declared_eq_of_ports wired.ports fragments

omit wired in
theorem portless_empty : ({} : Interface).Portless := by
  intro direction
  cases direction <;> rfl

theorem not_mem_portNames {name : String} (inner : looksInner name = true) :
    name ∉ (({} : Interface).addPorts (context.entriesOf context.circuit)).portNames := by
  intro listed
  obtain ⟨entry, present, rfl⟩ :=
    mem_map.mp ((Interface.mem_portNames_addPorts portless_empty).mp listed)
  rw [Circuit.looksInner_entry wired.apart (Circuit.ports_eq_ok wired.ports).2 present] at inner
  cases inner

theorem exists_component {fragment : Fragment} (listed : fragment ∈ fragments) :
    ∃ component ∈ context.circuit.components, FragmentOf context component fragment := by
  obtain ⟨component, present, made⟩ :=
    exists_of_forall₂ (forall₂_instances wired.instances) listed
  exact ⟨component, (mem_filter.mp present).1, made⟩

theorem exists_wire (listed : wire ∈ fragments.flatMap (·.wires)) :
    ∃ component ∈ context.circuit.components, ∃ number port,
      context.names.instance? context.circuit.name component.id =
        some (Naming.candidate (Names.labelBase component) number) ∧
      wire.1 = wireOf (Naming.candidate (Names.labelBase component) number) port ∧
      CarriesWire context component port wire.2 := by
  obtain ⟨fragment, present, own⟩ := mem_flatMap.mp listed
  obtain ⟨component, home, made⟩ := wired.exists_component present
  obtain ⟨label, port, labelled, name, carries⟩ := made.exists_wire own
  obtain ⟨number, rfl⟩ := wired.apart.exists_label wired.indexed wired.member home labelled
  exact ⟨component, home, number, port, labelled, name, carries⟩

theorem scope_net (present : net ∈ context.circuit.nets) :
    (context.declared ports fragments).scope net.signal =
      some (net.signal, (net.width.toNat : Int)) := by
  rw [wired.declared_eq]
  apply Interface.scope_of_wire
  · exact wired.not_mem_portNames net.looksInner_signal
  · exact Interface.wires_addPorts ..
  · exact mem_map.mpr ⟨_, mem_append_left _ (mem_map.mpr ⟨net, present, rfl⟩), rfl⟩
  · intro width listed
    obtain own | wire := mem_append.mp listed
    · obtain ⟨other, member, same⟩ := mem_map.mp own
      have ids := Net.id_of_signal_eq (congrArg Prod.fst same)
      obtain rfl := inj_on_of_nodup_map
        (wired.indexed.circuits _ wired.member).netIds member present ids
      exact (congrArg Prod.snd same).symm
    · obtain ⟨wire, member, same⟩ := mem_map.mp wire
      obtain ⟨component, _, number, port, _, name, _⟩ := wired.exists_wire member
      refine absurd ?_ (net.lower_signal_ne component number port)
      rw [← name, congrArg Prod.fst same]

theorem scope_wire (listed : wire ∈ fragments.flatMap (·.wires)) :
    (context.declared ports fragments).scope wire.1 = some (wire.1, (wire.2 : Int)) := by
  obtain ⟨component, home, number, port, labelled, name, carries⟩ := wired.exists_wire listed
  rw [wired.declared_eq]
  apply Interface.scope_of_wire
  · rw [name]
    exact wired.not_mem_portNames (looksInner_wireOf ..)
  · exact Interface.wires_addPorts ..
  · exact mem_map.mpr ⟨_, mem_append_right _ (mem_map.mpr ⟨wire, listed, rfl⟩), rfl⟩
  · intro width again
    obtain own | other := mem_append.mp again
    · obtain ⟨net, member, same⟩ := mem_map.mp own
      refine absurd ?_ (net.lower_signal_ne component number port)
      rw [← name, ← (Prod.mk.inj same).1]
    · obtain ⟨other, member, same⟩ := mem_map.mp other
      obtain ⟨owner, present, otherNumber, otherPort, otherLabelled, otherName, otherCarries⟩ :=
        wired.exists_wire member
      have names : wireOf (Naming.candidate (Names.labelBase owner) otherNumber) otherPort =
          wireOf (Naming.candidate (Names.labelBase component) number) port := by
        rw [← otherName, ← name]
        exact (Prod.mk.inj same).1
      obtain rfl := inj_on_of_nodup_map
        (wired.indexed.circuits _ wired.member).componentIds present home
        (id_of_lower_wireOf (congrArg lower names))
      rw [labelled] at otherLabelled
      rw [Option.some.inj otherLabelled] at names
      obtain rfl : otherPort = port := (String.append_right_inj _).mp names
      rw [← (Prod.mk.inj same).2, otherCarries.width_eq wired.apart carries]

theorem scope_fixed (entry : PortEntry) {count : Nat} (width : entry.width = .bits count)
    (listed : entry ∈ context.circuit.fixedEntries context.design context.period context.layouts) :
    (context.declared ports fragments).scope entry.name = some (entry.name, (count : Int)) := by
  rw [wired.declared_eq]
  refine Interface.scope_of_port portless_empty (mem_append_left _ listed) ?_ _
  intro other present same
  obtain fixed | own := mem_append.mp present
  · have entries := inj_on_of_nodup_map (Circuit.nodup_fixedEntries wired.linked _ _ _)
      fixed listed (congrArg lower same)
    rw [entries, width]
  · obtain ⟨pin, member, rfl⟩ := mem_map.mp own
    obtain ⟨port, named⟩ := (Circuit.ports_eq_ok wired.ports).2 pin member
    refine absurd ?_ (wired.apart.ne_fixed (Names.Apart.lower_port_mem_inside named)
      (Circuit.name_mem_fixedNames listed))
    rw [← same, Circuit.pinEntry, named, Option.getD_some]

theorem mem_treeIds (present : net ∈ context.circuit.nets)
    (belongs : net.clockTree = some tree) : tree ∈ context.design.treeIds :=
  wired.linked.mem_treeIds wired.member present belongs

theorem scope_tree (listed : tree ∈ context.design.treeIds) :
    (context.declared ports fragments).scope (clockTreePort tree) =
      some (clockTreePort tree, (Clock.busWidth : Int)) := by
  refine wired.scope_fixed ⟨.input, clockTreePort tree, .bits Clock.busWidth⟩ rfl ?_
  exact mem_append_left _ (mem_append_left _ (mem_map.mpr ⟨tree, listed, rfl⟩))

end Wired

end WiringContext

end Schematic
