import Mathlib.Data.List.Pairwise
import Schematic.Proofs.Circuit.Declared

/-! # No clashes inside a circuit -/

open List

namespace Schematic

open Hdl Text Reporting

variable {component : Component}

theorem pairwise_of_forall₂ {α β : Type} {related : α → β → Prop} {differ : α → α → Prop}
    {tell : β → β → Prop} {items : List α} {results : List β}
    (each : List.Forall₂ related items results) (apart : items.Pairwise differ)
    (carry : ∀ first ∈ items, ∀ second ∈ items, differ first second → ∀ result other,
      related first result → related second other → tell result other) : results.Pairwise tell := by
  induction each with
  | nil => exact .nil
  | @cons item result items results here rest ih =>
    obtain ⟨ahead, later⟩ := pairwise_cons.mp apart
    refine pairwise_cons.mpr ⟨?_, ih later ?_⟩
    · intro other listed
      obtain ⟨second, present, there⟩ := exists_of_forall₂ rest listed
      exact carry item (mem_cons_self ..) second (mem_cons_of_mem _ present)
        (ahead second present) result other here there
    · intro first firstListed second secondListed
      exact carry first (mem_cons_of_mem _ firstListed) second
        (mem_cons_of_mem _ secondListed)

namespace Circuit

variable {design : Design} {period : Int} {names : Names} {layouts : Layouts} {circuit : Circuit}

def pinPorts (names : Names) (circuit : Circuit) : List String :=
  (circuit.componentsOf .pin).map fun pin => (names.port? circuit.name pin.pathName).getD ""

theorem nodup_append_pinPorts (apart : names.Apart design) (pins : circuit.PinsDiffer)
    (planned : ∀ pin ∈ circuit.componentsOf .pin, ∃ port,
      names.port? circuit.name pin.pathName = some port)
    {fixed : List String} (distinct : (fixed.map lower).Nodup)
    (within : fixed ⊆ fixedNames design) :
    ((fixed ++ circuit.pinPorts names).map lower).Nodup := by
  rw [pinPorts, map_append, nodup_append, map_map]
  refine ⟨distinct, ?_, ?_⟩
  · refine List.Nodup.map_on ?_ (List.Nodup.of_map _ pins)
    intro first firstListed second secondListed same
    obtain ⟨firstPort, firstNamed⟩ := planned first firstListed
    obtain ⟨secondPort, secondNamed⟩ := planned second secondListed
    simp only [Function.comp_apply, firstNamed, secondNamed, Option.getD_some] at same
    exact inj_on_of_nodup_map pins firstListed secondListed
      (apart.port_inj firstNamed secondNamed same)
  · rintro _ listed _ own rfl
    obtain ⟨name, present, rfl⟩ := mem_map.mp listed
    obtain ⟨pin, member, same⟩ := mem_map.mp own
    obtain ⟨port, named⟩ := planned pin member
    simp only [Function.comp_apply, named, Option.getD_some] at same
    exact apart.ne_fixed (Names.Apart.lower_port_mem_inside named) (within present) same

theorem nodup_portEntries (linked : design.Linked) (apart : names.Apart design)
    (pins : circuit.PinsDiffer) (planned : ∀ pin ∈ circuit.componentsOf .pin, ∃ port,
      names.port? circuit.name pin.pathName = some port) :
    ((circuit.portEntries design period names layouts).map fun entry =>
      lower entry.name).Nodup := by
  have parts : (circuit.portEntries design period names layouts).map (·.name) =
      (circuit.fixedEntries design period layouts).map (·.name) ++ circuit.pinPorts names := by
    rw [portEntries, map_append, map_map]
    rfl
  have distinct :
      (((circuit.fixedEntries design period layouts).map (·.name)).map lower).Nodup := by
    rw [map_map]
    exact nodup_fixedEntries linked ..
  have within : (circuit.fixedEntries design period layouts).map (·.name) ⊆ fixedNames design := by
    intro name listed
    obtain ⟨entry, present, rfl⟩ := mem_map.mp listed
    exact name_mem_fixedNames present
  have all := nodup_append_pinPorts apart pins planned distinct within
  rw [← parts, map_map] at all
  exact all

end Circuit

theorem Component.kind_of_external {ports : Except PortListError (List ExternalPort)}
    (known : component.variant? = some (.external ports)) : component.kind = .hdl := by
  simp only [variant?] at known
  split at known
  case h_19 kind => exact kind
  all_goals cases known

theorem Component.isExternal_of_kind {variant : Variant}
    (known : component.variant? = some variant) (written : component.kind ≠ .hdl) :
    variant.isExternal = false := by
  cases variant with
  | external ports => exact absurd (kind_of_external known) written
  | _ => rfl

namespace WiringContext

variable {component : Component} {label : String} {context : WiringContext} {ports : Interface}
  {fragments : List Fragment}

/-- Two wires of one component whose module is written elsewhere. -/
def SharesExternal (context : WiringContext) (first second : String) : Prop :=
  ∃ component ∈ context.circuit.components, component.kind = .hdl ∧ ∃ label firstPort secondPort,
    context.names.instance? context.circuit.name component.id = some label ∧
      first = wireOf label firstPort ∧ second = wireOf label secondPort

/-- Two names that differ in more than case, or wires of one module that is written elsewhere. -/
def Tells (context : WiringContext) (first second : String) : Prop :=
  lower first ≠ lower second ∨ context.SharesExternal first second

instance : Std.Symm context.Tells where
  symm first second tell := by
    obtain differ |
        ⟨component, home, external, label, firstPort, secondPort, labelled, one, other⟩ :=
      tell
    · exact .inl differ.symm
    · exact .inr ⟨component, home, external, label, secondPort, firstPort, labelled, other, one⟩

/-- The identifiers that the module of a circuit declares, one for each declaration: ports, nets,
wires of instances, and labels. -/
def identifiers (context : WiringContext) (fragments : List Fragment) : List String :=
  (context.circuit.portEntries context.design context.period context.names context.layouts).map
      (·.name) ++
    (context.circuit.nets.map (·.signal) ++
      ((fragments.flatMap (·.wires)).map (·.1) ++ fragments.map (·.use.label)))

theorem wire_of_leafMapping {port : PortBinding}
    {mapping : PortMapping} (mapped : LeafMapping context component label port mapping)
    (clock : port.spec.clock = true → port.spec.name = clockBusPort) {wire : String × Nat}
    (own : mapping.wire = some wire) : wire.1 = wireOf label port.spec.name := by
  cases mapped with
  | ordinary mapping plain connects =>
    obtain ⟨rfl, _⟩ := PortNeed.wire_of_connect connects own
    rfl
  | loose => cases own
  | tree => cases own
  | gated net point clocked =>
    cases own
    rw [clock clocked]
    rfl

theorem pairwise_leafWires {binding : Binding}
    {mappings : List PortMapping} {variant : Variant} (binds : component.Binds binding variant)
    (written : component.kind ≠ .hdl)
    (mapped : List.Forall₂ (LeafMapping context component label) binding.ports mappings) :
    (mappings.filterMap (·.wire)).Pairwise fun first second => lower first.1 ≠ lower second.1 := by
  have specs : variant.specs.Pairwise fun first second => lower first.name ≠ lower second.name := by
    have distinct :=
      Variant.nodup_openEntries (component.isExternal_of_kind binds.variant_eq written)
    have names : variant.specs.map (fun spec => lower spec.name) =
        variant.openEntries.map fun entry => lower entry.name := by
      have same := congrArg (List.map lower) variant.specs_names
      rw [map_map, map_map] at same
      exact same
    rw [← names, nodup_iff_pairwise_ne, pairwise_map] at distinct
    exact distinct
  have ports : binding.ports.Pairwise fun first second =>
      lower first.spec.name ≠ lower second.spec.name := by
    refine pairwise_of_forall₂ binds.ports specs ?_
    intro first _ second _ differ port other made otherMade
    rwa [made.same, otherMade.same]
  have clock : ∀ port ∈ binding.ports, port.spec.clock = true → port.spec.name = clockBusPort := by
    intro port listed clocked
    obtain ⟨spec, present, made⟩ := exists_of_forall₂ binds.ports listed
    rw [made.same] at clocked ⊢
    exact (Variant.portWidth?_of_clock present clocked []).1
  rw [pairwise_filterMap]
  refine pairwise_of_forall₂ mapped ports ?_
  intro first firstListed second secondListed differ mapping other made otherMade wire own late
    otherOwn same
  rw [wire_of_leafMapping made (clock first firstListed) own,
    wire_of_leafMapping otherMade (clock second secondListed) otherOwn] at same
  exact differ (lower_port_of_wireOf same)

theorem pairwise_innerWires (apart : context.names.Apart context.design)
    {circuit : Circuit} (pins : circuit.PinsDiffer)
    (planned : ∀ pin ∈ circuit.componentsOf .pin, ∃ port,
      context.names.port? circuit.name pin.pathName = some port)
    {mapped : List (String × PortMapping)}
    (each : List.Forall₂ (PinMapping context component label circuit)
      (circuit.componentsOf .pin) mapped) :
    (mapped.filterMap (·.2.wire)).Pairwise fun first second => lower first.1 ≠ lower second.1 := by
  have paths := pins
  rw [Circuit.PinsDiffer, nodup_iff_pairwise_ne, pairwise_map] at paths
  rw [pairwise_filterMap]
  refine pairwise_of_forall₂ each paths ?_
  intro first firstListed second secondListed differ mapping other made otherMade wire own late
    otherOwn same
  obtain ⟨firstPort, firstNamed⟩ := planned first firstListed
  obtain ⟨secondPort, secondNamed⟩ := planned second secondListed
  obtain ⟨points, _, _, connects⟩ := made.connected
  obtain ⟨otherPoints, _, _, otherConnects⟩ := otherMade.connected
  obtain ⟨rfl, _⟩ := PortNeed.wire_of_connect connects own
  obtain ⟨rfl, _⟩ := PortNeed.wire_of_connect otherConnects otherOwn
  have ports := lower_port_of_wireOf same
  simp only [pinNeed, firstNamed, secondNamed, Option.getD_some] at ports
  exact differ (apart.port_inj firstNamed secondNamed ports)

theorem FragmentOf.labelled {fragment : Fragment} (made : FragmentOf context component fragment) :
    context.names.instance? context.circuit.name component.id = some fragment.use.label := by
  cases made with
  | leaf label binding mappings _ labelled => exact labelled
  | inner label module circuit interface mapped _ labelled => exact labelled

namespace Wired

variable (wired : context.Wired ports fragments)
variable {component : Component} {fragment : Fragment} {label : String}

include wired

theorem pairwise_ids : (context.circuit.components.filter (·.isInstance)).Pairwise
    fun first second => first.id ≠ second.id := by
  have nodup := (wired.indexed.circuits _ wired.member).componentIds
  rw [nodup_iff_pairwise_ne, pairwise_map] at nodup
  exact nodup.sublist filter_sublist

theorem pairwise_signals : (context.circuit.nets.map (·.signal)).Pairwise fun first second =>
      lower first ≠ lower second := by
  have ids := (wired.indexed.circuits _ wired.member).netIds
  rw [nodup_iff_pairwise_ne, pairwise_map] at ids
  rw [pairwise_map]
  exact ids.imp fun differ same => differ (Net.id_of_lower_signal same)

theorem pairwise_labels :
    (fragments.map (·.use.label)).Pairwise fun first second => lower first ≠ lower second := by
  rw [pairwise_map]
  refine pairwise_of_forall₂ (forall₂_instances wired.instances) wired.pairwise_ids ?_
  intro first _ second _ differ result other made otherMade same
  exact differ (wired.apart.label_inj made.labelled otherMade.labelled same)

theorem exists_candidate (home : component ∈ context.circuit.components)
    (made : FragmentOf context component fragment) {wire : String × Nat}
    (own : wire ∈ fragment.wires) : ∃ number port,
      context.names.instance? context.circuit.name component.id =
        some (Naming.candidate (Names.labelBase component) number) ∧
      wire.1 = wireOf (Naming.candidate (Names.labelBase component) number) port := by
  obtain ⟨label, port, labelled, name, _⟩ := made.exists_wire own
  obtain ⟨number, rfl⟩ := wired.apart.exists_label wired.indexed wired.member home labelled
  exact ⟨number, port, labelled, name⟩

section

variable (differ : ∀ circuit ∈ context.design.circuits, ∀ module,
    context.names.circuit? circuit.name = some module → circuit.PinsDiffer)
include differ

theorem pairwise_wires_of_fragment
    (home : component ∈ context.circuit.components) (made : FragmentOf context component fragment) :
    fragment.wires.Pairwise fun first second => context.Tells first.1 second.1 := by
  by_cases external : component.kind = .hdl
  · refine pairwise_of_forall_mem_list fun first own second other => .inr ?_
    obtain ⟨number, port, labelled, name⟩ := wired.exists_candidate home made own
    obtain ⟨otherNumber, otherPort, again, otherName⟩ := wired.exists_candidate home made other
    rw [labelled] at again
    rw [← Option.some.inj again] at otherName
    exact ⟨component, home, external, _, port, otherPort, labelled, name, otherName⟩
  · cases made with
    | leaf label binding mappings _ _ bound mapped =>
      obtain ⟨variant, binds⟩ := Component.exists_of_bind bound
      exact (pairwise_leafWires binds external mapped).imp .inl
    | inner label module circuit interface mapped _ _ found planned declared each =>
      have present := (Design.circuit?_eq_some found).1
      exact (pairwise_innerWires wired.apart (differ circuit present module planned)
        (Circuit.ports_eq_ok declared).2 each).imp .inl

theorem pairwise_wires : (fragments.flatMap (·.wires)).Pairwise fun first second =>
      context.Tells first.1 second.1 := by
  have fragmentsOf := forall₂_instances wired.instances
  rw [pairwise_flatMap]
  constructor
  · intro fragment listed
    obtain ⟨component, home, made⟩ := wired.exists_component listed
    exact wired.pairwise_wires_of_fragment differ home made
  · refine pairwise_of_forall₂ fragmentsOf wired.pairwise_ids ?_
    intro first firstListed second secondListed ids fragment other made otherMade wire own late
      otherOwn
    refine .inl ?_
    have home := (mem_filter.mp firstListed).1
    have otherHome := (mem_filter.mp secondListed).1
    obtain ⟨number, port, _, name⟩ := wired.exists_candidate home made own
    obtain ⟨otherNumber, otherPort, _, otherName⟩ :=
      wired.exists_candidate otherHome otherMade otherOwn
    rw [name, otherName]
    exact fun same => ids (id_of_lower_wireOf same)

end

theorem wire_inner {name : String} (listed : name ∈ (fragments.flatMap (·.wires)).map (·.1)) :
    looksInner name = true ∧ ∀ net : Net, lower net.signal ≠ lower name := by
  obtain ⟨wire, own, rfl⟩ := mem_map.mp listed
  obtain ⟨component, _, number, port, _, name, _⟩ := wired.exists_wire own
  rw [name]
  exact ⟨looksInner_wireOf .., fun net => net.lower_signal_ne component number port⟩

theorem exists_label (listed : label ∈ fragments.map (·.use.label)) :
    ∃ component ∈ context.circuit.components,
      context.names.instance? context.circuit.name component.id = some label := by
  obtain ⟨fragment, present, rfl⟩ := mem_map.mp listed
  obtain ⟨component, home, made⟩ := wired.exists_component present
  exact ⟨component, home, made.labelled⟩

theorem looksInner_label (listed : label ∈ fragments.map (·.use.label)) :
    looksInner label = false := by
  obtain ⟨component, home, labelled⟩ := wired.exists_label listed
  obtain ⟨number, form⟩ := wired.apart.exists_label wired.indexed wired.member home labelled
  rw [form]
  exact Names.looksInner_label ..

theorem port_ne_label {entry : PortEntry} (member : entry ∈ context.entriesOf context.circuit)
    (listed : label ∈ fragments.map (·.use.label)) : lower entry.name ≠ lower label := by
  obtain ⟨component, _, labelled⟩ := wired.exists_label listed
  obtain fixed | own := mem_append.mp member
  · exact (wired.apart.ne_fixed (Names.Apart.lower_label_mem_inside labelled)
      (Circuit.name_mem_fixedNames fixed)).symm
  · obtain ⟨pin, pinListed, rfl⟩ := mem_map.mp own
    obtain ⟨port, named⟩ := (Circuit.ports_eq_ok wired.ports).2 pin pinListed
    rw [Circuit.pinEntry, named, Option.getD_some]
    exact wired.apart.port_ne_label named labelled

theorem nodup_entries (pins : context.circuit.PinsDiffer) :
    ((context.entriesOf context.circuit).map fun entry => lower entry.name).Nodup :=
  Circuit.nodup_portEntries wired.linked wired.apart pins (Circuit.ports_eq_ok wired.ports).2

theorem pairwise_identifiers (differ : ∀ circuit ∈ context.design.circuits, ∀ module,
      context.names.circuit? circuit.name = some module → circuit.PinsDiffer)
    (pins : context.circuit.PinsDiffer) :
    (context.identifiers fragments).Pairwise context.Tells := by
  have outer : ∀ {name : String}, name ∈ (context.entriesOf context.circuit).map (·.name) →
      looksInner name = false := by
    intro name listed
    obtain ⟨entry, member, rfl⟩ := mem_map.mp listed
    exact Circuit.looksInner_entry wired.apart (Circuit.ports_eq_ok wired.ports).2 member
  have entries : ((context.entriesOf context.circuit).map (·.name)).Pairwise context.Tells := by
    have nodup := wired.nodup_entries pins
    rw [nodup_iff_pairwise_ne, pairwise_map] at nodup
    rw [pairwise_map]
    exact nodup.imp .inl
  have wires := wired.pairwise_wires differ
  refine pairwise_append.mpr ⟨entries, pairwise_append.mpr
    ⟨wired.pairwise_signals.imp .inl, pairwise_append.mpr
      ⟨pairwise_map.mpr wires, wired.pairwise_labels.imp .inl, ?_⟩, ?_⟩, ?_⟩
  · intro wire own label listed
    exact .inl (ne_of_looksInner (wired.wire_inner own).1 (wired.looksInner_label listed))
  · intro signal listed name other
    obtain ⟨net, _, rfl⟩ := mem_map.mp listed
    obtain wire | label := mem_append.mp other
    · exact .inl ((wired.wire_inner wire).2 net)
    · exact .inl (ne_of_looksInner net.looksInner_signal (wired.looksInner_label label))
  · intro port listed name other
    refine .inl ?_
    obtain signal | other := mem_append.mp other
    · obtain ⟨net, _, rfl⟩ := mem_map.mp signal
      exact (ne_of_looksInner net.looksInner_signal (outer listed)).symm
    · obtain wire | label := mem_append.mp other
      · exact (ne_of_looksInner (wired.wire_inner wire).1 (outer listed)).symm
      · obtain ⟨entry, member, rfl⟩ := mem_map.mp listed
        exact wired.port_ne_label member label

theorem pairwise_declared (pins : context.circuit.PinsDiffer)
    (told : (context.identifiers fragments).Pairwise context.Tells) :
    ((context.declared ports fragments).portNames ++
      ((context.declared ports fragments).wireNames ++
        fragments.map (·.use.label))).Pairwise context.Tells := by
  have reordered : (context.declared ports fragments).portNames.Perm
      ((context.entriesOf context.circuit).map (·.name)) := by
    rw [wired.declared_eq]
    refine Interface.perm_portNames portless_empty (List.Nodup.of_map lower ?_)
    rw [map_map]
    exact wired.nodup_entries pins
  have blank : (({} : Interface).addPorts (context.entriesOf context.circuit)).wires = [] :=
    Interface.wires_addPorts ..
  have wires : ∀ name ∈ (context.declared ports fragments).wireNames,
      name ∈ context.circuit.nets.map (·.signal) ++ (fragments.flatMap (·.wires)).map (·.1) := by
    intro name listed
    rw [wired.declared_eq, Interface.mem_wireNames blank, Circuit.wireEntries, map_append,
      map_map, map_map] at listed
    exact listed
  have distinct : (context.declared ports fragments).wireNames.Nodup := by
    rw [wired.declared_eq]
    exact Interface.nodup_wireNames blank _
  rw [identifiers, ← append_assoc (context.circuit.nets.map _)] at told
  obtain ⟨entries, rest, outer⟩ := pairwise_append.mp told
  obtain ⟨inner, labels, crossing⟩ := pairwise_append.mp rest
  refine pairwise_append.mpr ⟨(reordered.pairwise_iff (Std.Symm.symm _ _)).mpr entries,
    pairwise_append.mpr ⟨?_, labels, ?_⟩, ?_⟩
  · refine distinct.pairwise_of_forall_ne fun first firstListed second secondListed differ => ?_
    exact inner.forall (wires first firstListed)
      (wires second secondListed) differ
  · exact fun name listed => crossing name (wires name listed)
  · intro port listed name other
    refine outer port (reordered.mem_iff.mp listed) name ?_
    obtain wire | label := mem_append.mp other
    · exact mem_append_left _ (wires name wire)
    · exact mem_append_right _ label

end Wired

end WiringContext

end Schematic
