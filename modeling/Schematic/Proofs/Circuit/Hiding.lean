import Schematic.Proofs.Circuit.Clashes
import Schematic.Proofs.Netlist.Hierarchy

/-! # Names that component declarations hide -/

open List

namespace Schematic

open Hdl Text Reporting

/-- Some component declaration of an architecture has the name of a port, of a signal or of a label
there. -/
def Hides (declarations : List (String × Interface)) (interface : Interface)
    (sections : List BodySection) : Prop :=
  ∃ declaration ∈ declarations, ∃ name ∈ interface.portNames ++ (interface.wireNames ++
    (BodySection.uses sections).map (·.label)), lower declaration.1 = lower name

instance (declarations : List (String × Interface)) (interface : Interface)
    (sections : List BodySection) : Decidable (Hides declarations interface sections) :=
  inferInstanceAs (Decidable (∃ _ ∈ _, ∃ _ ∈ _, _))

theorem Fragment.mem_declarations {fragments : List Fragment} {target : String} :
    target ∈ (declarations fragments).map (·.1) ↔ target ∈ fragments.map (·.use.target) := by
  have extended : ∀ declared : List (String × Interface),
      target ∈ (fragments.foldl (fun declared fragment =>
        if declared.any (·.1 == fragment.use.target) then declared
        else declared ++ [(fragment.use.target, fragment.interface)]) declared).map (·.1) ↔
      target ∈ declared.map (·.1) ∨ target ∈ fragments.map (·.use.target) := by
    induction fragments with
    | nil => simp
    | cons fragment fragments ih =>
      intro declared
      rw [foldl_cons, ih, map_cons, mem_cons, ← or_assoc]
      refine or_congr_left ?_
      split
      case isTrue known =>
        obtain ⟨earlier, listed, same⟩ := any_eq_true.mp known
        rw [beq_iff_eq] at same
        refine (or_iff_left_of_imp ?_).symm
        rintro rfl
        exact mem_map.mpr ⟨earlier, listed, same⟩
      case isFalse => rw [map_append, mem_append, map_singleton, mem_singleton]
  exact (extended []).trans (or_iff_right not_mem_nil)

namespace WiringContext

variable {context : WiringContext} {ports : Interface} {sections : List BodySection}
  {fragments : List Fragment}

theorem exists_fragment (made : Yields context.instances fragments) {component : Component}
    (present : component ∈ context.circuit.components) (use : component.isInstance = true) :
    ∃ fragment ∈ fragments, FragmentOf context component fragment :=
  exists_of_forall₂ (forall₂_instances made).flip (mem_filter.mpr ⟨present, use⟩)

theorem mem_targets_iff (made : Yields context.instances fragments) {target : String} :
    target ∈ fragments.map (·.use.target) ↔ context.IsTarget target := by
  rw [mem_map]
  constructor
  · rintro ⟨fragment, listed, rfl⟩
    exact isTarget_of_mem_instances made listed
  · rintro (⟨component, present, ordinary, named⟩ | ⟨inner, inside, named⟩)
    · obtain ⟨fragment, listed, wired⟩ :=
        exists_fragment made present (by simp [Component.isInstance, ordinary])
      refine ⟨fragment, listed, ?_⟩
      rcases wired.target_eq with ⟨_, planned⟩ | ⟨isInner, _⟩
      · exact Option.some.inj (planned.symm.trans named)
      · rw [isInner] at ordinary
        cases ordinary
    · obtain ⟨component, present, found⟩ := mem_filterMap.mp inside
      obtain ⟨present, isInner⟩ := Design.mem_componentsOf.mp present
      obtain ⟨fragment, listed, wired⟩ :=
        exists_fragment made present (by simp [Component.isInstance, isInner])
      refine ⟨fragment, listed, ?_⟩
      rcases wired.target_eq with ⟨ordinary, _⟩ | ⟨_, other, again, planned⟩
      · rw [isInner] at ordinary
        cases ordinary
      · obtain rfl := Option.some.inj (again.symm.trans found)
        exact Option.some.inj (planned.symm.trans named)

/-- The names that the architecture of a circuit declares besides components. -/
inductive InUse (context : WiringContext) (fragments : List Fragment) : String → Prop
  | fixed {entry : PortEntry} :
      entry ∈ context.circuit.fixedEntries context.design context.period context.layouts →
      InUse context fragments entry.name
  | pin {pin : Component} {port : String} : pin ∈ context.circuit.componentsOf .pin →
      context.names.port? context.circuit.name pin.pathName = some port →
      InUse context fragments port
  | net {net : Net} : net ∈ context.circuit.nets → InUse context fragments net.signal
  | wire {wire : String × Nat} : wire ∈ fragments.flatMap (·.wires) →
      InUse context fragments wire.1
  | label {component : Component} {label : String} : component ∈ context.circuit.components →
      component.isInstance = true →
      context.names.instance? context.circuit.name component.id = some label →
      InUse context fragments label

section

variable (declared :
  context.circuit.ports context.design context.period context.names context.layouts = .ok ports)
include declared

theorem inUse_iff (made : Yields context.instances fragments) {name : String} :
    name ∈ (context.declared ports fragments).portNames ++
        ((context.declared ports fragments).wireNames ++ fragments.map (·.use.label)) ↔
      context.InUse fragments name := by
  rw [declared_eq_of_ports declared, mem_append, mem_append,
    Interface.mem_wireNames (Interface.wires_addPorts ..)]
  have ports : name ∈ (({} : Interface).addPorts (context.entriesOf context.circuit)).portNames
      ↔ _ :=
    Interface.mem_portNames_addPorts Wired.portless_empty
  constructor
  · rintro (port | wire | label)
    · obtain ⟨entry, listed, rfl⟩ := mem_map.mp (ports.mp port)
      rcases mem_append.mp listed with fixed | own
      · exact .fixed fixed
      · obtain ⟨pin, present, rfl⟩ := mem_map.mp own
        obtain ⟨port, named⟩ := (Circuit.ports_eq_ok declared).2 pin present
        rw [Circuit.pinEntry, named]
        exact .pin present named
    · obtain ⟨wire, listed, rfl⟩ := mem_map.mp wire
      rcases mem_append.mp listed with net | own
      · obtain ⟨net, present, rfl⟩ := mem_map.mp net
        exact .net present
      · obtain ⟨wire, present, rfl⟩ := mem_map.mp own
        exact .wire present
    · obtain ⟨fragment, listed, rfl⟩ := mem_map.mp label
      obtain ⟨component, present, wired⟩ := exists_of_forall₂ (forall₂_instances made) listed
      obtain ⟨present, use⟩ := mem_filter.mp present
      exact .label present use wired.labelled
  · intro inUse
    cases inUse with
    | fixed listed =>
      exact .inl (ports.mpr (mem_map_of_mem (mem_append_left _ listed)))
    | @pin pin port present named =>
      refine .inl (ports.mpr (mem_map.mpr ⟨context.circuit.pinEntry context.names pin,
        mem_append_right _ (mem_map_of_mem present), ?_⟩))
      rw [Circuit.pinEntry, named, Option.getD_some]
    | net present =>
      exact .inr (.inl (mem_map.mpr
        ⟨_, mem_append_left _ (mem_map_of_mem present), rfl⟩))
    | wire present =>
      exact .inr (.inl (mem_map.mpr
        ⟨_, mem_append_right _ (mem_map_of_mem present), rfl⟩))
    | label present use named =>
      obtain ⟨fragment, listed, wired⟩ := exists_fragment made present use
      refine .inr (.inr (mem_map.mpr ⟨fragment, listed, ?_⟩))
      exact Option.some.inj (wired.labelled.symm.trans named)

theorem hides_iff (made : Yields context.sections (sections, fragments)) :
    Hides (Fragment.declarations fragments) (context.declared ports fragments) sections ↔
      ∃ target name, context.IsTarget target ∧ context.InUse fragments name ∧
        lower target = lower name := by
  obtain ⟨clocks, divisors, pins, roots, _, _, _, _, instances, rfl⟩ := exists_parts made
  rw [Hides, uses_bodySections, map_map]
  constructor
  · rintro ⟨declaration, listed, name, inUse, same⟩
    have used := Fragment.mem_declarations.mp (mem_map_of_mem listed)
    exact ⟨declaration.1, name, (mem_targets_iff instances).mp used,
      (inUse_iff declared instances).mp inUse, same⟩
  · rintro ⟨target, name, isTarget, inUse, same⟩
    have used := Fragment.mem_declarations.mpr ((mem_targets_iff instances).mpr isTarget)
    obtain ⟨declaration, listed, rfl⟩ := mem_map.mp used
    exact ⟨declaration, listed, name, (inUse_iff declared instances).mpr inUse, same⟩

end

end WiringContext

end Schematic
