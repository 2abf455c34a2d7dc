import Schematic.Proofs.Circuit.Clashes
import Schematic.Proofs.Circuit.Generation
import Schematic.Proofs.Circuit.Hiding
import Schematic.Proofs.Circuit.Identifiers
import Schematic.Proofs.Circuit.Routing
import Schematic.Proofs.Circuit.Words

/-! # Circuits that planning gives up

A reserved name leaves a circuit without a module. At a repeated pin the planning of a circuit stops
halfway: its module and the ports before that pin are named, and nothing behind them is. -/

open List

namespace Schematic

open Hdl Text

namespace Planning

variable {design : Design} {settings : Settings} {planning : Planning} {circuit : Circuit}

/-- No circuit with a reserved name has a module. -/
structure Unreserved (registry : Naming.Registry) : Prop where
  lawful : Lawful registry
  circuits : ∀ circuit module, (Circuit.signature circuit, module) ∈ registry.claims →
    lower (Naming.sanitize circuit) ∉ reservedModules.map lower

theorem kept_unreserved : Kept settings Unreserved := by
  intro registry later name signature module asks claimed unreserved
  refine ⟨kept_lawful asks claimed unreserved.lawful, fun circuit given listed => ?_⟩
  obtain ⟨_, rfl⟩ | ⟨unknown, _, _, rfl⟩ := Naming.Registry.claim_eq_ok claimed
  · exact unreserved.circuits circuit given listed
  obtain here | earlier := mem_cons.mp listed
  · have free := Naming.Registry.not_reserved_of_claim unknown claimed
    rw [unreserved.lawful.reserved] at free
    obtain ⟨same, -⟩ := Prod.mk.inj here
    cases asks with
    | circuit own => rwa [Circuit.signature_inj same]
    | component home component variant known =>
      exact absurd same.symm (component.signature_ne_circuit known _ _ _)
  · exact unreserved.circuits circuit given earlier

/-- What a new port of a circuit tells about its pins: none is behind a repeated one. -/
theorem mem_ports_planPins {circuit module : String} {seen taken : List String} {names : Names}
    {pins : List Component} {entry : (String × String) × String}
    (listed : entry ∈ (planPins circuit module seen taken names pins).1.ports) :
    entry ∈ names.ports ∨ entry.1.1 = circuit ∧ ∀ before again behind,
      pins = before ++ again :: behind → again.pathName ∈ seen ++ before.map (·.pathName) →
      entry.1.2 ∈ before.map (·.pathName) := by
  induction pins generalizing seen taken names with
  | nil => exact .inl listed
  | cons pin pins ih =>
    simp only [planPins] at listed
    split at listed
    · exact .inl listed
    case isFalse unseen =>
      rw [contains_iff_mem] at unseen
      obtain earlier | ⟨home, inside⟩ := ih listed
      · obtain rfl | earlier := mem_cons.mp earlier
        · refine .inr ⟨rfl, fun before again behind split repeats => ?_⟩
          cases before with
          | nil =>
            obtain ⟨rfl, rfl⟩ := cons.inj split
            exact absurd (by simpa using repeats) unseen
          | cons first before =>
            obtain ⟨rfl, rfl⟩ := cons.inj split
            exact mem_cons_self ..
        · exact .inl earlier
      · refine .inr ⟨home, fun before again behind split repeats => ?_⟩
        cases before with
        | nil =>
          obtain ⟨rfl, rfl⟩ := cons.inj split
          exact absurd (by simpa using repeats) unseen
        | cons first before =>
          obtain ⟨rfl, rfl⟩ := cons.inj split
          refine mem_cons_of_mem _ (inside before again behind rfl ?_)
          simpa [or_left_comm] using repeats

/-- Ports stand before the first repeated pin of their circuit, and labels are given only where no
pin is repeated. -/
structure Halts (design : Design) (planning : Planning) : Prop where
  ports : ∀ entry ∈ planning.names.ports, ∃ circuit ∈ design.circuits,
    circuit.name = entry.1.1 ∧ ∀ before again behind,
      circuit.componentsOf .pin = before ++ again :: behind →
      again.pathName ∈ before.map (·.pathName) → entry.1.2 ∈ before.map (·.pathName)
  labels : ∀ entry ∈ planning.names.instances, ∃ circuit ∈ design.circuits,
    circuit.name = entry.1.1 ∧ circuit.PinsDiffer

theorem Halts.withPins (halts : planning.Halts design) (member : circuit ∈ design.circuits)
    (module : String) (registry : Naming.Registry) :
    (planning.withPins design circuit module registry).Halts design := by
  refine ⟨fun entry listed => ?_, ?_⟩
  · obtain earlier | ⟨home, inside⟩ := mem_ports_planPins listed
    · exact halts.ports entry earlier
    · exact ⟨circuit, member, home.symm, inside⟩
  · rw [instances_withPins]
    exact halts.labels

theorem halts_invariant : Invariant design settings (· ∈ design.circuits) (Halts design) where
  below _ _ := design.mem_of_mem_subcircuits
  report _ halts := ⟨halts.ports, halts.labels⟩
  meet _ halts := ⟨halts.ports, halts.labels⟩
  shut member _ _ _ halts := halts.withPins member ..
  opened member _ _ ended _ halts := by
    refine planComponents_preserves (fun component _ => ⟨fun _ halts => ⟨halts.ports, halts.labels⟩,
      fun taken halts => ⟨halts.ports, fun entry listed => ?_⟩,
      fun _ _ _ halts => ⟨halts.ports, halts.labels⟩⟩) (halts.withPins member ..)
    obtain rfl | earlier := mem_cons.mp listed
    · exact ⟨_, member, rfl, (nodup_of_planPins ended).1⟩
    · exact halts.labels entry earlier

end Planning

namespace Design

variable {draft : Draft} {design : Design} {settings target : Settings} {names : Names}
  {circuit : Circuit} {layouts : Layouts} {module : String} {unit : DesignUnit}

theorem halts_of_plan (planned : (design.plan settings).1 = .ok names) :
    ∃ planning : Planning, planning.names = names ∧ planning.Halts design :=
  exists_of_plan Planning.halts_invariant
    ⟨fun _ listed => absurd listed not_mem_nil, fun _ listed => absurd listed not_mem_nil⟩ planned

/-- A module that is made in spite of a repeated pin instantiates nothing, and its ports are all
named before that pin. -/
theorem exempt_of_unit (indexed : design.Indexed) (planned : (design.plan settings).1 = .ok names)
    (member : circuit ∈ design.circuits) {before behind : List Component} {again : Component}
    (pins : circuit.componentsOf .pin = before ++ again :: behind)
    (repeats : again.pathName ∈ before.map (·.pathName)) {earlier later : List Message}
    (made : Reporting.outcome ((design.wiring target names layouts circuit module).unit
      target.dialect) earlier = (.ok unit, later)) :
    (∀ component ∈ circuit.components, component.isInstance = false) ∧
      ∀ pin ∈ behind, pin.pathName ∈ before.map (·.pathName) := by
  obtain ⟨planning, rfl, halts⟩ := halts_of_plan planned
  obtain ⟨ports, sections, fragments, declared, ran, _⟩ := WiringContext.exists_sections made
  constructor
  · intro component present
    by_contra isInstance
    obtain ⟨_, _, _, _, _, _, _, _, instances, _⟩ := WiringContext.exists_parts ⟨_, _, ran⟩
    obtain ⟨fragment, _, form⟩ :=
      WiringContext.exists_fragment instances present (by simpa using isInstance)
    obtain ⟨own, home, same, differ⟩ := halts.labels _ (mem_of_lookup form.labelled)
    obtain rfl := inj_on_of_nodup_map indexed.names home member same
    rw [Circuit.PinsDiffer, pins, map_append, map_cons, nodup_middle, nodup_cons] at differ
    exact differ.1 (mem_append_left _ repeats)
  · intro pin listed
    have own : pin ∈ circuit.componentsOf .pin := by
      rw [pins]
      exact mem_append_right _ (mem_cons_of_mem _ listed)
    obtain ⟨port, named⟩ := (Circuit.ports_eq_ok declared).2 pin own
    obtain ⟨other, home, same, inside⟩ := halts.ports _ (mem_of_lookup named)
    obtain rfl := inj_on_of_nodup_map indexed.names home member same
    exact inside before again behind pins repeats

/-- **What becomes of a circuit that cannot be planned.** A circuit whose name is reserved has no
module, and no generated unit is called like it. A circuit with a repeated pin is generated only if
its text comes from a file, or if it instantiates nothing and every pin behind the repeated one has
a name that occurs before it. -/
theorem unplanned_not_generated (checked : draft.check = .ok design)
    (planned : (design.plan settings).1 = .ok names) (member : circuit ∈ design.circuits)
    (target : Settings) (layouts : Layouts) (start : List String) :
    let units := (design.generate target names layouts start).units
    (lower (Naming.sanitize circuit.name) ∈ reservedModules.map lower →
      names.circuit? circuit.name = none ∧
        ∀ unit ∈ units, lower unit.name ≠ lower (Naming.sanitize circuit.name)) ∧
    ∀ before again behind, circuit.componentsOf .pin = before ++ again :: behind →
      again.pathName ∈ before.map (·.pathName) →
      ∀ unit ∈ units, names.circuit? circuit.name = some unit.name → circuit.blackBox ≠ none ∨
        (∀ component ∈ circuit.components, component.isInstance = false) ∧
          ∀ pin ∈ behind, pin.pathName ∈ before.map (·.pathName) := by
  intro units
  have indexed := Draft.indexed_of_check checked
  obtain ⟨planning, rfl, consistent, unreserved⟩ := exists_registry Planning.kept_unreserved
    ⟨Planning.lawful_start, fun _ _ listed => absurd listed not_mem_nil⟩ planned
  have separate := consistent.separate indexed
  have made : ∀ unit ∈ units, design.Makes target planning.names layouts unit.name (.ok unit) :=
    fun unit listed => ((accounts_generate design target planning.names layouts start).units unit
      listed).1
  refine ⟨fun reserved => ⟨?_, fun unit listed same => ?_⟩,
    fun before again behind pins repeats unit listed named => ?_⟩
  · refine Option.eq_none_iff_forall_ne_some.mpr fun module named => ?_
    exact unreserved.circuits _ _ (consistent.circuits _ (mem_of_lookup named)) reserved
  · obtain ⟨signature, given⟩ := (made unit listed).given consistent
    rw [← same] at reserved
    exact (unreserved.lawful.given _ _ given).2 reserved
  · have making := made unit listed
    generalize outcome : Except.ok unit = result at making
    generalize unit.name = module at making named
    cases making with
    | @circuit own _ reached ownNamed plain earlier =>
      obtain rfl := separate.circuits own reached.mem circuit member module ownNamed named
      exact .inr (exempt_of_unit indexed planned member pins repeats (Prod.ext outcome.symm rfl))
    | @blackBox own _ box reached ownNamed boxed =>
      obtain rfl := separate.circuits own reached.mem circuit member module ownNamed named
      exact .inl (by simp [boxed])
    | component _ _ _ _ _ componentNamed =>
      exact absurd componentNamed (separate.components _ _ _ _ named)

/-- A circuit with a repeated pin and a gate, and one that is called like the wrapper: neither is
generated. -/
theorem unplanned_not_generated_gate :
    let pin (id : Int) : Component := ⟨id, .pin, [("label", "a")], [⟨"a", true, [⟨0, 0⟩]⟩], ""⟩
    let gate : Component := ⟨3, .not, [], [⟨"A", false, [⟨0, 0⟩]⟩], ""⟩
    let use (id : Int) (name : String) : Component := ⟨id, .subcircuit, [], [], name⟩
    let inner : Circuit := ⟨"inner", [⟨0, 1, false, [], [], none⟩], [pin 1, pin 2, gate], none⟩
    let wrapper : Circuit := ⟨"fpgatoplevel", [], [], none⟩
    let main : Circuit := ⟨"main", [], [use 1 "inner", use 2 "fpgatoplevel"], none⟩
    let design : Design := ⟨"d", "main", [main, inner, wrapper], []⟩
    ∃ names, (design.plan {}).1 = .ok names ∧
      let units := (design.generate {} names design.layouts []).units
      names.circuit? "inner" = some "inner" ∧ (∀ unit ∈ units, unit.name ≠ "inner") ∧
      names.circuit? "fpgatoplevel" = none ∧ ∀ unit ∈ units, lower unit.name ≠ "fpgatoplevel" := by
  intro pin gate use inner wrapper main design
  have checked : Draft.check ⟨"d", "main",
      [some ⟨"main", [], [some (use 1 "inner"), some (use 2 "fpgatoplevel")], none⟩,
        some ⟨"inner", inner.nets, [some (pin 1), some (pin 2), some gate], none⟩,
        some ⟨"fpgatoplevel", [], [], none⟩], []⟩ = .ok design := by rfl
  have gives : (design.plan {}).1.toOption.bind (·.circuit? "inner") = some "inner" := by
    decide +kernel
  cases planned : (design.plan {}).1 with
  | error failure => rw [planned] at gives; cases gives
  | ok names =>
    rw [planned] at gives
    have named : names.circuit? "inner" = some "inner" := gives
    have plain := (unplanned_not_generated checked planned
      (by simp [design] : inner ∈ design.circuits) {} design.layouts []).2
    have reserved := (unplanned_not_generated checked planned
      (by simp [design] : wrapper ∈ design.circuits) {} design.layouts []).1
    have spelled : lower (Naming.sanitize wrapper.name) = "fpgatoplevel" := by decide
    rw [spelled] at reserved
    obtain ⟨unnamed, absent⟩ := reserved (by decide)
    refine ⟨names, rfl, named, fun unit listed same => ?_, unnamed, absent⟩
    obtain boxed | ⟨bare, _⟩ := plain [pin 1] (pin 2) [] rfl (by decide) unit listed
      (named.trans (congrArg some same.symm))
    · exact boxed rfl
    · exact absurd (bare gate (by simp [inner])) (by decide)

/-- A circuit with two pins of one label and nothing else: planning reports it as fatal, and its
module is generated all the same. -/
theorem repeated_pin_generated :
    let pin (id : Int) : Component := ⟨id, .pin, [("label", "a")], [⟨"pin", true, [⟨0, 0⟩]⟩], ""⟩
    let net : Net := ⟨0, 1, false, [], [], none⟩
    let use : Component := ⟨1, .subcircuit, [], [⟨"a", false, [⟨0, 0⟩]⟩], "inner"⟩
    let design : Design := ⟨"d", "main",
      [⟨"main", [net], [use], none⟩, ⟨"inner", [net], [pin 1, pin 2], none⟩], []⟩
    Draft.check ⟨"d", "main", [some ⟨"main", [net], [some use], none⟩,
        some ⟨"inner", [net], [some (pin 1), some (pin 2)], none⟩], []⟩ = .ok design ∧
      (design.plan {}).2 =
        [⟨.fatal, "inner", "inner", "two pins of circuit inner are named \"a\""⟩] ∧
      (design.plan {}).1.toOption.map (fun names =>
        (design.generate {} names design.layouts []).units.map (·.name)) =
        some ["main", "inner"] :=
  ⟨rfl, by decide +kernel, by decide +kernel⟩

end Design

end Schematic
