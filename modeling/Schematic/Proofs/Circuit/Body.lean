import Schematic.Proofs.Circuit.Instances
import Schematic.Proofs.Component.Binding

/-! # What a circuit body is made of -/

open List

namespace Schematic

open Hdl

namespace Reporting

variable {α β : Type} {computation : Reporting α} {result : α}

/-- A computation gave a result, whatever was reported. -/
def Yields (computation : Reporting α) (result : α) : Prop :=
  ∃ earlier later, outcome computation earlier = (.ok result, later)

theorem yields_pure {value : α} : Yields (pure value) result ↔ value = result := by
  constructor
  · rintro ⟨earlier, later, gave⟩
    cases gave
    rfl
  · rintro rfl
    exact ⟨[], [], rfl⟩

theorem not_yields_throw {failure : Failure} : ¬Yields (throw failure) result := by
  rintro ⟨earlier, later, gave⟩
  cases gave

variable {earlier : List Message}

theorem exists_yields_of_any {holds : α → Bool}
    (gives : (outcome computation earlier).1.toOption.any holds = true) :
    ∃ result, Yields computation result ∧ holds result = true := by
  cases ran : outcome computation earlier with
  | mk given later =>
    rw [ran] at gives
    cases given with
    | error failure => cases gives
    | ok result => exact ⟨result, ⟨earlier, later, ran⟩, gives⟩

theorem exists_yields (gives : (outcome computation earlier).1.toOption.isSome = true) :
    ∃ result, Yields computation result := by
  rw [← Option.any_true] at gives
  obtain ⟨result, gave, _⟩ := exists_yields_of_any gives
  exact ⟨result, gave⟩

theorem Yields.bind {next : α → Reporting β} {result : β}
    (gave : Yields (computation >>= next) result) :
    ∃ value, Yields computation value ∧ Yields (next value) result := by
  obtain ⟨earlier, later, gave⟩ := gave
  obtain ⟨value, between, first, second⟩ := exists_of_bind gave
  exact ⟨value, ⟨earlier, between, first⟩, ⟨between, later, second⟩⟩

theorem Yields.concat {step : α → Reporting (List β)} {items : List α} {results : List β}
    (gave : Yields (concat step items) results) :
    ∃ parts, List.Forall₂ (fun item part => Yields (step item) part) items parts ∧
      results = parts.flatten := by
  induction items generalizing results with
  | nil => exact ⟨[], .nil, (yields_pure.mp gave).symm⟩
  | cons item items ih =>
    obtain ⟨first, here, gave⟩ := gave.bind
    obtain ⟨others, rest, gave⟩ := gave.bind
    obtain ⟨parts, each, rfl⟩ := ih rest
    exact ⟨first :: parts, .cons here each, (yields_pure.mp gave).symm⟩

theorem Yields.concat_eq {step : α → Reporting (List β)} {known : α → List β}
    (each : ∀ item part, Yields (step item) part → part = known item) {items : List α}
    {results : List β} (gave : Yields (Reporting.concat step items) results) :
    results = items.flatMap known := by
  induction items generalizing results with
  | nil => exact (yields_pure.mp gave).symm
  | cons item items ih =>
    obtain ⟨first, here, gave⟩ := gave.bind
    obtain ⟨others, rest, gave⟩ := gave.bind
    rw [← yields_pure.mp gave, each item first here, ih rest, flatMap_cons]

theorem Yields.exists_of_mem_concat {step : α → Reporting (List β)} {items : List α}
    {results : List β} (gave : Yields (Reporting.concat step items) results) {result : β}
    (member : result ∈ results) :
    ∃ item ∈ items, ∃ part, Yields (step item) part ∧ result ∈ part := by
  obtain ⟨earlier, later, gave⟩ := gave
  obtain ⟨item, listed, before, part, after, made, member⟩ :=
    Reporting.exists_of_mem_concat gave member
  exact ⟨item, listed, part, ⟨before, after, made⟩, member⟩

theorem Yields.mapM {step : α → Reporting β} {items : List α} {results : List β}
    (gave : Yields (items.mapM step) results) :
    List.Forall₂ (fun item result => Yields (step item) result) items results := by
  induction items generalizing results with
  | nil =>
    rw [mapM_nil, yields_pure] at gave
    exact gave ▸ .nil
  | cons item items ih =>
    rw [mapM_cons] at gave
    obtain ⟨first, here, gave⟩ := gave.bind
    obtain ⟨others, rest, gave⟩ := gave.bind
    exact yields_pure.mp gave ▸ .cons here (ih rest)

end Reporting

open Reporting

namespace WiringContext

variable {context : WiringContext} {component : Component} {label : String}

theorem yields_floating {width : Nat} {points : List Point}
    (made : Yields (floating width) points) :
    Word.fits width = true ∧ points = List.replicate width Point.unconnected := by
  simp only [floating] at made
  split at made
  case h_1 loose enough =>
    obtain rfl := yields_pure.mp made
    obtain ⟨fitting, length, same⟩ := floating_eq_ok enough
    obtain rfl : loose.length = width := by omega
    exact ⟨fitting, same⟩
  case h_2 => exact absurd made not_yields_throw

theorem yields_labelOf (made : Yields (context.labelOf component) label) :
    context.names.instance? context.circuit.name component.id = some label := by
  simp only [labelOf] at made
  split at made
  case h_1 given named => rw [named, yields_pure.mp made]
  case h_2 => exact absurd made not_yields_throw

inductive LeafMapping (context : WiringContext) (component : Component) (label : String)
    (port : PortBinding) : PortMapping → Prop
  | ordinary (mapping : PortMapping) : port.spec.clock = false →
      (needOf label port).connect context.circuit port.fed.points = .ok mapping →
      LeafMapping context component label port mapping
  | loose : port.spec.clock = true →
      LeafMapping context component label port { actual := some (.fill false Clock.busWidth) }
  | tree (net : Net) (tree : Int) : port.spec.clock = true → net ∈ context.circuit.nets →
      net.clockTree = some tree →
      LeafMapping context component label port { actual := some (.signal (clockTreePort tree)) }
  | gated (net : Net) (point : Point) : port.spec.clock = true →
      point ∈ port.fed.points → point.isConnected = true →
      context.circuit.net? point.net = some net →
      LeafMapping context component label port
        { actual := some (.signal (gatedWire label))
          wire := some (gatedWire label, Clock.busWidth)
          assignments := [⟨.signal (gatedWire label),
            gatedBus component.trigger (.bitsOf net.signal net.width point.bit point.bit)⟩] }

theorem leafMapping_of_clockBus {port : PortBinding} {mapping : PortMapping} {point : Point}
    (clock : port.spec.clock = true) (listed : point ∈ port.fed.points)
    (made : Yields (context.clockBus component label point) mapping) :
    LeafMapping context component label port mapping := by
  simp only [clockBus] at made
  split at made
  · obtain ⟨_, _, made⟩ := made.bind
    exact yields_pure.mp made ▸ .loose clock
  case isFalse connected =>
    split at made
    case h_2 => exact yields_pure.mp made ▸ .loose clock
    case h_1 net found =>
      split at made
      case h_1 tree named =>
        have present := mem_of_find?_eq_some found
        exact yields_pure.mp made ▸ .tree net tree clock present named
      case h_2 =>
        obtain ⟨_, _, made⟩ := made.bind
        simp only [Bool.not_eq_true', Bool.not_eq_false] at connected
        exact yields_pure.mp made ▸ .gated net _ clock listed connected found

theorem leafMapping_of_yields {port : PortBinding} {mapping : PortMapping}
    (made : Yields (context.leafPort component label port) mapping) :
    LeafMapping context component label port mapping := by
  simp only [leafPort] at made
  split at made
  case isFalse plain =>
    split at made
    case h_1 mapped connected =>
      rw [← yields_pure.mp made]
      exact .ordinary mapped (Bool.not_eq_true _ ▸ plain) connected
    case h_2 => exact absurd made not_yields_throw
  case isTrue clock =>
    split at made
    case h_1 points => exact leafMapping_of_clockBus clock (points ▸ mem_cons_self ..) made
    case h_2 => exact absurd made not_yields_throw

def PinFeeds (component pin : Component) (points : List Point) : Prop :=
  (∃ e, component.end? pin.pathName = some e ∧ points = e.points) ∨
    points = List.replicate pin.pinWidth Point.unconnected

structure PinMapping (context : WiringContext) (component : Component) (label : String)
    (inner : Circuit) (pin : Component) (mapped : String × PortMapping) : Prop where
  port : mapped.1 = (context.pinNeed label inner pin).port
  fits : Word.fits pin.pinWidth = true
  connected : ∃ points, PinFeeds component pin points ∧ points.length = pin.pinWidth ∧
    (context.pinNeed label inner pin).connect context.circuit points = .ok mapped.2

inductive FragmentOf (context : WiringContext) (component : Component) : Fragment → Prop
  | leaf (label : String) (binding : Binding) (mappings : List PortMapping) :
      component.kind.isSpecial = false →
      context.names.instance? context.circuit.name component.id = some label →
      component.bind context.circuit.name
        (context.names.module? context.circuit.name component.id) = .ok binding →
      List.Forall₂ (LeafMapping context component label) binding.ports mappings →
      FragmentOf context component (context.leafFragment component label binding mappings)
  | inner (label module : String) (circuit : Circuit) (interface : Interface)
      (mapped : List (String × PortMapping)) :
      component.kind = .subcircuit →
      context.names.instance? context.circuit.name component.id = some label →
      context.design.circuit? component.circuit = some circuit →
      context.names.circuit? circuit.name = some module →
      circuit.ports context.design context.period context.names context.layouts = .ok interface →
      List.Forall₂ (PinMapping context component label circuit) (circuit.componentsOf .pin) mapped →
      FragmentOf context component (context.innerFragment component label module interface mapped)

variable {fragment : Fragment}

theorem exists_of_yields_leaf (made : Yields (context.leaf component) fragment) :
    ∃ label binding mappings,
      context.names.instance? context.circuit.name component.id = some label ∧
      component.bind context.circuit.name
        (context.names.module? context.circuit.name component.id) = .ok binding ∧
      List.Forall₂ (fun port mapping => Yields (context.leafPort component label port) mapping)
        binding.ports mappings ∧
      fragment = context.leafFragment component label binding mappings := by
  simp only [leaf] at made
  obtain ⟨label, labelled, made⟩ := made.bind
  split at made
  case h_1 => exact absurd made not_yields_throw
  case h_2 binding bound =>
    obtain ⟨mappings, mapped, made⟩ := made.bind
    exact ⟨label, binding, mappings, yields_labelOf labelled, bound, mapped.mapM,
      (yields_pure.mp made).symm⟩

theorem fragmentOf_leaf (ordinary : component.kind.isSpecial = false)
    (made : Yields (context.leaf component) fragment) : FragmentOf context component fragment := by
  obtain ⟨label, binding, mappings, labelled, bound, mapped, rfl⟩ := exists_of_yields_leaf made
  exact .leaf label binding mappings ordinary labelled bound
    (mapped.imp fun _ _ => leafMapping_of_yields)

theorem pinMapping_of_yields {inner : Circuit} {pin : Component} {mapped : String × PortMapping}
    (made : Yields (context.pinPort component label inner pin) mapped) :
    PinMapping context component label inner pin mapped := by
  simp only [pinPort] at made
  obtain ⟨loose, floats, made⟩ := made.bind
  obtain ⟨fitting, rfl⟩ := yields_floating floats
  -- Both ways to find the points lead on to the same rest.
  have rest : ∀ points mapping, PinFeeds component pin points → points.length = pin.pinWidth →
      (context.pinNeed label inner pin).connect context.circuit points = .ok mapping →
      ((context.pinNeed label inner pin).port, mapping) = mapped →
      PinMapping context component label inner pin mapped := by
    rintro points mapping fed length connected rfl
    exact ⟨rfl, fitting, points, fed, length, connected⟩
  split at made
  case h_1 =>
    obtain ⟨_, passed, made⟩ := made.bind
    obtain rfl := yields_pure.mp passed
    split at made
    case h_2 => exact absurd made not_yields_throw
    case h_1 mapping connected =>
      exact rest _ mapping (.inr rfl) (length_replicate ..) connected
        (yields_pure.mp made)
  case h_2 e found =>
    split at made
    case isFalse =>
      obtain ⟨_, failed, _⟩ := made.bind
      exact absurd failed not_yields_throw
    case isTrue width =>
      obtain ⟨_, passed, made⟩ := made.bind
      obtain rfl := yields_pure.mp passed
      split at made
      case h_2 => exact absurd made not_yields_throw
      case h_1 mapping connected =>
        exact rest e.points mapping (.inl ⟨e, found, rfl⟩) width connected
          (yields_pure.mp made)

theorem fragmentOf_subcircuit (isInner : component.kind = .subcircuit)
    (made : Yields (context.subcircuit component) fragment) :
    FragmentOf context component fragment := by
  simp only [subcircuit] at made
  obtain ⟨label, labelled, made⟩ := made.bind
  split at made
  case h_2 => exact absurd made not_yields_throw
  case h_1 inner found =>
    split at made
    case h_2 => exact absurd made not_yields_throw
    case h_1 module planned =>
      split at made
      case h_2 =>
        obtain ⟨_, failed, _⟩ := made.bind
        exact absurd failed not_yields_throw
      case h_1 interface ports =>
        obtain ⟨_, passed, made⟩ := made.bind
        obtain rfl := yields_pure.mp passed
        obtain ⟨mapped, mapping, made⟩ := made.bind
        obtain ⟨_, _, made⟩ := made.bind
        rw [← yields_pure.mp made]
        exact .inner label module inner interface mapped isInner (yields_labelOf labelled) found
          planned ports (mapping.mapM.imp fun _ _ => pinMapping_of_yields)

end WiringContext

/-- Whether a component is an instance of a module. -/
def Component.isInstance (component : Component) : Bool :=
  component.kind = .subcircuit || !component.kind.isSpecial

def Statement.assignment? : Statement → Option Assignment
  | .assign assignment => some assignment
  | _ => none

def Statement.use? : Statement → Option Instance
  | .gap | .assign _ => none
  | .instantiate use => some use

namespace BodySection

/-- All assignments of a body, in order. -/
def assignments (sections : List BodySection) : List Assignment :=
  sections.flatMap fun part => part.statements.filterMap Statement.assignment?

/-- All instances in a body, in order. -/
def uses (sections : List BodySection) : List Instance :=
  sections.flatMap fun part => part.statements.filterMap Statement.use?

end BodySection

theorem filterMap_assignment?_assign (assignments : List Assignment) :
    (assignments.map Statement.assign).filterMap Statement.assignment? = assignments := by
  rw [filterMap_map]
  exact filterMap_some

theorem filterMap_use?_assign (assignments : List Assignment) :
    (assignments.map Statement.assign).filterMap Statement.use? = [] := by
  rw [filterMap_map]
  exact filterMap_eq_nil_iff.mpr fun _ _ => rfl

namespace Fragment

theorem filterMap_assignment?_statements (fragment : Fragment) :
    fragment.statements.filterMap Statement.assignment? = fragment.assignments := by
  rw [statements, filterMap_append, filterMap_assignment?_assign]
  exact append_nil _

theorem filterMap_use?_statements (fragment : Fragment) :
    fragment.statements.filterMap Statement.use? = [fragment.use] := by
  rw [statements, filterMap_append, filterMap_use?_assign]
  rfl

theorem filterMap_assignment?_separated (fragments : List Fragment) :
    (separated fragments).filterMap Statement.assignment? = fragments.flatMap (·.assignments) := by
  fun_induction separated fragments with
  | case1 => rfl
  | case2 last => rw [filterMap_assignment?_statements, flatMap_singleton]
  | case3 fragment rest _ ih =>
    rw [filterMap_append, filterMap_assignment?_statements, flatMap_cons, ← ih]
    rfl

theorem filterMap_use?_separated (fragments : List Fragment) :
    (separated fragments).filterMap Statement.use? = fragments.map (·.use) := by
  fun_induction separated fragments with
  | case1 => rfl
  | case2 last => exact filterMap_use?_statements last
  | case3 fragment rest _ ih =>
    rw [filterMap_append, filterMap_use?_statements, map_cons, ← ih]
    rfl

end Fragment

namespace WiringContext

variable {context : WiringContext} {sections : List BodySection} {fragments : List Fragment}

theorem forall₂_instances (made : Yields context.instances fragments) :
    List.Forall₂ (FragmentOf context) (context.circuit.components.filter (·.isInstance))
      fragments := by
  obtain ⟨parts, each, rfl⟩ := Yields.concat made
  clear made
  generalize context.circuit.components = components at each ⊢
  induction each with
  | nil => exact .nil
  | @cons component part components parts made _ ih =>
    by_cases inner : component.kind = .subcircuit
    · rw [if_pos inner] at made
      obtain ⟨fragment, wired, made⟩ := made.bind
      have isInstance : component.isInstance = true := by simp [Component.isInstance, inner]
      rw [← yields_pure.mp made, filter_cons_of_pos isInstance]
      exact .cons (fragmentOf_subcircuit inner wired) ih
    · rw [if_neg inner] at made
      cases special : component.kind.isSpecial with
      | true =>
        rw [if_pos special] at made
        have excluded : ¬component.isInstance = true := by
          simp [Component.isInstance, inner, special]
        rw [← yields_pure.mp made, filter_cons_of_neg excluded]
        exact ih
      | false =>
        rw [if_neg (Bool.not_eq_true _ ▸ special)] at made
        obtain ⟨fragment, wired, made⟩ := made.bind
        have isInstance : component.isInstance = true := by
          simp [Component.isInstance, special]
        rw [← yields_pure.mp made, filter_cons_of_pos isInstance]
        exact .cons (fragmentOf_leaf special wired) ih

theorem assignments_bodySections (clocks divisors pins roots : List Assignment) :
    BodySection.assignments (context.bodySections clocks divisors pins roots fragments) =
      clocks ++ (divisors ++ (context.constants ++ (pins ++ (roots ++
        fragments.flatMap (·.assignments))))) := by
  simp only [BodySection.assignments, bodySections, flatMap_cons, flatMap_nil,
    filterMap_assignment?_assign, Fragment.filterMap_assignment?_separated, append_nil]

theorem uses_bodySections (clocks divisors pins roots : List Assignment) :
    BodySection.uses (context.bodySections clocks divisors pins roots fragments) =
      fragments.map (·.use) := by
  simp only [BodySection.uses, bodySections, flatMap_cons, flatMap_nil,
    filterMap_use?_assign, Fragment.filterMap_use?_separated, nil_append, append_nil]

theorem exists_steps {earlier later : List Message}
    (made : outcome context.sections earlier = (.ok (sections, fragments), later)) :
    ∃ clocks divisors pins roots first second third fourth,
      outcome context.clockSources earlier = (.ok clocks, first) ∧
      outcome context.dynamicClock first = (.ok divisors, second) ∧
      outcome context.pins second = (.ok pins, third) ∧
      outcome context.forcedRoots third = (.ok roots, fourth) ∧
      outcome context.instances fourth = (.ok fragments, later) ∧
      sections = context.bodySections clocks divisors pins roots fragments := by
  simp only [WiringContext.sections] at made
  obtain ⟨clocks, first, clocked, made⟩ := exists_of_bind made
  obtain ⟨divisors, second, divided, made⟩ := exists_of_bind made
  obtain ⟨pins, third, pinned, made⟩ := exists_of_bind made
  obtain ⟨roots, fourth, rooted, made⟩ := exists_of_bind made
  obtain ⟨others, last, instances, made⟩ := exists_of_bind made
  cases made
  exact ⟨clocks, divisors, pins, roots, first, second, third, fourth, clocked, divided, pinned,
    rooted, instances, rfl⟩

theorem exists_parts (made : Yields context.sections (sections, fragments)) :
    ∃ clocks divisors pins roots, Yields context.clockSources clocks ∧
      Yields context.dynamicClock divisors ∧ Yields context.pins pins ∧
      Yields context.forcedRoots roots ∧ Yields context.instances fragments ∧
      sections = context.bodySections clocks divisors pins roots fragments := by
  obtain ⟨_, _, made⟩ := made
  obtain ⟨clocks, divisors, pins, roots, _, _, _, _, clocked, divided, pinned, rooted, instances,
    rfl⟩ := exists_steps made
  exact ⟨clocks, divisors, pins, roots, ⟨_, _, clocked⟩, ⟨_, _, divided⟩, ⟨_, _, pinned⟩,
    ⟨_, _, rooted⟩, ⟨_, _, instances⟩, rfl⟩

/-- A unit is written from the ports that its circuit declares and from the sections and fragments
that its wiring gives. -/
structure Writes (context : WiringContext) (dialect : Dialect) (unit : DesignUnit)
    (ports : Interface) (sections : List BodySection) (fragments : List Fragment) : Prop where
  declared : context.circuit.ports context.design context.period context.names context.layouts =
    .ok ports
  wired : Yields context.sections (sections, fragments)
  unit_eq : unit = context.written dialect ports sections fragments

theorem exists_written {dialect : Dialect} {unit : DesignUnit}
    (made : Yields (context.unit dialect) unit) :
    ∃ ports sections fragments, context.Writes dialect unit ports sections fragments := by
  obtain ⟨_, _, made⟩ := made
  obtain ⟨ports, sections, fragments, declared, wired, rfl⟩ := exists_sections made
  exact ⟨ports, sections, fragments, declared, ⟨_, _, wired⟩, rfl⟩

variable {fragment : Fragment}

theorem FragmentOf.target_eq {component : Component}
    (made : FragmentOf context component fragment) :
    (component.kind.isSpecial = false ∧
        context.names.module? context.circuit.name component.id = some fragment.use.target) ∨
      component.kind = .subcircuit ∧ ∃ inner,
        context.design.circuit? component.circuit = some inner ∧
        context.names.circuit? inner.name = some fragment.use.target := by
  cases made with
  | leaf label binding mappings ordinary _ bound =>
    exact .inl ⟨ordinary, Component.planned_of_bind bound⟩
  | inner label module circuit interface mapped isInner _ found planned =>
    exact .inr ⟨isInner, circuit, found, planned⟩

/-- A module that the circuit may instantiate: of a component, or of a circuit right below it. -/
def IsTarget (context : WiringContext) (module : String) : Prop :=
  (∃ component ∈ context.circuit.components, component.kind.isSpecial = false ∧
      context.names.module? context.circuit.name component.id = some module) ∨
    ∃ inner ∈ context.design.subcircuits context.circuit,
      context.names.circuit? inner.name = some module

theorem isTarget_of_mem_instances (made : Yields context.instances fragments)
    (member : fragment ∈ fragments) : context.IsTarget fragment.use.target := by
  obtain ⟨component, present, made⟩ := exists_of_forall₂ (forall₂_instances made) member
  have present := (mem_filter.mp present).1
  obtain ⟨ordinary, named⟩ | ⟨isInner, inner, found, named⟩ := made.target_eq
  · exact .inl ⟨component, present, ordinary, named⟩
  · refine .inr ⟨inner, mem_filterMap.mpr ⟨component, ?_, found⟩, named⟩
    exact mem_filter.mpr ⟨present, by simpa using isInner⟩

theorem isTarget_of_instantiate (made : Yields context.sections (sections, fragments))
    {part : BodySection} (listed : part ∈ sections) {use : Instance}
    (stated : .instantiate use ∈ part.statements) : context.IsTarget use.target := by
  obtain ⟨_, _, _, _, _, _, _, _, instances, rfl⟩ := exists_parts made
  have used : use ∈ BodySection.uses _ :=
    mem_flatMap.mpr ⟨part, listed, mem_filterMap.mpr ⟨_, stated, rfl⟩⟩
  rw [uses_bodySections] at used
  obtain ⟨fragment, member, rfl⟩ := mem_map.mp used
  exact isTarget_of_mem_instances instances member

end WiringContext

end Schematic
