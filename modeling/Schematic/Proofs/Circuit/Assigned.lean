import Schematic.Proofs.Circuit.Declared
import Schematic.Proofs.Circuit.ForcedRoots
import Schematic.Proofs.Netlist.Hierarchy

/-! # What the body of a circuit assigns -/

open List

namespace Schematic

open Hdl Reporting

namespace Circuit

/-- The clock tree of the net that a range is taken from. -/
def treeOf? (circuit : Circuit) (range : NetRange) : Option Int :=
  (circuit.net? range.net).bind (·.clockTree)

/-- The runs that the clock components of a circuit drive. -/
def clockRuns (circuit : Circuit) : List Run :=
  (circuit.componentsOf .clock).flatMap fun component =>
    component.ends.head?.toList.flatMap fun first => runs first.points

def clockAssignment? (circuit : Circuit) (run : Run) : Option Assignment :=
  run.source.map fun range =>
    ⟨circuit.rangeOf range, (circuit.treeOf? range).elim (.fill false run.width) fun tree =>
      .index (clockTreePort tree) Clock.BusSignal.derivedClock.position⟩

end Circuit

namespace Component

variable {component pin : Component} {points : List Point}

/-- Points of an end of a component, or unconnected ones. -/
def Fed (component : Component) (points : List Point) : Prop :=
  (∃ e ∈ component.ends, points = e.points) ∨
    Word.fits points.length = true ∧ points = List.replicate points.length Point.unconnected

theorem fed_loose {width : Nat} (fitting : Word.fits width = true) :
    component.Fed (List.replicate width Point.unconnected) :=
  .inr (by rw [length_replicate]; exact ⟨fitting, rfl⟩)

theorem fed_end {terminal : String} {e : End} (found : component.end? terminal = some e) :
    component.Fed e.points :=
  .inl ⟨e, mem_of_find?_eq_some found, rfl⟩

theorem Feeds.fed {terminal : String} (feeds : component.Feeds terminal points) :
    component.Fed points := by
  obtain ⟨e, found, rfl⟩ | ⟨_, loose⟩ := feeds
  · exact fed_end found
  · exact .inr loose

/-- The points that a pin's port is wired to. -/
def pinPoints (pin : Component) : List Point :=
  match pin.ends with
  | first :: _ => first.points
  | [] => List.replicate pin.pinWidth Point.unconnected

theorem length_pinPoints (solid : pin.pinPoints ≠ []) : pin.pinPoints.length = pin.pinWidth := by
  cases ends : pin.ends with
  | nil => simp [pinPoints, ends]
  | cons first others =>
    simp only [pinPoints, ends] at solid ⊢
    simp [pinWidth, ends, End.width, length_pos_iff.mpr solid]

theorem fed_pinPoints (fitting : Word.fits pin.pinWidth = true) : pin.Fed pin.pinPoints := by
  rw [pinPoints]
  split
  case h_1 first _ ends => exact .inl ⟨first, ends ▸ mem_cons_self .., rfl⟩
  case h_2 => exact fed_loose fitting

end Component

namespace WiringContext

variable {context : WiringContext} {sections : List BodySection} {fragments : List Fragment}
  {assignment : Assignment} {pin : Component}

theorem PinFeeds.fed {component : Component} {points : List Point}
    (feeds : PinFeeds component pin points) (fitting : Word.fits pin.pinWidth = true) :
    component.Fed points := by
  obtain ⟨e, found, rfl⟩ | rfl := feeds
  · exact Component.fed_end found
  · exact Component.fed_loose fitting

theorem yields_clockRun {component : Component} {run : Run} {part : List Assignment}
    (made : Yields (context.clockRun component run) part) :
    part = (context.circuit.clockAssignment? run).toList := by
  cases source : run.source with
  | none =>
    simp only [clockRun, source] at made
    rw [← yields_pure.mp made, Circuit.clockAssignment?, source]
    rfl
  | some range =>
    rw [Circuit.clockAssignment?, source, Option.map_some, Circuit.treeOf?]
    simp only [clockRun, source] at made
    split at made
    case h_1 tree belongs =>
      rw [← yields_pure.mp made, belongs]
      rfl
    case h_2 outside =>
      obtain ⟨_, _, made⟩ := made.bind
      rw [← yields_pure.mp made, outside]
      rfl

theorem clockSources_eq {clocks : List Assignment} (made : Yields context.clockSources clocks) :
    clocks = context.circuit.clockRuns.filterMap context.circuit.clockAssignment? := by
  rw [Circuit.clockRuns, filterMap_flatMap]
  refine made.concat_eq fun component part step => ?_
  rw [filterMap_flatMap]
  cases ends : component.ends with
  | nil =>
    simp only [ends] at step
    exact (yields_pure.mp step).symm
  | cons first others =>
    simp only [ends] at step
    rw [List.head?_cons, Option.toList_some, flatMap_singleton, filterMap_eq_flatMap_toList]
    exact step.concat_eq fun run part => yields_clockRun

def portOf (context : WiringContext) (pin : Component) : String :=
  (context.names.port? context.circuit.name pin.pathName).getD ""

def pinPart (context : WiringContext) (pin : Component) (port : String) : List Assignment :=
  (runs pin.pinPoints).filterMap fun run => run.source.map fun range =>
    if pin.isOutputPin then ⟨run.bitsOf port pin.pinWidth, context.circuit.rangeOf range⟩
    else ⟨context.circuit.rangeOf range, run.bitsOf port pin.pinWidth⟩

theorem pins_eq {pins : List Assignment} (made : Yields context.pins pins) :
    pins = (context.circuit.componentsOf .pin).flatMap fun pin =>
      context.pinPart pin (context.portOf pin) := by
  refine made.concat_eq fun pin part step => ?_
  obtain ⟨loose, floats, step⟩ := step.bind
  obtain ⟨_, rfl⟩ := yields_floating floats
  change Yields
    (Reporting.concat (context.pinRun pin (context.portOf pin)) (runs pin.pinPoints)) part
    at step
  rw [pinPart, filterMap_eq_flatMap_toList]
  refine step.concat_eq fun run part made => ?_
  cases source : run.source with
  | none =>
    simp only [pinRun, source] at made
    split at made
    · obtain ⟨_, _, made⟩ := made.bind
      exact (yields_pure.mp made).symm
    · exact (yields_pure.mp made).symm
  | some range =>
    simp only [pinRun, source] at made
    exact (yields_pure.mp made).symm

theorem fits_pinWidth (made : Yields context.sections (sections, fragments))
    (own : pin ∈ context.circuit.componentsOf .pin) : Word.fits pin.pinWidth = true := by
  obtain ⟨_, _, _, _, _, _, pinned, _⟩ := exists_parts made
  obtain ⟨_, each, _⟩ := pinned.concat
  obtain ⟨_, _, step⟩ := exists_zip_of_forall₂ each own
  obtain ⟨_, floats, _⟩ := step.bind
  exact (yields_floating floats).1

/-- The names that are wired bit by bit, apart from the ports of the pins, their widths and the
points behind their bits. -/
inductive Bus (context : WiringContext) (fragments : List Fragment) :
    String → Nat → List Point → Prop
  | divisor {control : Component} {points : List Point} :
      (context.design.dynamicClock? context.period context.circuit).map (·.id) = some control.id →
      control ∈ context.circuit.componentsOf .dynamicClock → control.Fed points →
      points.length = control.width → Bus context fragments dynamicClockPort control.width points
  | wire {component : Component} {name : String} {points : List Point} :
      component ∈ context.circuit.components → component.Fed points →
      (name, points.length) ∈ fragments.flatMap (·.wires) →
      Bus context fragments name points.length points
  | root {net : Net} : net ∈ context.circuit.nets → net.forcedRoot = true →
      Bus context fragments net.signal net.width.toNat net.sources
  | feed {net sink : Net} {target : Int} : net ∈ context.circuit.nets → net.forcedRoot = true →
      context.circuit.net? target = some sink → Bus context fragments sink.signal
        sink.width.toNat (feedsOf net (fedBits net) target sink.width.toNat)

/-- What is assigned, apart from clocks and the ports of the pins. -/
inductive Assigned (context : WiringContext) (fragments : List Fragment) : Assignment → Prop
  | constant {component : Component} {e : End} {run : Run} {range : NetRange} {value : Nat} :
      component ∈ context.circuit.components → e ∈ component.ends → run ∈ runs e.points →
      run.source = some range →
      Assigned context fragments ⟨context.circuit.rangeOf range, .literal value run.width⟩
  | takes {name : String} {width : Nat} {points : List Point} {run : Run} {range : NetRange} :
      Bus context fragments name width points → run ∈ runs points → run.source = some range →
      Assigned context fragments ⟨run.bitsOf name width, context.circuit.rangeOf range⟩
  | gives {name : String} {width : Nat} {points : List Point} {run : Run} {range : NetRange} :
      Bus context fragments name width points → run ∈ runs points → run.source = some range →
      Assigned context fragments ⟨context.circuit.rangeOf range, run.bitsOf name width⟩
  | idle {name : String} {width : Nat} {points : List Point} {run : Run} {value : Bool} :
      Bus context fragments name width points → run ∈ runs points →
      Assigned context fragments ⟨run.bitsOf name width, .fill value run.width⟩
  | gated {component : Component} {points : List Point} {point : Point} {net : Net}
      {wire : String} :
      component ∈ context.circuit.components → component.Fed points → point ∈ points →
      point.isConnected = true → context.circuit.net? point.net = some net →
      (wire, Clock.busWidth) ∈ fragments.flatMap (·.wires) →
      Assigned context fragments ⟨.signal wire,
        gatedBus component.trigger (.bitsOf net.signal net.width point.bit point.bit)⟩

theorem assigned_dynamicClock {divisors : List Assignment}
    (made : Yields context.dynamicClock divisors) (listed : assignment ∈ divisors) :
    Assigned context fragments assignment := by
  obtain ⟨control, own, part, step, inside⟩ := made.exists_of_mem_concat listed
  split at step
  case isFalse =>
    obtain ⟨_, _, step⟩ := step.bind
    rw [← yields_pure.mp step] at inside
    cases inside
  case isTrue active =>
    obtain ⟨loose, floats, step⟩ := step.bind
    obtain ⟨fitting, rfl⟩ := yields_floating floats
    rw [← yields_pure.mp step] at inside
    obtain ⟨run, member, rfl⟩ := mem_map.mp inside
    -- The points are those of the end with the right width, or else none of them is connected.
    obtain ⟨points, fed, length, member⟩ : ∃ points, control.Fed points ∧
        points.length = control.width ∧ run ∈ runs points := by
      have none : control.Fed _ := Component.fed_loose fitting
      split at member
      case h_2 => exact ⟨_, none, length_replicate .., member⟩
      case h_1 e found =>
        split at member
        case isFalse => exact ⟨_, none, length_replicate .., member⟩
        case isTrue width => exact ⟨e.points, Component.fed_end found, width, member⟩
    have bus : Bus context fragments _ _ _ := .divisor active own fed length
    cases source : run.source with
    | none => exact .idle bus member
    | some range => exact .takes bus member source

theorem assigned_constants (listed : assignment ∈ context.constants) :
    Assigned context fragments assignment := by
  simp only [constants] at listed
  obtain ⟨component, own, listed⟩ := mem_flatMap.mp listed
  obtain ⟨e, inside, listed⟩ := mem_flatMap.mp listed
  obtain ⟨run, member, made⟩ := mem_filterMap.mp listed
  obtain ⟨range, source, rfl⟩ := Option.map_eq_some_iff.mp made
  exact .constant (Design.mem_componentsOf.mp own).1 inside member source

theorem assigned_forcedRoots {roots : List Assignment} (made : Yields context.forcedRoots roots)
    (listed : assignment ∈ roots) : Assigned context fragments assignment := by
  have driven : ∀ {net : Net} {points : List Point},
      Bus context fragments net.signal net.width.toNat points →
      assignment ∈ driveNet context.circuit net points → Assigned context fragments assignment := by
    intro net points bus taken
    obtain ⟨run, member, made⟩ := mem_filterMap.mp taken
    obtain ⟨range, source, rfl⟩ := Option.map_eq_some_iff.mp made
    exact .takes bus member source
  obtain ⟨net, present, forced, taken | ⟨target, sink, found, taken⟩⟩ :=
    exists_of_mem_forcedRoots made listed
  · exact driven (.root present forced) taken
  · exact driven (.feed present forced found) taken

theorem assigned_connect {need : PortNeed} {points : List Point} {mapping : PortMapping}
    {component : Component} (home : component ∈ context.circuit.components)
    (fed : component.Fed points) (connected : need.connect context.circuit points = .ok mapping)
    (wires : ∀ wire ∈ mapping.wire, wire ∈ fragments.flatMap (·.wires))
    (listed : assignment ∈ mapping.assignments) : Assigned context fragments assignment := by
  cases PortNeed.connects_of_connect connected with
  | direct => cases listed
  | opened => cases listed
  | idle => cases listed
  | through =>
    have bus : Bus context fragments _ _ points := .wire home fed (wires _ rfl)
    obtain ⟨run, member, made⟩ := mem_filterMap.mp listed
    simp only [PortNeed.connectRun] at made
    split at made
    · cases made
      exact .idle bus member
    case h_2 range _ source =>
      cases made
      exact .takes bus member source
    case h_3 range source _ =>
      cases made
      exact .gives bus member source
    · cases made

theorem assigned_fragment {component : Component} (home : component ∈ context.circuit.components)
    {fragment : Fragment} (made : FragmentOf context component fragment)
    (wires : ∀ wire ∈ fragment.wires, wire ∈ fragments.flatMap (·.wires))
    (listed : assignment ∈ fragment.assignments) : Assigned context fragments assignment := by
  cases made with
  | leaf label binding mappings ordinary labelled bound mapped =>
    obtain ⟨mapping, member, inside⟩ := mem_flatMap.mp listed
    obtain ⟨variant, binds⟩ := Component.exists_of_bind bound
    obtain ⟨port, connected, form⟩ := exists_of_forall₂ mapped member
    obtain ⟨spec, _, binding⟩ := exists_of_forall₂ binds.ports connected
    have wires := fun wire has => wires wire (mem_filterMap.mpr ⟨mapping, member, has⟩)
    cases form with
    | ordinary _ _ connects => exact assigned_connect home binding.fed.fed connects wires inside
    | loose => cases inside
    | tree => cases inside
    | gated net point clock fed isConnected found =>
      rw [mem_singleton.mp inside]
      exact .gated home binding.fed.fed fed isConnected found (wires _ rfl)
  | inner label module circuit interface mapped isInner labelled found planned portsOf pins =>
    obtain ⟨entry, member, inside⟩ := mem_flatMap.mp listed
    obtain ⟨pin, _, mapping⟩ := exists_of_forall₂ pins member
    obtain ⟨points, feeds, _, connects⟩ := mapping.connected
    exact assigned_connect home (feeds.fed mapping.fits) connects
      (fun wire has => wires wire (mem_filterMap.mpr ⟨entry, member, has⟩)) inside

theorem exists_assigned (made : Yields context.sections (sections, fragments)) :
    ∃ before after, BodySection.assignments sections =
        context.circuit.clockRuns.filterMap context.circuit.clockAssignment? ++ (before ++
          ((context.circuit.componentsOf .pin).flatMap (fun pin =>
            context.pinPart pin (context.portOf pin)) ++ after)) ∧
      ∀ assignment ∈ before ++ after, Assigned context fragments assignment := by
  obtain ⟨clocks, divisors, pins, roots, clocked, divided, pinned, rooted, instances, rfl⟩ :=
    exists_parts made
  refine ⟨divisors ++ context.constants, roots ++ fragments.flatMap (·.assignments), ?_, ?_⟩
  · rw [assignments_bodySections, clockSources_eq clocked, pins_eq pinned, append_assoc]
  · simp only [forall_mem_append]
    refine ⟨⟨fun _ => assigned_dynamicClock divided, fun _ => assigned_constants⟩,
      fun _ => assigned_forcedRoots rooted, fun assignment listed => ?_⟩
    obtain ⟨fragment, present, own⟩ := mem_flatMap.mp listed
    obtain ⟨component, use, form⟩ := exists_of_forall₂ (forall₂_instances instances) present
    exact assigned_fragment (mem_filter.mp use).1 form
      (fun wire inside => mem_flatMap.mpr ⟨fragment, present, inside⟩) own

end WiringContext

end Schematic
