import Schematic.Proofs.Circuit.Assigned
import Schematic.Proofs.Circuit.Walk

/-! # Widths of assignments -/

open List

namespace Schematic

open Hdl Reporting

variable {circuit : Circuit} {run : Run}

namespace Assignment

variable {σ : Type}

/-- Both sides of the assignment have a width. -/
def Sized (scope : Scope σ) (assignment : Assignment) : Prop :=
  (∃ width, assignment.target.size? scope = some width) ∧
    ∃ width, assignment.source.size? scope = some width

/-- Both sides of an assignment have equally many bits. -/
def Balanced (scope : Scope σ) (assignment : Assignment) : Prop :=
  ∃ width, assignment.target.size? scope = some width ∧
    assignment.source.size? scope = some width

theorem Balanced.sized {scope : Scope σ} {assignment : Assignment}
    (balanced : assignment.Balanced scope) : assignment.Sized scope := by
  obtain ⟨width, target, source⟩ := balanced
  exact ⟨⟨width, target⟩, width, source⟩

end Assignment

theorem WiringContext.size?_gatedBus {σ : Type} {scope : Scope σ} (trigger : String) {clock : Expr}
    (single : clock.size? scope = some 1) :
    (gatedBus trigger clock).size? scope = some Clock.busWidth := by
  obtain ⟨bits, known, length⟩ := Option.map_eq_some_iff.mp single
  obtain ⟨bit, rfl⟩ := length_eq_one_iff.mp length
  by_cases falling : trigger = "falling"
  · simp [gatedBus, Expr.size?, Expr.bits?, Expr.bits?.allBits?, known, falling, Clock.busWidth]
  · simp [gatedBus, Expr.size?, Expr.bits?, Expr.bits?.allBits?, known, falling, Clock.busWidth]

theorem Run.length_spread (run : Run) : run.spread.length = run.width := by
  simp [Run.spread]

theorem Circuit.Carries.size?_bitsOf {σ : Type} {scope : Scope σ}
    {points : List Point} (carries : circuit.Carries points) {name : String} {signal : σ}
    (declared : scope name = some (signal, (points.length : Int)))
    (short : Word.fits points.length = true) (member : run ∈ runs points) :
    (run.bitsOf name points.length).size? scope = some run.width := by
  rw [Expr.size?, carries.bits?_bitsOf declared short member, Option.map_some, length_map,
    Run.length_spread]

namespace Circuit

/-- The clock components drive single bits of the nets that belong to clock trees. -/
def ClocksSingle (circuit : Circuit) : Prop :=
  ∀ run ∈ circuit.clockRuns, ∀ range tree, run.source = some range →
    circuit.treeOf? range = some tree → run.width = 1

end Circuit

/-- Two pins with one path element have one width. -/
def Circuit.PinsAgree (circuit : Circuit) : Prop :=
  ∀ first ∈ circuit.componentsOf .pin, ∀ second ∈ circuit.componentsOf .pin,
    first.pathName = second.pathName → first.pinWidth = second.pinWidth

instance (circuit : Circuit) : Decidable circuit.PinsAgree :=
  inferInstanceAs (Decidable (∀ first ∈ circuit.componentsOf .pin,
    ∀ second ∈ circuit.componentsOf .pin, first.pathName = second.pathName →
      first.pinWidth = second.pinWidth))

namespace WiringContext

variable {context : WiringContext} {ports : Interface} {fragments : List Fragment}

structure Measured (context : WiringContext) (ports : Interface) (fragments : List Fragment) : Prop
    extends context.Wired ports fragments where
  placed : context.circuit.Placed
  words : ∀ net ∈ context.circuit.nets, Word.fits net.width = true
  short : ∀ component ∈ context.circuit.components, ∀ e ∈ component.ends,
    Word.fits e.points.length = true

namespace Measured

variable {points : List Point} {component pin : Component} {net : Net} {run : Run}
  {range : NetRange} {assignment : Assignment}

variable (measured : context.Measured ports fragments)
include measured

theorem carries
    (placed : ∀ point ∈ points, Circuit.checkPoint context.circuit.nets point = .ok ()) :
    context.circuit.Carries points :=
  ⟨measured.indexed.circuits _ measured.member, measured.words, placed⟩

theorem carries_end (home : component ∈ context.circuit.components)
    {e : End} (own : e ∈ component.ends) : context.circuit.Carries e.points :=
  measured.carries (measured.placed.ends component home e own)

theorem carries_loose (count : Nat) :
    context.circuit.Carries (List.replicate count Point.unconnected) := by
  refine measured.carries fun point listed => ?_
  rw [eq_of_mem_replicate listed]
  rfl

theorem scope_width (present : net ∈ context.circuit.nets) :
    (context.declared ports fragments).scope net.signal = some (net.signal, net.width) := by
  have positive := (measured.indexed.circuits _ measured.member).netWidths net present
  rw [measured.scope_net present, Int.toNat_of_nonneg (by omega)]

theorem size?_rangeOf (carries : context.circuit.Carries points)
    (member : run ∈ runs points) (source : run.source = some range) :
    (context.circuit.rangeOf range).size? (context.declared ports fragments).scope =
      some run.width := by
  obtain ⟨net, found, bounds⟩ := carries.range_inside member source
  have present := (Circuit.net?_eq_some found).1
  have coherent := coherent_of_mem_runs carries.counted member
  have aligned := coherent.aligned range source
  have ordered := coherent.ordered
  have width : (range.high - range.low + 1).toNat = run.width := by
    simp only [Run.width]
    omega
  rw [Circuit.rangeOf, found]
  simp only
  rw [Expr.size?_bitsOf (measured.scope_width present) (measured.words net present) bounds, width]

theorem balanced_run (carries : context.circuit.Carries points)
    (short : Word.fits points.length = true) {name : String}
    (declared : (context.declared ports fragments).scope name =
      some (name, (points.length : Int))) (member : run ∈ runs points)
    (source : run.source = some range) :
    Assignment.Balanced (context.declared ports fragments).scope
        ⟨run.bitsOf name points.length, context.circuit.rangeOf range⟩ ∧
      Assignment.Balanced (context.declared ports fragments).scope
        ⟨context.circuit.rangeOf range, run.bitsOf name points.length⟩ := by
  have port := carries.size?_bitsOf declared short member
  have net := measured.size?_rangeOf carries member source
  exact ⟨⟨run.width, port, net⟩, run.width, net, port⟩

theorem scope_pin (agree : context.circuit.PinsAgree)
    (own : pin ∈ context.circuit.componentsOf .pin) {port : String}
    (named : context.names.port? context.circuit.name pin.pathName = some port) :
    (context.declared ports fragments).scope port = some (port, (pin.pinWidth : Int)) := by
  have planned := (Circuit.ports_eq_ok measured.ports).2
  have entry : context.circuit.pinEntry context.names pin =
      ⟨pin.pinDirection, port, .bits pin.pinWidth⟩ := by
    rw [Circuit.pinEntry, named, Option.getD_some]
  have listed : (⟨pin.pinDirection, port, .bits pin.pinWidth⟩ : PortEntry) ∈
      context.entriesOf context.circuit := by
    rw [← entry]
    exact mem_append_right _ (mem_map_of_mem own)
  rw [measured.declared_eq]
  refine Interface.scope_of_port Wired.portless_empty listed ?_ _
  intro other present same
  obtain fixed | pins := mem_append.mp present
  · refine absurd (congrArg Text.lower same).symm (measured.apart.ne_fixed
      (Names.Apart.lower_port_mem_inside named) (Circuit.name_mem_fixedNames fixed))
  · obtain ⟨second, secondOwn, rfl⟩ := mem_map.mp pins
    obtain ⟨secondPort, secondNamed⟩ := planned second secondOwn
    rw [Circuit.pinEntry, secondNamed, Option.getD_some] at same
    have paths := measured.apart.port_inj secondNamed named (congrArg Text.lower same)
    rw [Circuit.pinEntry, agree second secondOwn pin own paths]

theorem carries_fed (home : component ∈ context.circuit.components) (fed : component.Fed points) :
    context.circuit.Carries points ∧ Word.fits points.length = true := by
  obtain ⟨e, own, rfl⟩ | ⟨fitting, loose⟩ := fed
  · exact ⟨measured.carries_end home own, measured.short component home e own⟩
  · exact ⟨loose ▸ measured.carries_loose _, fitting⟩

theorem balanced_pinPart (agree : context.circuit.PinsAgree)
    (own : pin ∈ context.circuit.componentsOf .pin) (fitting : Word.fits pin.pinWidth = true)
    (listed : assignment ∈ context.pinPart pin (context.portOf pin)) :
    assignment.Balanced (context.declared ports fragments).scope := by
  obtain ⟨port, named⟩ := (Circuit.ports_eq_ok measured.ports).2 pin own
  rw [portOf, named, Option.getD_some] at listed
  obtain ⟨run, member, made⟩ := mem_filterMap.mp listed
  obtain ⟨range, source, rfl⟩ := Option.map_eq_some_iff.mp made
  have home := (Design.mem_componentsOf.mp own).1
  have carries := (measured.carries_fed home (Component.fed_pinPoints fitting)).1
  have declared := measured.scope_pin agree own named
  have length := Component.length_pinPoints fun none => by rw [none] at member; cases member
  rw [← length] at declared fitting ⊢
  obtain ⟨taking, giving⟩ := measured.balanced_run carries fitting declared member source
  split
  · exact taking
  · exact giving

theorem active_control {control : Component}
    (own : control ∈ context.circuit.componentsOf .dynamicClock)
    (active : (context.design.dynamicClock? context.period context.circuit).map (·.id) =
      some control.id) :
    context.design.dynamicClock? context.period context.circuit = some control := by
  obtain ⟨other, found, ids⟩ := Option.map_eq_some_iff.mp active
  have listed : other ∈ context.circuit.componentsOf .dynamicClock := by
    rw [Design.dynamicClock?] at found
    split at found
    · exact mem_of_mem_head? found
    · cases found
  obtain rfl := inj_on_of_nodup_map (measured.indexed.circuits _ measured.member).componentIds
    (Design.mem_componentsOf.mp listed).1 (Design.mem_componentsOf.mp own).1 ids
  exact found

theorem net_bus (present : net ∈ context.circuit.nets) (carries : context.circuit.Carries points)
    (length : points = [] ∨ (points.length : Int) = net.width) (member : run ∈ runs points) :
    context.circuit.Carries points ∧ points.length = net.width.toNat ∧
      Word.fits points.length = true ∧ (context.declared ports fragments).scope net.signal =
        some (net.signal, (net.width.toNat : Int)) := by
  obtain rfl | length := length
  · cases member
  · refine ⟨carries, by omega, ?_, measured.scope_net present⟩
    rw [length]
    exact measured.words net present

theorem bus {name : String} {width : Nat} (bus : Bus context fragments name width points)
    (member : run ∈ runs points) : context.circuit.Carries points ∧ points.length = width ∧
      Word.fits points.length = true ∧
      (context.declared ports fragments).scope name = some (name, (width : Int)) := by
  have indexed := measured.indexed.circuits _ measured.member
  cases bus with
  | @divisor control _ active own fed length =>
    obtain ⟨carries, fitting⟩ := measured.carries_fed (Design.mem_componentsOf.mp own).1 fed
    refine ⟨carries, length, fitting, measured.scope_fixed
      ⟨.output, dynamicClockPort, .bits control.width⟩ rfl ?_⟩
    rw [Circuit.fixedEntries, measured.active_control own active]
    exact mem_append_left _ (mem_append_right _ (mem_singleton_self _))
  | wire home fed listed =>
    obtain ⟨carries, fitting⟩ := measured.carries_fed home fed
    exact ⟨carries, rfl, fitting, measured.scope_wire listed⟩
  | root present forced =>
    obtain ⟨length, _, sources, _⟩ := measured.placed.roots _ present forced
    exact measured.net_bus present (measured.carries sources) length member
  | @feed net sink target present forced found =>
    have home := (Circuit.net?_eq_some found).1
    have positive := indexed.netWidths sink home
    refine measured.net_bus home (measured.carries fun point listed =>
      feedsOf_checked indexed measured.placed present forced listed) (.inr ?_) member
    rw [feedsOf, length_map, length_range]
    omega

theorem balanced_assigned (assigned : Assigned context fragments assignment) :
    assignment.Balanced (context.declared ports fragments).scope := by
  cases assigned with
  | constant home own member source =>
    exact ⟨_, measured.size?_rangeOf (measured.carries_end home own) member source,
      Expr.size?_literal ..⟩
  | takes bus member source =>
    obtain ⟨carries, rfl, fitting, declared⟩ := measured.bus bus member
    exact (measured.balanced_run carries fitting declared member source).1
  | gives bus member source =>
    obtain ⟨carries, rfl, fitting, declared⟩ := measured.bus bus member
    exact (measured.balanced_run carries fitting declared member source).2
  | idle bus member =>
    obtain ⟨carries, rfl, fitting, declared⟩ := measured.bus bus member
    exact ⟨_, carries.size?_bitsOf declared fitting member, Expr.size?_fill ..⟩
  | @gated component points point net wire home fed inside connected found listed =>
    obtain ⟨other, again, bounds⟩ := Circuit.net?_of_checkPoint
      ((measured.carries_fed home fed).1.checked point inside) connected
    obtain rfl : net = other := Option.some.inj (found.symm.trans again)
    have present := (Circuit.net?_eq_some found).1
    have single := Expr.size?_bitsOf (measured.scope_width present)
      (measured.words net present) ⟨bounds.1, Int.le_refl point.bit, bounds.2⟩
    rw [Int.sub_self] at single
    exact ⟨Clock.busWidth, Expr.size?_signal (measured.scope_wire listed), size?_gatedBus _ single⟩

theorem size?_clockAssignment (listed : run ∈ context.circuit.clockRuns)
    (source : run.source = some range)
    (made : context.circuit.clockAssignment? run = some assignment) :
    assignment.target.size? (context.declared ports fragments).scope = some run.width ∧
      assignment.source.size? (context.declared ports fragments).scope =
        some (if (context.circuit.treeOf? range).isSome then 1 else run.width) := by
  obtain ⟨component, own, listed⟩ := mem_flatMap.mp listed
  obtain ⟨first, ahead, member⟩ := mem_flatMap.mp listed
  have inside := mem_of_mem_head? (Option.mem_toList.mp ahead)
  have carries := measured.carries_end (Design.mem_componentsOf.mp own).1 inside
  rw [Circuit.clockAssignment?, source, Option.map_some] at made
  obtain rfl := Option.some.inj made
  refine ⟨measured.size?_rangeOf carries member source, ?_⟩
  cases belongs : context.circuit.treeOf? range with
  | none => exact Expr.size?_fill ..
  | some tree =>
    obtain ⟨net, found, same⟩ := Option.bind_eq_some_iff.mp belongs
    have present := (Circuit.net?_eq_some found).1
    have listed := measured.mem_treeIds present same
    have declared := measured.scope_tree listed
    simp [Expr.size?, Expr.bits?, Scope.select?, declared, Clock.busWidth, length_rangeBits,
      Clock.BusSignal.position]

end Measured

namespace Measured

variable (measured : context.Measured ports fragments) (agree : context.circuit.PinsAgree)
  {sections : List BodySection} (made : Yields context.sections (sections, fragments))
include measured agree made

theorem exists_assignments : ∃ others, BodySection.assignments sections =
    context.circuit.clockRuns.filterMap context.circuit.clockAssignment? ++ others ∧
      ∀ assignment ∈ others, assignment.Balanced (context.declared ports fragments).scope := by
  obtain ⟨before, after, parts, assigned⟩ := exists_assigned made
  obtain ⟨early, late⟩ := forall_mem_append.mp assigned
  refine ⟨_, parts, ?_⟩
  simp only [forall_mem_append]
  refine ⟨fun _ listed => measured.balanced_assigned (early _ listed), fun _ listed => ?_,
    fun _ listed => measured.balanced_assigned (late _ listed)⟩
  obtain ⟨pin, own, listed⟩ := mem_flatMap.mp listed
  exact measured.balanced_pinPart agree own (fits_pinWidth made own) listed

theorem sized_assignments : ∀ assignment ∈ BodySection.assignments sections,
    assignment.Sized (context.declared ports fragments).scope := by
  obtain ⟨others, parts, balanced⟩ := measured.exists_assignments agree made
  intro assignment listed
  rw [parts] at listed
  obtain clock | other := mem_append.mp listed
  · obtain ⟨run, driven, assigned⟩ := mem_filterMap.mp clock
    obtain ⟨range, source, _⟩ := Option.map_eq_some_iff.mp assigned
    obtain ⟨target, drive⟩ := measured.size?_clockAssignment driven source assigned
    exact ⟨⟨_, target⟩, _, drive⟩
  · exact (balanced assignment other).sized

theorem balanced_assignments_iff : (∀ assignment ∈ BodySection.assignments sections,
    assignment.Balanced (context.declared ports fragments).scope) ↔
      context.circuit.ClocksSingle := by
  obtain ⟨others, parts, balanced⟩ := measured.exists_assignments agree made
  rw [parts]
  constructor
  · intro all run driven range tree source belongs
    have assigned : ∃ assignment, context.circuit.clockAssignment? run = some assignment := by
      rw [Circuit.clockAssignment?, source]
      exact ⟨_, rfl⟩
    obtain ⟨assignment, assigned⟩ := assigned
    obtain ⟨target, drive⟩ := measured.size?_clockAssignment driven source assigned
    obtain ⟨width, left, right⟩ := all assignment
      (mem_append_left _ (mem_filterMap.mpr ⟨run, driven, assigned⟩))
    rw [target, Option.some.injEq] at left
    rw [drive, belongs, Option.isSome_some, if_pos rfl, Option.some.injEq] at right
    rw [left, right]
  · intro single assignment listed
    obtain clock | other := mem_append.mp listed
    · obtain ⟨run, driven, assigned⟩ := mem_filterMap.mp clock
      obtain ⟨range, source, _⟩ := Option.map_eq_some_iff.mp assigned
      obtain ⟨target, drive⟩ := measured.size?_clockAssignment driven source assigned
      refine ⟨run.width, target, ?_⟩
      rw [drive]
      cases belongs : context.circuit.treeOf? range with
      | none => rfl
      | some tree =>
        rw [single run driven range tree source belongs]
        rfl
    · exact balanced assignment other

end Measured

variable {holds : Interface → List BodySection → List Fragment → Bool}

def makes (context : WiringContext)
    (holds : Interface → List BodySection → List Fragment → Bool) : Bool :=
  (context.circuit.ports context.design context.period context.names
      context.layouts).toOption.any fun ports =>
    (outcome context.sections []).1.toOption.any fun body =>
      !body.1.all (·.statements.isEmpty) && holds ports body.1 body.2

theorem exists_of_makes (made : context.makes holds = true) (dialect : Dialect) :
    ∃ unit ports sections fragments, Yields (context.unit dialect) unit ∧
      context.Writes dialect unit ports sections fragments ∧
      holds ports sections fragments = true := by
  cases declared : context.circuit.ports context.design context.period context.names
      context.layouts with
  | error failure => rw [makes, declared] at made; cases made
  | ok ports =>
    cases ran : outcome context.sections [] with
    | mk given later =>
      cases given with
      | error failure => rw [makes, declared, ran] at made; cases made
      | ok body =>
        obtain ⟨sections, fragments⟩ := body
        rw [makes, declared, ran] at made
        obtain ⟨filled, holds⟩ := Bool.and_eq_true_iff.mp made
        rw [Bool.not_eq_true'] at filled
        refine ⟨_, ports, sections, fragments, ⟨[], later, ?_⟩, ⟨declared, ⟨[], later, ran⟩, rfl⟩,
          holds⟩
        simp only [WiringContext.unit, declared, pure_bind]
        rw [outcome_bind, outcome_tryCatch ran]
        simp only [filled]
        rfl

end WiringContext

namespace Design

variable {draft : Draft} {design : Design} {settings target : Settings} {names : Names}
  {circuit : Circuit} {layouts : Layouts} {module : String} {unit : DesignUnit}

section Measured

variable (checked : draft.check = .ok design) (planned : (design.plan settings).1 = .ok names)
  (member : circuit ∈ design.circuits) (words : ∀ net ∈ circuit.nets, Word.fits net.width = true)
  (short : ∀ component ∈ circuit.components, ∀ e ∈ component.ends,
    Word.fits e.points.length = true)
include checked planned member words short

theorem measured_of_sections {ports : Interface} {sections : List BodySection}
    {fragments : List Fragment}
    (declared : circuit.ports design target.period names layouts = .ok ports)
    (wired : Yields (design.wiring target names layouts circuit module).sections
      (sections, fragments)) :
    (design.wiring target names layouts circuit module).Measured ports fragments := by
  have linked := Draft.linked_of_check checked
  obtain ⟨_, _, _, _, _, _, _, _, instances, _⟩ := WiringContext.exists_parts wired
  exact ⟨⟨Draft.indexed_of_check checked, linked, member, apart_of_plan linked planned, declared,
      instances⟩, Draft.placed_of_check checked circuit member, words, short⟩

theorem exists_measured
    (made : Yields ((design.wiring target names layouts circuit module).unit target.dialect) unit) :
    ∃ ports sections fragments, let context := design.wiring target names layouts circuit module
      context.Writes target.dialect unit ports sections fragments ∧
      context.Measured ports fragments := by
  obtain ⟨ports, sections, fragments, writes⟩ := WiringContext.exists_written made
  exact ⟨ports, sections, fragments, writes,
    measured_of_sections checked planned member words short writes.declared writes.wired⟩

end Measured

/-- **Widths agree, apart from clocks.** In a circuit of a planned design that is made, every
expression that is assigned or assigned to selects inside the widths that the module declares. Both
sides of every assignment have equally many bits exactly if the clock components drive single bits
of the nets that belong to clock trees. Pins that share a path element must have one width, since
they share a port. -/
theorem assignments_balanced_iff (checked : draft.check = .ok design)
    (planned : (design.plan settings).1 = .ok names) (member : circuit ∈ design.circuits)
    (words : ∀ net ∈ circuit.nets, Word.fits net.width = true)
    (short : ∀ component ∈ circuit.components, ∀ e ∈ component.ends,
      Word.fits e.points.length = true)
    (agree : circuit.PinsAgree)
    (made : Yields ((design.wiring target names layouts circuit module).unit target.dialect) unit) :
    ∃ ports sections fragments,
      let context := design.wiring target names layouts circuit module
      let scope := (context.declared ports fragments).scope
      context.Writes target.dialect unit ports sections fragments ∧
      (∀ assignment ∈ BodySection.assignments sections, assignment.Sized scope) ∧
      ((∀ assignment ∈ BodySection.assignments sections, assignment.Balanced scope) ↔
        circuit.ClocksSingle) := by
  obtain ⟨ports, sections, fragments, writes, measured⟩ :=
    exists_measured checked planned member words short made
  exact ⟨ports, sections, fragments, writes, measured.sized_assignments agree writes.wired,
    measured.balanced_assignments_iff agree writes.wired⟩

/-- A clock of one bit, a constant, an output pin, a net with an explicit driver and a register
behind wires of its own: all widths agree. -/
theorem assignments_balanced_register :
    let nets : List Net := [⟨0, 1, false, [], [], some 0⟩, ⟨1, 4, false, [], [], none⟩,
      ⟨2, 3, true, [⟨1, 3⟩, ⟨1, 2⟩, .unconnected], [], none⟩]
    let components : List Component := [
      ⟨1, .clock, [], [⟨"Out", true, [⟨0, 0⟩]⟩], ""⟩,
      ⟨2, .constant, [("value", "5")], [⟨"Out", true, [⟨1, 0⟩, ⟨1, 1⟩]⟩], ""⟩,
      ⟨3, .pin, [("label", "q"), ("output", "true")], [⟨"q", false, [⟨2, 2⟩, ⟨1, 0⟩]⟩], ""⟩,
      ⟨4, .register, [("width", "2")], [⟨"D", false, [⟨1, 1⟩, ⟨1, 0⟩]⟩,
        ⟨"Clock", false, [⟨0, 0⟩]⟩, ⟨"Q", true, [⟨1, 2⟩, ⟨1, 3⟩]⟩], ""⟩]
    let main : Circuit := ⟨"main", nets, components, none⟩
    let design : Design := ⟨"d", "main", [main], [⟨0, 1, 1, 0⟩]⟩
    ∃ names unit ports sections fragments,
      let context := design.wiring {} names design.layouts main "main"
      (design.plan {}).1 = .ok names ∧ Yields (context.unit .vhdl) unit ∧
      context.Writes .vhdl unit ports sections fragments ∧
      ∀ assignment ∈ BodySection.assignments sections,
        assignment.Balanced (context.declared ports fragments).scope := by
  intro nets components main design
  have checked : Draft.check ⟨"d", "main", [some ⟨"main", nets, components.map some, none⟩],
      [⟨0, 1, 1, 0⟩]⟩ = .ok design := by rfl
  have gives : (design.plan {}).1.toOption.any (fun names => (Reporting.outcome
      ((design.wiring {} names design.layouts main "main").unit .vhdl) []).1.toOption.isSome) =
      true := by decide +kernel
  have driven : main.clockRuns = [⟨0, 0, some ⟨0, 0, 0⟩⟩] := by decide +kernel
  have single : main.ClocksSingle := by
    intro run listed range tree _ _
    rw [driven, List.mem_singleton] at listed
    rw [listed]
    rfl
  obtain ⟨names, planned, gives⟩ := exists_ok_of_any gives
  obtain ⟨unit, made⟩ := exists_yields gives
  obtain ⟨ports, sections, fragments, writes, _, balanced⟩ :=
    assignments_balanced_iff checked planned (List.mem_singleton_self main) (by decide)
      (by decide) (by decide +kernel) made
  exact ⟨names, unit, ports, sections, fragments, planned, made, writes, balanced.mpr single⟩

/-- A clock component that drives a bus of two bits, above a circuit with two pins of one label. The
single bit of the clock is assigned to the whole bus, and the narrow net inside takes all bits of
the port that it shares with the wide one. -/
theorem clock_assigned_to_bus :
    let bus : Net := ⟨1, 2, false, [], [], some 0⟩
    let clock : Component := ⟨1, .clock, [], [⟨"Out", true, [⟨1, 0⟩, ⟨1, 1⟩]⟩], ""⟩
    let use : Component := ⟨2, .subcircuit, [], [], "inner"⟩
    let nets : List Net := [⟨1, 1, false, [], [], none⟩, ⟨2, 2, false, [], [], none⟩]
    let pin (id : Int) (points : List Point) : Component :=
      ⟨id, .pin, [("label", "a")], [⟨"x", false, points⟩], ""⟩
    let main : Circuit := ⟨"main", [bus], [clock, use], none⟩
    let inner : Circuit := ⟨"inner", nets, [pin 1 [⟨1, 0⟩], pin 2 [⟨2, 0⟩, ⟨2, 1⟩]], none⟩
    let design : Design := ⟨"d", "main", [main, inner], [⟨0, 1, 1, 0⟩]⟩
    Draft.check ⟨"d", "main", [some ⟨"main", [bus], [some clock, some use], none⟩,
        some ⟨"inner", nets, [some (pin 1 [⟨1, 0⟩]), some (pin 2 [⟨2, 0⟩, ⟨2, 1⟩])], none⟩],
        [⟨0, 1, 1, 0⟩]⟩ = .ok design ∧
      ∃ names, (design.plan {}).1 = .ok names ∧
        ∀ entry ∈ [(main, 2, 1), (inner, 1, 2)], ∃ unit ports sections fragments,
          let context := design.wiring {} names design.layouts entry.1 entry.1.name
          let scope := (context.declared ports fragments).scope
          Yields (context.unit .vhdl) unit ∧ context.Writes .vhdl unit ports sections fragments ∧
          ∃ assignment ∈ BodySection.assignments sections,
            assignment.target.size? scope = some entry.2.1 ∧
            assignment.source.size? scope = some entry.2.2 := by
  intro bus clock use nets pin main inner design
  refine ⟨rfl, ?_⟩
  have gives : (design.plan {}).1.toOption.any (fun names =>
      [(main, 2, 1), (inner, 1, 2)].all fun entry =>
        (design.wiring {} names design.layouts entry.1 entry.1.name).makes
          fun ports sections fragments =>
            let scope :=
              ((design.wiring {} names design.layouts entry.1 entry.1.name).declared ports
              fragments).scope
            decide (∃ assignment ∈ BodySection.assignments sections,
              assignment.target.size? scope = some entry.2.1 ∧
              assignment.source.size? scope = some entry.2.2)) = true := by decide +kernel
  obtain ⟨names, planned, gives⟩ := exists_ok_of_any gives
  rw [List.all_eq_true] at gives
  refine ⟨names, planned, fun entry listed => ?_⟩
  obtain ⟨unit, ports, sections, fragments, made, writes, holds⟩ :=
    WiringContext.exists_of_makes (gives entry listed) .vhdl
  exact ⟨unit, ports, sections, fragments, made, writes, of_decide_eq_true holds⟩

end Design

end Schematic
