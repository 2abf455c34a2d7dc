import Schematic.Proofs.Circuit.Coalescing
import Schematic.Proofs.Circuit.Words

/-! # Output pins

Every bit of an output pin is assigned once or named by one warning, unless the pin has an end
without points. -/

open List

namespace Schematic

open Hdl

namespace Reporting

variable {α β : Type} {holds : Message → Prop}

/-- A computation that only adds messages of one kind if it succeeds. -/
def Adds (holds : Message → Prop) (computation : Reporting α) : Prop :=
  ∀ earlier result later, outcome computation earlier = (.ok result, later) →
    ∃ added, later = earlier ++ added ∧ ∀ message ∈ added, holds message

theorem adds_pure (value : α) : Adds holds (pure value) := by
  rintro earlier result later made
  cases made
  exact ⟨[], (append_nil _).symm, by simp⟩

theorem adds_throw (failure : Failure) : Adds holds (throw failure : Reporting α) := by
  rintro earlier result later made
  cases made

theorem adds_throw_bind (failure : Failure) (next : α → Reporting β) :
    Adds holds (throw failure >>= next) := by
  rintro earlier result later made
  cases made

theorem adds_report {message : Message} (fits : holds message) : Adds holds (report message) := by
  rintro earlier result later made
  cases made
  exact ⟨[message], rfl, by simpa using fits⟩

theorem Adds.bind {computation : Reporting α} {next : α → Reporting β}
    (first : Adds holds computation) (rest : ∀ value, Adds holds (next value)) :
    Adds holds (computation >>= next) := by
  rintro earlier result later made
  obtain ⟨value, between, here, there⟩ := exists_of_bind made
  obtain ⟨added, rfl, each⟩ := first _ _ _ here
  obtain ⟨more, rfl, others⟩ := rest value _ _ _ there
  exact ⟨added ++ more, append_assoc .., forall_mem_append.mpr ⟨each, others⟩⟩

theorem composes_adds : Composes (Adds holds) :=
  ⟨adds_pure, Adds.bind⟩

variable {earlier later : List Message}

theorem exists_outcome {computation : Reporting α}
    (gives : (outcome computation earlier).1.toOption.isSome = true)
    (said : (outcome computation earlier).2 = later) :
    ∃ result, outcome computation earlier = (.ok result, later) := by
  cases ran : outcome computation earlier with
  | mk given messages =>
    rw [ran] at gives said
    cases given with
    | error failure => cases gives
    | ok result => exact ⟨result, congrArg _ said⟩

theorem messages_concat {step : α → Reporting (List β)} {said : α → List Message} {items : List α}
    (each : ∀ item ∈ items, ∀ earlier part later, outcome (step item) earlier = (.ok part, later) →
      later = earlier ++ said item) {results : List β}
    (made : outcome (concat step items) earlier = (.ok results, later)) :
    later = earlier ++ items.flatMap said := by
  induction items generalizing earlier results later with
  | nil =>
    cases made
    exact (append_nil _).symm
  | cons item items ih =>
    obtain ⟨here, others⟩ := forall_mem_cons.mp each
    obtain ⟨first, between, one, made⟩ := exists_of_bind made
    obtain ⟨rest, last, two, made⟩ := exists_of_bind made
    obtain rfl := here _ _ _ one
    obtain rfl := ih others two
    cases made
    exact append_assoc ..

end Reporting

open Reporting

/-- A message that begins with the reference of a component of known kind. -/
def Message.Refers (message : Message) : Prop :=
  ∃ component : Component, component.kind.isKnown = true ∧
    ∃ rest, message.text = component.reference ++ rest

namespace WiringContext

variable {context : WiringContext} {component : Component} {label : String}

theorem adds_floating (width : Nat) : Adds Message.Refers (floating width) := by
  rw [floating]
  split
  · exact adds_pure _
  · exact adds_throw _

theorem adds_clockRun (known : component.kind.isKnown = true) (run : Run) :
    Adds Message.Refers (context.clockRun component run) := by
  rw [clockRun]
  split
  · split
    · exact adds_pure _
    · exact (adds_report ⟨component, known, _, rfl⟩).bind fun _ => adds_pure _
  · exact adds_pure _

theorem adds_dynamicClock (known : ∀ component ∈ context.circuit.components,
    component.kind.isKnown = true) : Adds Message.Refers context.dynamicClock := by
  refine composes_adds.concat fun control listed => ?_
  split
  · exact (adds_floating _).bind fun _ => adds_pure _
  · have home := (Design.mem_componentsOf.mp listed).1
    exact (adds_report ⟨control, known control home, _, rfl⟩).bind fun _ => adds_pure _

theorem adds_forcedRoots : Adds Message.Refers context.forcedRoots := by
  refine composes_adds.concat fun net _ =>
    (composes_adds.concat fun target _ => ?_).bind fun _ => adds_pure _
  rw [feedNet]
  split
  · exact (adds_floating _).bind fun _ => adds_pure _
  · exact adds_pure _

theorem adds_labelOf : Adds Message.Refers (context.labelOf component) := by
  rw [labelOf]
  split
  · exact adds_pure _
  · exact adds_throw _

theorem adds_leafPort (known : component.kind.isKnown = true) (port : PortBinding) :
    Adds Message.Refers (context.leafPort component label port) := by
  simp only [leafPort, clockBus]
  split
  · split
    · split
      · exact (adds_report ⟨component, known, _, rfl⟩).bind fun _ => adds_pure _
      · split
        · split
          · exact adds_pure _
          · exact (adds_report ⟨component, known, _, rfl⟩).bind fun _ => adds_pure _
        · exact adds_pure _
    · exact adds_throw _
  · split
    · exact adds_pure _
    · exact adds_throw _

theorem adds_leaf (known : component.kind.isKnown = true) :
    Adds Message.Refers (context.leaf component) := by
  simp only [leaf]
  refine adds_labelOf.bind fun label => ?_
  split
  · exact adds_throw _
  · exact (composes_adds.mapM fun port _ => adds_leafPort known port).bind fun _ => adds_pure _

theorem adds_pinPort (inner : Circuit) (pin : Component) :
    Adds Message.Refers (context.pinPort component label inner pin) := by
  simp only [pinPort]
  refine (adds_floating _).bind fun loose => ?_
  split
  on_goal 2 => split
  on_goal 3 => exact adds_throw_bind _ _
  all_goals
    refine (adds_pure _).bind fun points => ?_
    split
    · exact adds_pure _
    · exact adds_throw _

theorem adds_subcircuit (known : component.kind.isKnown = true) :
    Adds Message.Refers (context.subcircuit component) := by
  simp only [subcircuit]
  refine adds_labelOf.bind fun label => ?_
  split
  case h_2 => exact adds_throw _
  case h_1 inner _ =>
    split
    case h_2 => exact adds_throw _
    case h_1 =>
      split
      case h_2 => exact adds_throw_bind _ _
      case h_1 =>
        refine (adds_pure _).bind fun _ =>
          (composes_adds.mapM fun pin _ => adds_pinPort _ pin).bind fun _ =>
          (composes_adds.forM fun e _ => adds_report ⟨component, known,
            ": end " ++ (e.name ++ (" matches no pin of circuit " ++ inner.name)), ?_⟩).bind
            fun _ => adds_pure _
        simp only [String.append_assoc]

theorem adds_instances (known : ∀ component ∈ context.circuit.components,
    component.kind.isKnown = true) : Adds Message.Refers context.instances := by
  refine composes_adds.concat fun component listed => ?_
  split
  · exact (adds_subcircuit (known component listed)).bind fun _ => adds_pure _
  · split
    · exact adds_pure _
    · exact (adds_leaf (known component listed)).bind fun _ => adds_pure _

theorem adds_clockSources (known : ∀ component ∈ context.circuit.components,
    component.kind.isKnown = true) : Adds Message.Refers context.clockSources := by
  refine composes_adds.concat fun component listed => ?_
  split
  · exact adds_pure _
  · exact composes_adds.concat fun run _ =>
      adds_clockRun (known component (Design.mem_componentsOf.mp listed).1) run

end WiringContext

namespace Component

/-- The ranges of a pin that no net feeds. -/
def pinGaps (pin : Component) : List Run :=
  (runs pin.pinPoints).filter (·.isGap)

/-- A pin whose end has no points has a port all the same. -/
def IsHollow (pin : Component) : Prop := pin.pinPoints = []

end Component

namespace WiringContext

variable {context : WiringContext} {pin : Component} {port : String}

/-- What is reported for a range of an output pin that no net feeds. -/
def undriven (context : WiringContext) (port : String) (run : Run) : Message :=
  ⟨.warning, context.circuit.name, context.module,
    "output pin " ++ port ++ ": " ++ run.bits ++ " not driven"⟩

/-- One warning for each gap of an output pin. -/
def pinWarnings (context : WiringContext) (pin : Component) (port : String) : List Message :=
  if pin.isOutputPin then pin.pinGaps.map (context.undriven port) else []

variable {earlier later : List Message}

theorem messages_pinRun {run : Run} {part : List Assignment}
    (made : outcome (context.pinRun pin port run) earlier = (.ok part, later)) :
    later = earlier ++
      if pin.isOutputPin && run.isGap then [context.undriven port run] else [] := by
  cases source : run.source with
  | none =>
    cases output : pin.isOutputPin <;> simp only [pinRun, source, output] at made <;> cases made <;>
      simp [Run.isGap, source, undriven]
  | some range =>
    simp only [pinRun, source] at made
    cases made
    simp [Run.isGap, source]

theorem messages_pins {pins : List Assignment}
    (made : outcome context.pins earlier = (.ok pins, later)) :
    later = earlier ++ (context.circuit.componentsOf .pin).flatMap fun pin =>
      context.pinWarnings pin (context.portOf pin) := by
  refine messages_concat (fun pin _ earlier part later made => ?_) made
  obtain ⟨loose, between, floats, rest⟩ := exists_of_bind made
  obtain ⟨_, rfl⟩ := yields_floating ⟨_, _, floats⟩
  obtain rfl : between = earlier := by
    simp only [floating] at floats
    split at floats <;> cases floats
    rfl
  change outcome (Reporting.concat (context.pinRun pin (context.portOf pin))
    (runs pin.pinPoints)) between = _ at rest
  obtain rfl := messages_concat (fun run _ _ _ _ made => messages_pinRun made) rest
  refine congrArg (between ++ ·) ?_
  cases output : pin.isOutputPin with
  | false => simp [pinWarnings, output]
  | true =>
    rw [pinWarnings, output, if_pos rfl, Component.pinGaps]
    generalize runs pin.pinPoints = found
    induction found with
    | nil => rfl
    | cons run found ih =>
      rw [flatMap_cons, ih, filter_cons]
      cases run.isGap <;> rfl

end WiringContext

section Gaps

variable {points : List Point} {position : Nat}

/-- Whether a run holds a bit. -/
def Run.covers (position : Nat) (run : Run) : Bool :=
  run.low ≤ position && position ≤ run.high

variable {found : List Run} {run : Run} {point : Point}

theorem Coalesces.length_filter_covers {start : Nat} (coalesces : Coalesces points start found)
    (above : start ≤ position) (inside : position < points.length) :
    (found.filter (Run.covers position)).length = 1 := by
  have counted : ∀ runs : List Run, (∀ run ∈ runs, run.low ≤ run.high) →
      (runs.flatMap fun run => List.range' run.low run.width).count position =
        (runs.filter (Run.covers position)).length := by
    intro runs ordered
    induction runs with
    | nil => rfl
    | cons run runs ih =>
      obtain ⟨first, others⟩ := forall_mem_cons.mp ordered
      have own : (List.range' run.low run.width).count position =
          if run.covers position then 1 else 0 := by
        rw [Nodup.count nodup_range']
        simp only [mem_range'_1, Run.width, Run.covers, Bool.and_eq_true, decide_eq_true_eq]
        congr 1
        simp only [eq_iff_iff]
        omega
      rw [flatMap_cons, count_append, ih others, own, filter_cons]
      split
      · exact Nat.add_comm ..
      · exact Nat.zero_add _
  rw [← counted found coalesces.ordered, coalesces.tiles, Nodup.count nodup_range']
  exact if_pos (mem_range'_1.mpr (by omega))

/-- A range of unconnected points that no unconnected point borders. -/
structure IsGap (points : List Point) (low high : Nat) : Prop where
  ordered : low ≤ high
  loose : ∀ position, low ≤ position → position ≤ high →
    ∃ point, points[position]? = some point ∧ point.isConnected = false
  below : ∀ point, 0 < low → points[low - 1]? = some point → point.isConnected = true
  above : ∀ point, points[high + 1]? = some point → point.isConnected = true

variable (words : ∀ point ∈ points, Word.fits point.bit = true)
include words

theorem isGap_iff_of_covers (member : run ∈ runs points) (covers : run.covers position = true)
    (here : points[position]? = some point) : run.isGap = !point.isConnected := by
  simp only [Run.covers, Bool.and_eq_true, decide_eq_true_eq] at covers
  have told := (coalesces_runs words).tells run (mem_reverse.mpr member) position point here
    covers.1 covers.2
  cases source : run.source <;> cases connected : point.isConnected <;>
    simp_all [Run.isGap, Run.fed?, Option.guard]

theorem length_filter_gaps (here : points[position]? = some point) :
    (((runs points).filter (·.isGap)).filter (Run.covers position)).length =
      if point.isConnected then 0 else 1 := by
  obtain ⟨inside, _⟩ := List.getElem?_eq_some_iff.mp here
  have one := (coalesces_runs words).length_filter_covers (Nat.zero_le _) inside
  rw [filter_reverse, length_reverse] at one
  rw [filter_comm]
  have gap : ∀ run ∈ (runs points).filter (Run.covers position),
      run.isGap = !point.isConnected := fun run listed =>
    isGap_iff_of_covers words (mem_filter.mp listed).1 (mem_filter.mp listed).2 here
  cases connected : point.isConnected with
  | true =>
    rw [filter_eq_nil_iff.mpr fun run listed => by simp [gap run listed, connected]]
    rfl
  | false =>
    rw [filter_eq_self.mpr fun run listed => by simp [gap run listed, connected], one]
    rfl

omit words in
/-- At a cut one of the neighbours is connected. -/
theorem IsCut.connected {lower upper : Point} (cut : IsCut points (position + 1))
    (here : points[position]? = some lower) (above : points[position + 1]? = some upper)
    (loose : lower.isConnected = false) : upper.isConnected = true := by
  obtain ⟨below, first, second, same, one, two, apart⟩ := cut
  obtain rfl : position = below := by omega
  obtain rfl := Option.some.inj (here.symm.trans one)
  obtain rfl := Option.some.inj (above.symm.trans two)
  by_contra free
  simp_all [Point.Joins]

omit words in
theorem Coalesces.isCut (coalesces : Coalesces points 0 found) (member : run ∈ found)
    (positive : 0 < run.low) : IsCut points run.low := by
  cases found with
  | nil => cases member
  | cons lowest rest =>
    obtain rfl | member := mem_cons.mp member
    · have none := coalesces.first run rfl
      omega
    · exact coalesces.cuts run member

theorem isGap_of_mem (member : run ∈ (runs points).filter (·.isGap)) :
    IsGap points run.low run.high := by
  have coalesces := coalesces_runs words
  obtain ⟨member, gap⟩ := mem_filter.mp member
  have listed := mem_reverse.mpr member
  have ordered := coalesces.ordered run listed
  have covers : ∀ position, run.low ≤ position → position ≤ run.high →
      run.covers position = true := fun position above below => by simp [Run.covers, above, below]
  have bounded : run.high < points.length := by
    have covered : run.high ∈ (runs points).reverse.flatMap fun run =>
        List.range' run.low run.width :=
      mem_flatMap.mpr ⟨run, listed, mem_range'_1.mpr (by rw [Run.width]; omega)⟩
    rw [coalesces.tiles, mem_range'_1] at covered
    omega
  have loose : ∀ position point, run.low ≤ position → position ≤ run.high →
      points[position]? = some point → point.isConnected = false := by
    intro position point above below here
    rw [isGap_iff_of_covers words member (covers position above below) here] at gap
    simpa using gap
  refine ⟨ordered, fun position above below => ?_, fun point positive here => ?_,
    fun point here => ?_⟩
  · have here := getElem?_eq_getElem (Nat.lt_of_le_of_lt below bounded)
    exact ⟨_, here, loose position _ above below here⟩
  · have cut := coalesces.isCut listed positive
    obtain ⟨position, low⟩ := Nat.exists_eq_succ_of_ne_zero (Nat.ne_of_gt positive)
    rw [low] at cut here
    have next := getElem?_eq_getElem (show position + 1 < points.length by omega)
    by_contra free
    have connected := cut.connected here next (by simpa using free)
    rw [loose (position + 1) _ (by omega) (by omega) next] at connected
    cases connected
  · obtain ⟨inside, _⟩ := List.getElem?_eq_some_iff.mp here
    obtain ⟨other, present, low, high⟩ := exists_run_at coalesces (Nat.zero_le _) inside
    obtain begins | overlaps := Nat.eq_or_lt_of_le low
    · have cut := coalesces.isCut present (by omega)
      rw [begins] at cut
      have last := getElem?_eq_getElem bounded
      exact cut.connected last here (loose _ _ ordered (Nat.le_refl _) last)
    · -- The run behind would hold the last bit of this one too.
      have one := coalesces.length_filter_covers (Nat.zero_le _) bounded
      obtain ⟨only, alone⟩ := length_eq_one_iff.mp one
      have first := mem_filter.mpr ⟨listed, covers _ ordered (Nat.le_refl _)⟩
      have second := mem_filter.mpr ⟨present, show other.covers run.high = true by
        simp only [Run.covers, Bool.and_eq_true, decide_eq_true_eq]; omega⟩
      rw [alone, mem_singleton] at first second
      rw [first, ← second] at high
      omega

end Gaps

namespace Assignment

variable {σ : Type} {scope : Scope σ}

/-- All the bits that are assigned to. -/
def targetBits (scope : Scope σ) (assignments : List Assignment) : List (ExprBit σ) :=
  assignments.flatMap fun assignment => (assignment.target.bits? scope).getD []

theorem exists_of_links? {assignment : Assignment} {links : List (ExprBit σ × ExprBit σ)}
    (linked : assignment.links? scope = some links) :
    assignment.target.bits? scope = some (links.map Prod.fst) := by
  rw [links?] at linked
  split at linked
  case h_2 => cases linked
  case h_1 target source spelled _ =>
    split at linked
    · cases linked
      rw [spelled, map_fst_zip (by omega)]
    · cases linked

theorem targetBits_eq {assignments : List Assignment} {links : List (ExprBit σ × ExprBit σ)}
    (linked : allLinks? scope assignments = some links) :
    targetBits scope assignments = links.map Prod.fst ∧ ∀ link ∈ links,
      ∃ assignment ∈ assignments, ∃ own, assignment.links? scope = some own ∧ link ∈ own := by
  induction assignments generalizing links with
  | nil =>
    cases linked
    exact ⟨rfl, by simp⟩
  | cons assignment assignments ih =>
    rw [allLinks?] at linked
    split at linked
    case h_2 => cases linked
    case h_1 own others first rest =>
      cases linked
      obtain ⟨bits, each⟩ := ih rest
      rw [targetBits] at bits ⊢
      rw [flatMap_cons, bits, exists_of_links? first, map_append]
      refine ⟨rfl, forall_mem_append.mpr ⟨fun link listed => ?_, fun link listed => ?_⟩⟩
      · exact ⟨assignment, mem_cons_self .., own, first, listed⟩
      · obtain ⟨other, present, found⟩ := each link listed
        exact ⟨other, mem_cons_of_mem _ present, found⟩

end Assignment

/-- The nets of a circuit and one of its ports. -/
def Circuit.portScope (circuit : Circuit) (port : String) (width : Nat) : Scope PortSignal :=
  PortMapping.scope { actual := none, wire := some (port, width) } circuit

variable {circuit : Circuit} {port : String} {pin : Component} {context : WiringContext}
  {sections : List BodySection} {fragments : List Fragment}

theorem Circuit.portScope_of_ne {name : String} (other : name ≠ port) (width : Nat) :
    circuit.portScope port width name = circuit.netScope name :=
  if_neg other

theorem wire_not_mem_bits? {width : Nat} {place : Expr} (elsewhere : place.IsPlace (· ≠ port))
    (position : Int) :
    .wired .wire position ∉ (place.bits? (circuit.portScope port width)).getD [] := by
  have range : ∀ id high low, .wired .wire position ∉ rangeBits (PortSignal.net id) high low := by
    simp [rangeBits]
  have select : ∀ name ≠ port, ∀ high low, .wired .wire position ∉
      ((circuit.portScope port width).select? name high low).getD [] := by
    intro name other high low
    rw [Scope.select?, Circuit.portScope_of_ne other, Circuit.netScope]
    cases circuit.nets.find? (·.signal == name) with
    | none => exact not_mem_nil
    | some net =>
      simp only [Option.map_some]
      split
      · exact range _ _ _
      · exact not_mem_nil
  cases elsewhere with
  | @signal name other =>
    rw [Expr.bits?, Circuit.portScope_of_ne other, Circuit.netScope]
    cases circuit.nets.find? (·.signal == name) with
    | none => exact not_mem_nil
    | some net => exact range _ _ _
  | index position other => exact select _ other _ _
  | slice high low other => exact select _ other _ _

theorem Component.forall_mem_pinPoints {holds : Point → Prop} (loose : holds Point.unconnected)
    (ends : ∀ e ∈ pin.ends, ∀ point ∈ e.points, holds point) :
    ∀ point ∈ pin.pinPoints, holds point := by
  rw [pinPoints]
  split
  case h_1 first _ form => exact ends first (form ▸ mem_cons_self ..)
  case h_2 => exact fun point listed => eq_of_mem_replicate listed ▸ loose

/-- How often a bit of a port is assigned. -/
def WiringContext.timesAssigned (context : WiringContext) (sections : List BodySection)
    (pin : Component) (port : String) (position : Nat) : Nat :=
  (Assignment.targetBits (context.circuit.portScope port pin.pinWidth)
    (BodySection.assignments sections)).count (.wired .wire position)

/-- Every bit of an output pin with points is assigned once, from the net bit that feeds it, or lies
in one of the gaps, which are the maximal unconnected ranges. -/
structure WiringContext.Accounts (context : WiringContext) (sections : List BodySection)
    (pin : Component) (port : String) : Prop where
  hollow : pin.IsHollow →
    pin.pinGaps = [] ∧ ∀ position, context.timesAssigned sections pin port position = 0
  gaps : ∀ run ∈ pin.pinGaps, IsGap pin.pinPoints run.low run.high
  bits : ¬pin.IsHollow → ∀ position < pin.pinWidth, ∃ point,
    pin.pinPoints[position]? = some point ∧
    if point.isConnected then
      context.timesAssigned sections pin port position = 1 ∧
      (∃ assignment ∈ BodySection.assignments sections, ∃ links,
        assignment.links? (context.circuit.portScope port pin.pinWidth) = some links ∧
        (.wired .wire position, .wired (.net point.net) point.bit) ∈ links) ∧
      pin.pinGaps.filter (Run.covers position) = []
    else
      context.timesAssigned sections pin port position = 0 ∧
      (pin.pinGaps.filter (Run.covers position)).length = 1

namespace WiringContext.Measured

variable {context : WiringContext} {ports : Interface} {fragments : List Fragment}
  {pin : Component} {port : String}

variable (measured : context.Measured ports fragments)
  (own : pin ∈ context.circuit.componentsOf .pin)
  (named : context.names.port? context.circuit.name pin.pathName = some port)
include measured own named

theorem ne_of_inner {name : String} (inner : looksInner name = true) : name ≠ port := by
  have listed : context.circuit.pinEntry context.names pin ∈ context.entriesOf context.circuit :=
    mem_append_right _ (mem_map_of_mem own)
  have outer :=
    Circuit.looksInner_entry measured.apart (Circuit.ports_eq_ok measured.ports).2 listed
  rw [Circuit.pinEntry, named, Option.getD_some] at outer
  rintro rfl
  rw [outer] at inner
  cases inner

theorem isPlace_assigned (filled : "" ≠ port) {assignment : Assignment}
    (assigned : Assigned context fragments assignment) : assignment.target.IsPlace (· ≠ port) := by
  refine assigned.isPlace_target filled (fun same => ?_) (fun net _ => ?_) fun wire listed => ?_
  · exact measured.apart.ne_fixed (Names.Apart.lower_port_mem_inside named)
      (by simp [fixedNames] : dynamicClockPort ∈ fixedNames context.design) (by rw [same])
  · exact measured.ne_of_inner own named net.looksInner_signal
  · obtain ⟨_, _, number, _, _, form, _⟩ := measured.exists_wire listed
    exact measured.ne_of_inner own named (form ▸ looksInner_wireOf ..)

/-- What the assignments of the pin itself link, if its end has points. -/
theorem allLinks?_pinPart (output : pin.isOutputPin = true) (solid : ¬pin.IsHollow)
    (fitting : Word.fits pin.pinWidth = true) :
    Assignment.allLinks? (context.circuit.portScope port pin.pinWidth) (context.pinPart pin port) =
      some (linksOf .wire pin.pinPoints) := by
  have carries := (measured.carries_fed (Design.mem_componentsOf.mp own).1
    (Component.fed_pinPoints fitting)).1
  have nets : ∀ net ∈ context.circuit.nets, context.circuit.portScope port pin.pinWidth net.signal =
      some (.net net.id, net.width) := by
    intro net present
    rw [Circuit.portScope_of_ne (measured.ne_of_inner own named net.looksInner_signal)]
    exact Circuit.netScope_signal carries.indexed present
  simp only [pinPart, output, if_true]
  rw [← Component.length_pinPoints solid] at fitting nets ⊢
  exact carries.allLinks?_runs fun run member range source => Assignment.links?_of_map
    (carries.bits?_bitsOf (if_pos rfl) fitting member) (carries.bits?_rangeOf nets member source)

/-- The assignments of another pin are to nets or to another port. -/
theorem isPlace_pinPart (filled : "" ≠ port) {other : Component}
    (listed : other ∈ context.circuit.componentsOf .pin) (differ : other.pathName ≠ pin.pathName) :
    ∀ assignment ∈ context.pinPart other (context.portOf other),
      assignment.target.IsPlace (· ≠ port) := by
  intro assignment made
  obtain ⟨run, _, made⟩ := mem_filterMap.mp made
  obtain ⟨range, _, rfl⟩ := Option.map_eq_some_iff.mp made
  split
  · obtain ⟨otherPort, otherNamed⟩ := (Circuit.ports_eq_ok measured.ports).2 other listed
    refine Expr.isPlace_bitsOf (fun same => ?_) _ _ _
    rw [portOf, otherNamed, Option.getD_some] at same
    exact differ (measured.apart.port_inj otherNamed named (congrArg Text.lower same))
  · exact Circuit.isPlace_rangeOf filled (fun net _ =>
      measured.ne_of_inner own named net.looksInner_signal) range

variable {sections : List BodySection}

/-- Only the pin itself assigns to its port. -/
theorem exists_own_part (filled : "" ≠ port) (differ : context.circuit.PinsDiffer)
    (made : Yields context.sections (sections, fragments)) : ∃ before after,
      BodySection.assignments sections = before ++ (context.pinPart pin port ++ after) ∧
      ∀ assignment ∈ before ++ after, assignment.target.IsPlace (· ≠ port) := by
  obtain ⟨first, last, parts, assigned⟩ := exists_assigned made
  obtain ⟨before, behind, split⟩ := append_of_mem own
  have others : ∀ other ∈ before ++ behind, ∀ assignment ∈ context.pinPart other
      (context.portOf other), assignment.target.IsPlace (· ≠ port) := by
    intro other listed
    rw [Circuit.PinsDiffer, split, map_append, map_cons, nodup_middle, nodup_cons,
      ← map_append] at differ
    refine measured.isPlace_pinPart own named filled ?_ fun same =>
      differ.1 (same ▸ mem_map_of_mem listed)
    rw [split]
    exact mem_append.mpr ((mem_append.mp listed).imp_right (mem_cons_of_mem _))
  have ported : context.portOf pin = port := by rw [portOf, named, Option.getD_some]
  let part := fun pin => context.pinPart pin (context.portOf pin)
  refine ⟨context.circuit.clockRuns.filterMap context.circuit.clockAssignment? ++
    (first ++ before.flatMap part), behind.flatMap part ++ last, ?_, ?_⟩
  · rw [parts, split, flatMap_append, flatMap_cons, ported]
    simp only [part, append_assoc]
  · simp only [part, forall_mem_append, forall_mem_flatMap] at assigned others ⊢
    refine ⟨⟨fun assignment listed => ?_, fun _ listed =>
      measured.isPlace_assigned own named filled (assigned.1 _ listed), others.1⟩, others.2,
      fun _ listed => measured.isPlace_assigned own named filled (assigned.2 _ listed)⟩
    obtain ⟨run, _, made⟩ := mem_filterMap.mp listed
    obtain ⟨_, _, rfl⟩ := Option.map_eq_some_iff.mp made
    exact Circuit.isPlace_rangeOf filled (fun net _ =>
      measured.ne_of_inner own named net.looksInner_signal) _

theorem timesAssigned_eq (filled : "" ≠ port) (differ : context.circuit.PinsDiffer)
    (made : Yields context.sections (sections, fragments)) (position : Nat) :
    context.timesAssigned sections pin port position =
    (Assignment.targetBits (context.circuit.portScope port pin.pinWidth)
      (context.pinPart pin port)).count (.wired .wire position) := by
  obtain ⟨before, after, parts, elsewhere⟩ := measured.exists_own_part own named filled differ made
  obtain ⟨early, late⟩ := forall_mem_append.mp elsewhere
  have none : ∀ assignments : List Assignment,
      (∀ assignment ∈ assignments, assignment.target.IsPlace (· ≠ port)) →
      (Assignment.targetBits (context.circuit.portScope port pin.pinWidth) assignments).count
        (.wired .wire position) = 0 := by
    intro assignments places
    refine count_eq_zero.mpr fun listed => ?_
    obtain ⟨assignment, present, inside⟩ := mem_flatMap.mp listed
    exact wire_not_mem_bits? (places assignment present) position inside
  rw [timesAssigned, parts, Assignment.targetBits, flatMap_append, flatMap_append, count_append,
    count_append, ← Assignment.targetBits, ← Assignment.targetBits, ← Assignment.targetBits,
    none _ early, none _ late, Nat.zero_add, Nat.add_zero]

theorem count_pinPart (output : pin.isOutputPin = true) (solid : ¬pin.IsHollow)
    (fitting : Word.fits pin.pinWidth = true) {position : Nat} {point : Point}
    (here : pin.pinPoints[position]? = some point) :
    (Assignment.targetBits (context.circuit.portScope port pin.pinWidth)
      (context.pinPart pin port)).count (.wired .wire position) =
        if point.isConnected then 1 else 0 := by
  have linked := measured.allLinks?_pinPart own named output solid fitting
  rw [(Assignment.targetBits_eq linked).1, Nodup.count (nodup_linksOf ..)]
  congr 1
  simp only [mem_map, mem_linksOf, eq_iff_iff]
  constructor
  · rintro ⟨_, ⟨bit, other, there, connected, rfl⟩, same⟩
    obtain rfl : bit = position := Int.ofNat_inj.mp (by simpa using same)
    rwa [Option.some.inj (here.symm.trans there)]
  · exact fun connected => ⟨_, ⟨position, point, here, connected, rfl⟩, rfl⟩

theorem accounts (filled : "" ≠ port) (differ : context.circuit.PinsDiffer)
    (made : Yields context.sections (sections, fragments)) (output : pin.isOutputPin = true)
    (bits : ∀ point ∈ pin.pinPoints, Word.fits point.bit = true) :
    context.Accounts sections pin port := by
  have times := measured.timesAssigned_eq own named filled differ made
  refine ⟨fun hollow => ?_, fun run listed => isGap_of_mem bits listed,
    fun solid position below => ?_⟩
  · have none : runs pin.pinPoints = [] := by rw [hollow]; rfl
    refine ⟨by rw [Component.pinGaps, none]; rfl, fun position => ?_⟩
    rw [times, pinPart, none]
    rfl
  · rw [← Component.length_pinPoints solid] at below
    have here := getElem?_eq_getElem below
    have fitting := fits_pinWidth made own
    have once := measured.count_pinPart own named output solid fitting here
    have reported := length_filter_gaps bits here
    refine ⟨_, here, ?_⟩
    rw [times]
    split
    case isTrue connected =>
      rw [if_pos connected] at once reported
      refine ⟨once, ?_, length_eq_zero_iff.mp reported⟩
      have linked := measured.allLinks?_pinPart own named output solid fitting
      obtain ⟨assignment, listed, found⟩ := (Assignment.targetBits_eq linked).2 _
        (mem_linksOf.mpr ⟨position, _, here, connected, rfl⟩)
      obtain ⟨before, after, parts, _⟩ := measured.exists_own_part own named filled differ made
      exact ⟨assignment, parts ▸ mem_append_right _ (mem_append_left _ listed), found⟩
    case isFalse loose =>
      rw [if_neg loose] at once reported
      exact ⟨once, reported⟩

end WiringContext.Measured

theorem WiringContext.exists_messages {earlier later : List Message}
    (known : ∀ component ∈ context.circuit.components, component.kind.isKnown = true)
    (made : outcome context.sections earlier = (.ok (sections, fragments), later)) :
    ∃ before after, later = earlier ++ (before ++ (context.circuit.componentsOf .pin).flatMap
      (fun pin => context.pinWarnings pin (context.portOf pin)) ++ after) ∧
      ∀ message ∈ before ++ after, message.Refers := by
  obtain ⟨_, _, _, _, _, _, _, _, clocked, divided, pinned, rooted, instances, _⟩ :=
    exists_steps made
  obtain ⟨first, rfl, fromClocks⟩ := adds_clockSources known _ _ _ clocked
  obtain ⟨second, rfl, fromDivisors⟩ := adds_dynamicClock known _ _ _ divided
  obtain rfl := messages_pins pinned
  obtain ⟨third, rfl, fromRoots⟩ := adds_forcedRoots _ _ _ rooted
  obtain ⟨fourth, rfl, fromInstances⟩ := adds_instances known _ _ _ instances
  refine ⟨first ++ second, third ++ fourth, by simp only [append_assoc], ?_⟩
  simp only [forall_mem_append]
  exact ⟨⟨fromClocks, fromDivisors⟩, fromRoots, fromInstances⟩

theorem Message.Refers.not_output {message : Message} (refers : message.Refers) :
    ¬"output pin ".toList <+: message.text.toList := by
  obtain ⟨component, known, rest, text⟩ := refers
  rw [text, Component.reference]
  cases kind : component.kind with
  | unknown name => rw [kind] at known; cases known
  | _ => simp [Kind.name, List.cons_prefix_cons]

namespace Design

variable {draft : Draft} {design : Design} {settings target : Settings} {names : Names}
  {circuit : Circuit} {layouts : Layouts} {module : String} {unit : DesignUnit}

/-- **No output bit is lost, apart from hollow pins.** In a circuit of a design that was planned
without a fatal message, every bit of the port of an output pin is assigned exactly once, from the
net bit that feeds it, or lies in exactly one of the gaps that are reported, one warning for each.
A pin whose end has no points gets a port without either. -/
theorem output_pins_driven_or_reported (checked : draft.check = .ok design)
    (planned : (design.plan settings).1 = .ok names)
    (clean : ∀ message ∈ (design.plan settings).2, message.severity ≠ .fatal)
    (member : circuit ∈ design.circuits) (named : names.circuit? circuit.name = some module)
    (words : ∀ net ∈ circuit.nets, Word.fits net.width = true)
    (short : ∀ component ∈ circuit.components, ∀ e ∈ component.ends,
      Word.fits e.points.length = true ∧ ∀ point ∈ e.points, Word.fits point.bit = true)
    {earlier later : List Message}
    (made : Reporting.outcome ((design.wiring target names layouts circuit module).unit
      target.dialect) earlier = (.ok unit, later)) :
    ∃ ports sections fragments before after,
      let context := design.wiring target names layouts circuit module
      context.Writes target.dialect unit ports sections fragments ∧
      later = earlier ++ (before ++ (circuit.componentsOf .pin).flatMap (fun pin =>
        context.pinWarnings pin (context.portOf pin)) ++ after) ∧
      (∀ message ∈ before ++ after, ¬"output pin ".toList <+: message.text.toList) ∧
      ∀ pin ∈ circuit.componentsOf .pin, pin.isOutputPin = true → ∃ port,
        names.port? circuit.name pin.pathName = some port ∧
        (context.declared ports fragments).scope port = some (port, (pin.pinWidth : Int)) ∧
        context.Accounts sections pin port := by
  obtain ⟨ports, sections, fragments, declared, ran, written⟩ :=
    WiringContext.exists_sections made
  have writes : WiringContext.Writes _ _ _ ports sections fragments :=
    ⟨declared, ⟨_, _, ran⟩, written⟩
  have measured := measured_of_sections checked planned member words
    (fun component home e own => (short component home e own).1) declared ⟨_, _, ran⟩
  obtain ⟨before, after, messages, refers⟩ :=
    WiringContext.exists_messages measured.placed.kinds ran
  refine ⟨ports, sections, fragments, before, after, writes, messages,
    fun message listed => (refers message listed).not_output, fun pin own output => ?_⟩
  have differ := pinsDiffer_of_plan (Draft.linked_of_check checked) (Draft.indexed_of_check checked)
    planned clean member named
  have agree : circuit.PinsAgree := fun first one second two same => by
    rw [inj_on_of_nodup_map differ one two same]
  obtain ⟨port, ported⟩ := (Circuit.ports_eq_ok declared).2 pin own
  have filled : "" ≠ port := by
    rintro rfl
    cases ((spelled_of_plan checked planned).ports _ _ _ ported).letter
  exact ⟨port, ported, measured.scope_pin agree own ported,
    measured.accounts own ported filled differ ⟨_, _, ran⟩ output
      (Component.forall_mem_pinPoints (by decide) fun e listed =>
        (short pin (mem_componentsOf.mp own).1 e listed).2)⟩

/-- Two bits of an output pin are driven, one from each end of a net, and the bits between and above
them are not. -/
theorem output_pins_driven_or_reported_gaps :
    let pin : Component := ⟨1, .pin, [("label", "q"), ("output", "true")],
      [⟨"q", false, [⟨0, 3⟩, .unconnected, .unconnected, ⟨0, 0⟩, .unconnected]⟩], ""⟩
    let main : Circuit := ⟨"main", [⟨0, 4, false, [], [], none⟩], [pin], none⟩
    let design : Design := ⟨"d", "main", [main], []⟩
    ∃ names unit ports sections fragments,
      let context := design.wiring {} names design.layouts main "main"
      (design.plan {}).1 = .ok names ∧
      Reporting.outcome (context.unit .vhdl) [] = (.ok unit,
        [context.undriven "q" ⟨4, 4, none⟩, context.undriven "q" ⟨2, 1, none⟩]) ∧
      context.Writes .vhdl unit ports sections fragments ∧ context.Accounts sections pin "q" := by
  intro pin main design
  have checked : Draft.check ⟨"d", "main", [some ⟨"main", main.nets, [some pin], none⟩], []⟩ =
      .ok design := by rfl
  have gives : (design.plan {}).1.toOption.any (fun names =>
      let context := design.wiring {} names design.layouts main "main"
      names.circuit? "main" == some "main" && names.port? "main" "q" == some "q" &&
      (Reporting.outcome (context.unit .vhdl) []).1.toOption.isSome &&
      (Reporting.outcome (context.unit .vhdl) []).2 ==
        [context.undriven "q" ⟨4, 4, none⟩, context.undriven "q" ⟨2, 1, none⟩]) =
      true := by decide +kernel
  obtain ⟨names, planned, gives⟩ := exists_ok_of_any gives
  simp only [Bool.and_eq_true, beq_iff_eq] at gives
  obtain ⟨⟨⟨named, ported⟩, succeeds⟩, messages⟩ := gives
  obtain ⟨unit, made⟩ := exists_outcome succeeds messages
  obtain ⟨ports, sections, fragments, _, _, writes, _, _, each⟩ :=
    output_pins_driven_or_reported checked planned (by decide +kernel)
      (List.mem_singleton_self main) named (by decide) (by decide +kernel) made
  obtain ⟨port, found, _, accounts⟩ := each pin (by decide) (by decide)
  obtain rfl := Option.some.inj (ported.symm.trans found)
  exact ⟨names, unit, ports, sections, fragments, planned, made, writes, accounts⟩

/-- A pin of two bits whose end has no points: its port is declared, nothing is assigned to it, and
nothing is reported. -/
theorem hollow_pin_lost :
    let pin : Component := ⟨1, .pin, [("label", "a")], [⟨"a", true, [⟨0, 0⟩]⟩], ""⟩
    let hollow : Component := ⟨2, .pin, [("label", "q"), ("output", "true"), ("width", "2")],
      [⟨"q", false, []⟩], ""⟩
    let main : Circuit := ⟨"main", [⟨0, 1, false, [], [], none⟩], [pin, hollow], none⟩
    let design : Design := ⟨"d", "main", [main], []⟩
    Draft.check ⟨"d", "main", [some ⟨"main", main.nets, [some pin, some hollow], none⟩], []⟩ =
        .ok design ∧
      (∀ message ∈ (design.plan {}).2, message.severity ≠ .fatal) ∧
      ∃ names unit ports sections fragments, (design.plan {}).1 = .ok names ∧
        names.port? "main" hollow.pathName = some "q" ∧ hollow.pinWidth = 2 ∧
        let context := design.wiring {} names design.layouts main "main"
        Reporting.outcome (context.unit .vhdl) [] = (.ok unit, []) ∧
        context.Writes .vhdl unit ports sections fragments ∧
        ∀ position < 2, context.timesAssigned sections hollow "q" position = 0 := by
  intro pin hollow main design
  have gives : (design.plan {}).1.toOption.any (fun names =>
      let context := design.wiring {} names design.layouts main "main"
      names.port? "main" hollow.pathName == some "q" &&
      (Reporting.outcome (context.unit .vhdl) []).1.toOption.isSome &&
      (Reporting.outcome (context.unit .vhdl) []).2 == [] &&
      (Reporting.outcome context.sections []).1.toOption.any fun body =>
        (List.range 2).all (context.timesAssigned body.1 hollow "q" · == 0)) = true := by
    decide +kernel
  refine ⟨by rfl, by decide +kernel, ?_⟩
  obtain ⟨names, planned, gives⟩ := exists_ok_of_any gives
  simp only [Bool.and_eq_true, beq_iff_eq] at gives
  obtain ⟨⟨⟨ported, succeeds⟩, messages⟩, counted⟩ := gives
  obtain ⟨unit, made⟩ := exists_outcome succeeds messages
  obtain ⟨ports, sections, fragments, declared, ran, written⟩ := WiringContext.exists_sections made
  rw [ran, Except.toOption, Option.any_some] at counted
  exact ⟨names, unit, ports, sections, fragments, planned, ported, by decide, made,
    ⟨declared, ⟨_, _, ran⟩, written⟩, by simpa using counted⟩

end Design

end Schematic
