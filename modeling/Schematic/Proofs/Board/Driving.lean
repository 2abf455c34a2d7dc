import Schematic.Proofs.Board.Pins
import Schematic.Proofs.Circuit.Declared
import Schematic.Proofs.Circuit.ForcedRoots

/-! # What the module around a design drives -/

open List

namespace Schematic

open Hdl Text Reporting

theorem Hdl.Expr.bits?_bitOf {σ : Type} {scope : Scope σ} {name : String} {signal : σ}
    {width position : Int} (declared : scope name = some (signal, width))
    (bounds : 0 ≤ position ∧ position < width) :
    (Expr.bitOf name width position).bits? scope = some [.wired signal position] := by
  have one : ∀ place : Int, rangeBits signal place place = [.wired signal place] := by
    intro place
    simp [rangeBits]
  rw [Expr.bitOf]
  split
  case isTrue single =>
    obtain rfl : width = 1 := beq_iff_eq.mp single
    obtain rfl : position = 0 := by omega
    simp only [Expr.bits?, declared, Option.map_some]
    exact congrArg some (one 0)
  case isFalse several =>
    have vector : 1 < width := by
      rw [beq_iff_eq] at several
      omega
    simp only [Expr.bits?, Scope.select?, declared, vector, bounds, Int.le_refl, and_self,
      ↓reduceIte, one]

/-- The bit of a wire that a bit stands for. -/
def OuterBit.wire (outer : OuterBit) : ExprBit String :=
  match outer.signal with
  | .signal name => .wired name 0
  | .index name position => .wired name position
  | _ => .constant false

theorem OuterBit.wire_eq {outer : OuterBit} {name : String} {width position : Int}
    (stands : outer.signal = .bitOf name width position)
    (bounds : 0 ≤ position ∧ position < width) :
    outer.wire = .wired name position := by
  rw [OuterBit.wire, stands]
  by_cases single : width = 1
  · obtain rfl : position = 0 := by omega
    subst single
    rfl
  · rw [Expr.bitOf, if_neg (by simpa using single)]

/-- All bits of a wire, from the lowest on. -/
def wireBits (wire : String) (width : Nat) : List (ExprBit String) :=
  (List.range width).map fun position : Nat => .wired wire position

namespace Design

variable {design : Design} {planning : Settings} {names : Names} {layouts : Layouts}
  {tick : Clock.TickSettings} {board : Option Board} {top : Circuit} {direction : Direction}
  {total : HiddenCount}

/-- The bits of the wires of a direction: those of the hidden port, then those of the pins. -/
def outerWires (names : Names) (total : HiddenCount) (top : Circuit) (direction : Direction) :
    List (ExprBit String) :=
  wireBits (wrapperWire (hiddenPort direction)) (total.bits direction).toNat ++
    (plannedPins names top).flatMap fun pin =>
      if pin.1.pinDirection = direction then wireBits (wrapperWire pin.2) pin.1.pinWidth else []

/-- The bits that reach out of a design around its top circuit. -/
abbrev reaching (design : Design) (names : Names) (layouts : Layouts) (board : Option Board)
    (top : Circuit) : List OuterBit :=
  design.outerBits layouts board (plannedPins names top) (layouts.ofCircuit top.name).total

theorem pinsDiffer_top (planned : (design.plan planning).1 = .ok names)
    (root : design.topCircuit? = some top) : top.PinsDiffer := by
  obtain ⟨found, atTop, later, visited, _⟩ := visit_of_plan planned
  obtain rfl := Option.some.inj (root.symm.trans atTop)
  have outcome := Planning.visits design planning design.circuits.length .start top
  have succeeded : (Planning.visit design planning (design.circuits.length + 1) .start top).2 =
      none := by rw [visited]
  generalize Planning.visit design planning (design.circuits.length + 1) .start top = result
    at outcome succeeded
  cases outcome with
  | again met => cases met
  | refused => cases succeeded
  | repeated => cases succeeded
  | closed module registry taken unmet ended => exact (Planning.nodup_of_planPins ended).1
  | opened module registry taken unmet ended => exact (Planning.nodup_of_planPins ended).1

theorem index_of_positions (spanned : positions direction (design.hiddenBits layouts) =
      span 0 (total.bits direction)) {hidden : HiddenBit}
    (listed : hidden ∈ design.hiddenBits layouts) (same : hidden.direction = direction) :
    0 ≤ hidden.index ∧ hidden.index < total.bits direction := by
  have own : hidden.index ∈ span 0 (total.bits direction) := by
    rw [← spanned]
    exact mem_map_of_mem (mem_filter.mpr ⟨listed, by simpa using same⟩)
  obtain ⟨offset, inside, place⟩ := mem_map.mp own
  have below := mem_range.mp inside
  omega

theorem signal_outer (oneWay : direction ≠ .bidirectional) {hidden : HiddenBit}
    (same : hidden.direction = direction) : (hidden.outer board total).signal =
      .bitOf (wrapperWire (hiddenPort direction)) (total.bits direction) hidden.index := by
  subst same
  rw [HiddenBit.outer]
  cases way : hidden.direction with
  | bidirectional => exact absurd way oneWay
  | input => rfl
  | output => rfl

theorem map_wire_outerBits (names : Names) (top : Circuit) (board : Option Board)
    (oneWay : direction ≠ .bidirectional)
    (spanned : positions direction (design.hiddenBits layouts) = span 0 (total.bits direction)) :
    ((design.outerBits layouts board (plannedPins names top) total).filter
      (·.direction = direction)).map OuterBit.wire = outerWires names total top direction := by
  rw [outerBits, filter_append, map_append, outerWires]
  congr 1
  · have hidden : ((design.hiddenBits layouts).filter (·.direction = direction)).map
        (fun bit => (bit.outer board total).wire) =
        (positions direction (design.hiddenBits layouts)).map
          (ExprBit.wired (wrapperWire (hiddenPort direction))) := by
      rw [positions, map_map]
      refine map_congr_left fun bit listed => ?_
      obtain ⟨present, same⟩ := mem_filter.mp listed
      have same : bit.direction = direction := by simpa using same
      exact OuterBit.wire_eq (signal_outer oneWay same) (index_of_positions spanned present same)
    rw [filter_map, map_map]
    refine Eq.trans hidden ?_
    rw [spanned, span, map_map, wireBits]
    refine map_congr_left fun position _ => ?_
    rw [Function.comp_apply, Int.zero_add]
  · rw [filter_flatMap, map_flatMap]
    refine flatMap_congr fun entry _ => ?_
    obtain ⟨pin, port⟩ := entry
    simp only [Component.outerBits, filter_map]
    by_cases same : pin.pinDirection = direction
    · rw [if_pos same, filter_eq_self.mpr (by simp [same]), map_map, wireBits]
      refine map_congr_left fun position listed => ?_
      have below := mem_range.mp listed
      exact OuterBit.wire_eq rfl (by omega)
    · rw [if_neg same, filter_eq_nil_iff.mpr (by simp [same])]
      rfl

theorem mem_fixedWires (design : Design) (control : Option Component)
    (oneWay : direction ≠ .bidirectional) (some : 0 < total.bits direction) :
    (hiddenPort direction, (total.bits direction).toNat) ∈ design.fixedWires control total := by
  cases direction with
  | bidirectional => exact absurd rfl oneWay
  | input =>
    have some : 0 < total.inputs := some
    refine mem_append_left _ (mem_append_right _ ?_)
    rw [if_pos some]
    exact mem_singleton_self _
  | output =>
    have some : 0 < total.outputs := some
    refine mem_append_right _ ?_
    rw [if_pos some]
    exact mem_singleton_self _

/-- A bit that is fed or read is a bit of a wire that is declared. -/
theorem exists_wired (period : Int) (tick : Clock.TickSettings)
    (oneWay : direction ≠ .bidirectional)
    (spanned : positions direction (design.hiddenBits layouts) =
      span 0 ((layouts.ofCircuit top.name).total.bits direction)) {outer : OuterBit}
    (listed : outer ∈ design.reaching names layouts board top)
    (same : outer.direction = direction) :
    ∃ (port : String) (width : Nat) (position : Int),
      (port, width) ∈ design.wiredPorts names layouts period tick top ∧
      outer.signal = .bitOf (wrapperWire port) width position ∧
      0 ≤ position ∧ position < width := by
  obtain hidden | own := mem_append.mp listed
  · obtain ⟨bit, present, rfl⟩ := mem_map.mp hidden
    have bounds := index_of_positions spanned present same
    have positive := Int.lt_of_le_of_lt bounds.1 bounds.2
    refine ⟨hiddenPort direction, _, bit.index, mem_append_right _ (mem_append_left _
      (mem_fixedWires design _ oneWay positive)), ?_, by omega⟩
    rw [Int.toNat_of_nonneg (Int.le_of_lt positive)]
    exact signal_outer oneWay same
  · obtain ⟨⟨pin, port⟩, planned, own⟩ := mem_flatMap.mp own
    obtain ⟨position, below, rfl⟩ := mem_map.mp own
    have below := mem_range.mp below
    obtain ⟨other, present, known⟩ := mem_map.mp planned
    obtain ⟨rfl, rfl⟩ := Prod.mk.inj known
    exact ⟨_, other.pinWidth, position, mem_append_right _ (mem_append_right _
      (mem_map.mpr ⟨other, present, rfl⟩)), rfl, by omega⟩

section

variable {period : Int} {placements : Placements} {labels : List String}
  (distinct : (((design.wrapperEntries placements).map (·.name) ++
    ((design.wiredPorts names layouts period tick top).map (fun port => wrapperWire port.1) ++
      labels)).map lower).Nodup)
include distinct

theorem scope_wrapperWire {port : String} {width : Nat}
    (listed : (port, width) ∈ design.wiredPorts names layouts period tick top) :
    (design.wrapperInterface names layouts period tick top placements).scope (wrapperWire port) =
      some (wrapperWire port, (width : Int)) := by
  obtain ⟨entries, rest, differ⟩ := nodup_append.mp distinct.of_map
  have wires := (nodup_append.mp rest).1
  have own : wrapperWire port ∈ (design.wiredPorts names layouts period tick top).map
      fun port => wrapperWire port.1 := mem_map.mpr ⟨_, listed, rfl⟩
  refine Interface.scope_of_wire ?_ (Interface.wires_addPorts ..) ?_ ?_
  · intro declared
    have named := (Interface.perm_portNames WiringContext.Wired.portless_empty entries).mem_iff.mp
      declared
    exact differ _ named _ (mem_append_left _ own) rfl
  · rw [map_map]
    exact own
  · intro other again
    obtain ⟨⟨otherPort, otherWidth⟩, otherListed, known⟩ := mem_map.mp again
    obtain ⟨same, rfl⟩ := Prod.mk.inj known
    have one := inj_on_of_nodup_map wires otherListed listed same
    rw [(Prod.mk.inj one).2]

omit distinct in
theorem scope_wrapperPort {placed : PlacedPort} (listed : placed ∈ placements.ports) :
    (design.wrapperInterface names layouts period tick top placements).scope placed.port =
      some (placed.port, 1) := by
  have entry : (⟨placed.direction, placed.port, .bits 1⟩ : PortEntry) ∈
      design.wrapperEntries placements := mem_append_right _ (mem_map.mpr ⟨placed, listed, rfl⟩)
  have single : ∀ entry ∈ design.wrapperEntries placements, entry.name = placed.port →
      entry.width = .bits 1 := by
    intro entry present _
    obtain clock | own := mem_append.mp present
    · split at clock
      · cases clock
      · rw [mem_singleton.mp clock]
    · obtain ⟨_, _, rfl⟩ := mem_map.mp own
      rfl
  exact Interface.scope_of_port WiringContext.Wired.portless_empty entry single _

end

end Design

namespace OuterBit

variable {outer : OuterBit} {number : Nat} {scope : Scope String} {bits : List OuterBit}
  {direction : Direction}

/-- What an input is fed with. -/
def fed (outer : OuterBit) (number : Nat) : ExprBit String :=
  match outer.bit.placement with
  | .pin _ => .wired (Placements.portOf .input number) 0 outer.bit.inverted
  | .constant value => .constant (value != outer.bit.inverted)
  | .unused | .unmapped => .constant false

/-- What is read from an output. -/
def sampled (outer : OuterBit) : ExprBit String :=
  if outer.bit.inverted then outer.wire.complement else outer.wire

theorem bits?_inverted {bit : BoardBit} {expression : Expr} {single : ExprBit String}
    (bits : expression.bits? scope = some [single]) :
    (Placements.inverted bit expression).bits? scope =
      some [if bit.inverted then single.complement else single] := by
  rw [Placements.inverted]
  split
  · simp only [Expr.bits?, bits, Option.map_some, map_cons, map_nil]
  · exact bits

theorem bits?_port {name : String} (declared : scope name = some (name, 1)) :
    (Expr.signal name).bits? scope = some [.wired name 0] := by
  simp only [Expr.bits?, declared, Option.map_some]
  rfl

theorem bits?_feed (declared : ∀ pin ∈ outer.pins,
      scope (Placements.portOf .input number) = some (Placements.portOf .input number, 1)) :
    (outer.feed number).bits? scope = some [outer.fed number] := by
  rw [feed, fed]
  cases placed : outer.bit.placement with
  | pin name =>
    have port := bits?_port (declared name (by simp [pins, placed, Placement.pin?]))
    refine (bits?_inverted port).trans ?_
    cases outer.bit.inverted <;> rfl
  | _ => rfl

theorem mem_ports_of_ranked {entry : OuterBit × Nat} {pin : String}
    (listed : entry ∈ ranked direction number bits) (pinned : pin ∈ entry.1.pins) :
    (⟨Placements.portOf direction entry.2, pin, direction, entry.1.source⟩ : PlacedPort) ∈
      (ranked direction number bits).flatMap fun entry => entry.1.ports entry.2 := by
  refine mem_flatMap.mpr ⟨entry, listed, mem_map.mpr ⟨pin, pinned, ?_⟩⟩
  rw [direction_of_mem_ranked listed]

theorem links?_single {target source : Expr} {wire bit : ExprBit String}
    (targets : target.bits? scope = some [wire]) (sources : source.bits? scope = some [bit]) :
    Assignment.allLinks? scope [⟨target, source⟩] = some [(wire, bit)] := by
  simp [Assignment.allLinks?, Assignment.links?, targets, sources]

section

variable (wires : ∀ outer ∈ bits, outer.direction = direction →
    outer.signal.bits? scope = some [outer.wire])
  (ports : ∀ placed ∈ (ranked direction 0 bits).flatMap fun entry => entry.1.ports entry.2,
    scope placed.port = some (placed.port, 1))
include wires ports

theorem bits_of_ranked {entry : OuterBit × Nat} (listed : entry ∈ ranked direction 0 bits) :
    entry.1.signal.bits? scope = some [entry.1.wire] ∧ ∀ pin ∈ entry.1.pins,
      scope (Placements.portOf direction entry.2) =
        some (Placements.portOf direction entry.2, 1) := by
  have own : entry.1 ∈ bits.filter (·.direction = direction) :=
    map_fst_ranked direction 0 bits ▸ mem_map_of_mem listed
  exact ⟨wires _ (mem_filter.mp own).1 (direction_of_mem_ranked listed),
    fun pin pinned => ports _ (mem_ports_of_ranked listed pinned)⟩

end

theorem links_of_inputs
    (wires : ∀ outer ∈ bits, outer.direction = .input →
      outer.signal.bits? scope = some [outer.wire])
    (ports : ∀ placed ∈ (ranked .input 0 bits).flatMap fun entry => entry.1.ports entry.2,
      scope placed.port = some (placed.port, 1)) :
    Assignment.allLinks? scope ((ranked .input 0 bits).flatMap fun entry =>
        [⟨entry.1.signal, entry.1.feed entry.2⟩]) =
      some ((ranked .input 0 bits).flatMap fun entry => [(entry.1.wire, entry.1.fed entry.2)]) := by
  refine Assignment.allLinks?_flatMap fun entry listed => ?_
  obtain ⟨wire, declared⟩ := bits_of_ranked wires ports listed
  exact links?_single wire (bits?_feed declared)

theorem links_of_outputs
    (wires : ∀ outer ∈ bits, outer.direction = .output →
      outer.signal.bits? scope = some [outer.wire])
    (ports : ∀ placed ∈ (ranked .output 0 bits).flatMap fun entry => entry.1.ports entry.2,
      scope placed.port = some (placed.port, 1)) :
    Assignment.allLinks? scope ((ranked .output 0 bits).flatMap fun entry =>
        entry.1.pins.map fun _ => ⟨.signal (Placements.portOf .output entry.2),
          Placements.inverted entry.1.bit entry.1.signal⟩) =
      some ((ranked .output 0 bits).flatMap fun entry => entry.1.pins.map fun _ =>
        (.wired (Placements.portOf .output entry.2) 0, entry.1.sampled)) := by
  refine Assignment.allLinks?_flatMap fun entry listed => ?_
  obtain ⟨wire, declared⟩ := bits_of_ranked wires ports listed
  cases pinned : entry.1.pins with
  | nil => rfl
  | cons pin rest =>
    obtain rfl : rest = [] := by
      rw [pins] at pinned
      cases known : entry.1.bit.placement.pin? with
      | none => rw [known] at pinned; cases pinned
      | some => rw [known] at pinned; exact (cons.inj pinned).2.symm
    exact links?_single (bits?_port (declared pin (pinned ▸ mem_cons_self ..)))
      (bits?_inverted wire)

end OuterBit

namespace Design

variable {design : Design} {settings planning : Settings} {names : Names} {layouts : Layouts}
  {tick : Clock.TickSettings} {board : Option Board} {wrapper : Wrapper} {top : Circuit}
  {direction : Direction} {total : HiddenCount}

theorem assignments_clockSection (design : Design) (tick : Clock.TickSettings)
    (control : Option Component) :
    (design.clockSection tick control).statements.filterMap Statement.assignment? = [] := by
  simp only [clockSection]
  split
  · rfl
  · rw [filterMap_cons_none rfl, filterMap_eq_nil_iff]
    intro statement listed
    obtain ⟨tree, _, listed⟩ := mem_flatMap.mp listed
    obtain rfl | last := mem_cons.mp listed
    · rfl
    · rw [mem_singleton.mp last]
      rfl

theorem assignments_sections (outline : Outline) (design : Design) (settings : Settings)
    (names : Names) (layouts : Layouts) (tick : Clock.TickSettings) :
    BodySection.assignments (outline.sections design settings names layouts tick) =
      outline.placements.inputs ++ outline.placements.outputs := by
  simp only [Outline.sections, BodySection.assignments, flatMap_cons, flatMap_nil,
    assignments_clockSection, filterMap_assignment?_assign]
  rw [nil_append, append_nil]
  exact congrArg _ (append_nil _)

theorem nodup_wireBits (wire : String) (width : Nat) : (wireBits wire width).Nodup :=
  nodup_range.map fun _ _ same => Int.ofNat.inj (ExprBit.wired.inj same).2.1

theorem nodup_outerWires (apart : names.Apart design)
    (pins : top.PinsDiffer) (planned : ∀ pin ∈ top.componentsOf .pin, ∃ port,
      names.port? top.name pin.pathName = some port) (total : HiddenCount)
    (direction : Direction) : (outerWires names total top direction).Nodup := by
  have within : [hiddenPort direction] ⊆ fixedNames design := by
    intro name listed
    rw [mem_singleton.mp listed]
    refine mem_append_left _ ?_
    cases direction <;> decide
  have alone : ([hiddenPort direction].map lower).Nodup := nodup_singleton _
  have differ : (hiddenPort direction :: top.pinPorts names).Nodup :=
    (Circuit.nodup_append_pinPorts apart pins planned alone within).of_map
  obtain ⟨hidden, own⟩ := nodup_cons.mp differ
  have wire : ∀ {bit : ExprBit String} {first second : String} {m n : Nat},
      bit ∈ wireBits (wrapperWire first) m → bit ∈ wireBits (wrapperWire second) n →
      first = second := by
    intro bit first second m n here there
    obtain ⟨_, _, rfl⟩ := mem_map.mp here
    obtain ⟨_, _, same⟩ := mem_map.mp there
    exact ((String.append_right_inj _).mp (ExprBit.wired.inj same).1).symm
  have inner : ∀ {bit : ExprBit String} {pin : Component × String},
      bit ∈ (if pin.1.pinDirection = direction then wireBits (wrapperWire pin.2) pin.1.pinWidth
        else []) → bit ∈ wireBits (wrapperWire pin.2) pin.1.pinWidth := by
    intro bit pin listed
    split at listed
    · exact listed
    · cases listed
  refine nodup_append.mpr ⟨nodup_wireBits .., nodup_flatMap.mpr ⟨?_, ?_⟩, ?_⟩
  · intro pin _
    split
    · exact nodup_wireBits ..
    · exact nodup_nil
  · have names : ((plannedPins names top).map Prod.snd).Nodup := by
      rw [plannedPins, map_map]
      exact own
    refine (pairwise_map.mp names).imp ?_
    intro first second other bit here there
    exact other (wire (inner here) (inner there))
  · rintro bit here _ there rfl
    obtain ⟨pin, listed, there⟩ := mem_flatMap.mp there
    obtain ⟨component, present, rfl⟩ := mem_map.mp listed
    exact hidden (wire here (inner there) ▸ mem_map_of_mem present)

theorem filter_bidirectional (design : Design) (layouts : Layouts) (board : Option Board)
    (pins : List (Component × String)) (total : HiddenCount) :
    (design.outerBits layouts board pins total).filter (·.direction = .bidirectional) =
      ((design.hiddenBits layouts).filter (·.direction = .bidirectional)).map
        (HiddenBit.outer board total) := by
  have oneWay : ∀ pin : Component, pin.pinDirection ≠ .bidirectional := by
    intro pin
    rw [Component.pinDirection]
    split <;> decide
  rw [outerBits, filter_append, filter_map]
  refine Eq.trans (congrArg (_ ++ ·) ?_) (append_nil _)
  rw [filter_eq_nil_iff]
  intro outer listed
  obtain ⟨⟨pin, port⟩, _, listed⟩ := mem_flatMap.mp listed
  obtain ⟨_, _, rfl⟩ := mem_map.mp listed
  simpa using oneWay pin

/-- What reaches both ways is numbered in the order of its positions. -/
theorem ranked_places {bits : List OuterBit} (joinable : ∀ outer ∈ bits, outer.Joinable)
    {count : Nat} (places : (bits.filter (·.direction = .bidirectional)).map (·.position) =
      (List.range count).map fun position : Nat => (position : Int)) :
    (OuterBit.ranked .bidirectional 0 bits).map (Prod.map (·.position) id) =
      (List.range count).map fun position : Nat => ((position : Int), position) := by
  have length : (bits.filter (·.direction = .bidirectional)).length = count := by
    simpa using congrArg List.length places
  rw [OuterBit.ranked_eq_zipIdx joinable, zipIdx_eq_zip_range', ← range_eq_range', length,
    ← zip_map, places]
  exact zip_map'

theorem foldl_set (name : Nat → String) (ports : List String) {count : Nat}
    (within : count ≤ ports.length) :
    (List.range count).foldl (fun ports place => ports.set place (name place)) ports =
      (List.range count).map name ++ ports.drop count := by
  induction count with
  | zero => rfl
  | succ count ih =>
    rw [range_succ, foldl_append, ih (by omega), drop_eq_getElem_cons within, foldl_cons, foldl_nil,
      set_append_right count _ (by simp), length_map, length_range, Nat.sub_self, set_cons_zero,
      map_append, append_assoc]
    rfl

/-- The ports of what reaches both ways stand in the order of its positions. -/
theorem inouts_eq {bits : List OuterBit} (joinable : ∀ outer ∈ bits, outer.Joinable) {count : Nat}
    (places : (bits.filter (·.direction = .bidirectional)).map (·.position) =
      (List.range count).map fun position : Nat => (position : Int)) :
    (bits.foldl Placements.after (.blank count)).inouts =
      (List.range count).map (Placements.portOf .bidirectional) := by
  let put (ports : List String) (entry : Int × Nat) : List String :=
    ports.set entry.1.toNat (Placements.portOf .bidirectional entry.2)
  rw [Placements.inouts_foldl_after]
  calc
    _ = ((OuterBit.ranked .bidirectional 0 bits).map (Prod.map (·.position) id)).foldl put
        (List.replicate count "") := foldl_map.symm
    _ = (List.range count).foldl (fun ports (place : Nat) => put ports (place, place))
        (List.replicate count "") := by rw [ranked_places joinable places, foldl_map]
    _ = (List.range count).map (Placements.portOf .bidirectional) ++
        (List.replicate count "").drop count :=
      foldl_set (Placements.portOf .bidirectional) _ (by rw [length_replicate])
    _ = (List.range count).map (Placements.portOf .bidirectional) := by simp

theorem inoutAssociations_eq {placements : Placements} {count : Nat}
    (inouts : placements.inouts = (List.range count).map (Placements.portOf .bidirectional))
    (dialect : Dialect) :
    placements.inoutAssociations dialect = if count = 0 then [] else match dialect with
      | .vhdl => (List.range count).map fun position : Nat => ⟨.bitOf hiddenInout count position,
          some (.signal (Placements.portOf .bidirectional position))⟩
      | .verilog => [.bound hiddenInout (.concat ((List.range count).reverse.map
          fun position => .signal (Placements.portOf .bidirectional position)))] := by
  simp only [Placements.inoutAssociations, inouts, List.isEmpty_iff, map_eq_nil_iff, range_eq_nil,
    length_map, length_range]
  refine if_congr Iff.rfl rfl ?_
  cases dialect with
  | vhdl => exact ext_getElem (by simp) (by simp)
  | verilog => simp only [← map_reverse, map_map, Function.comp_def]

theorem positions_of_few {draft : Draft} (checked : draft.check = .ok design)
    (root : design.topCircuit? = some top)
    (few : (design.hiddenBits design.layouts).length ≤ Word.greatest) (direction : Direction) :
    0 ≤ (design.layouts.ofCircuit top.name).total.bits direction ∧
      positions direction (design.hiddenBits design.layouts) =
        span 0 ((design.layouts.ofCircuit top.name).total.bits direction) := by
  obtain ⟨order, ordered, listed⟩ := Draft.ordered_of_check checked
  have stored := laid_of_check checked ordered listed root
  have within := ordered.length_le
  have zero : HiddenCount.none.bits direction = 0 := HiddenCount.bits_none direction
  have fewer : (positions direction (design.hiddenBits design.layouts)).length ≤
      (design.hiddenBits design.layouts).length := by
    rw [positions, length_map]
    exact length_filter_le ..
  rw [hiddenBits, root] at few fewer ⊢
  have spans : design.Spans design.layouts direction (design.circuits.length + 1) top :=
    stored.spans ordered (by omega) ((circuit?_eq_some root).2 ▸ listed)
  have spanned := spans "" .none (by omega) (by simp only at fewer few; omega)
  rwa [zero] at spanned

theorem bits?_signal {period : Int} {placements : Placements} {labels : List String}
    (distinct : (((design.wrapperEntries placements).map (·.name) ++
      ((design.wiredPorts names layouts period tick top).map (fun port => wrapperWire port.1) ++
        labels)).map lower).Nodup) (oneWay : direction ≠ .bidirectional)
    (spanned : positions direction (design.hiddenBits layouts) =
      span 0 ((layouts.ofCircuit top.name).total.bits direction)) {outer : OuterBit}
    (listed : outer ∈ design.reaching names layouts board top)
    (same : outer.direction = direction) :
    outer.signal.bits? (design.wrapperInterface names layouts period tick top placements).scope =
      some [outer.wire] := by
  obtain ⟨port, width, position, wired, stands, bounds⟩ :=
    exists_wired period tick oneWay spanned listed same
  rw [OuterBit.wire_eq stands bounds, stands]
  exact Expr.bits?_bitOf (scope_wrapperWire distinct wired) bounds

theorem places_bidirectional (board : Option Board) (pins : List (Component × String))
    (spanned : positions .bidirectional (design.hiddenBits layouts) = span 0 total.inouts) :
    ((design.outerBits layouts board pins total).filter (·.direction = .bidirectional)).map
      (·.position) = (List.range total.inouts.toNat).map
        fun position : Nat => (position : Int) := by
  rw [filter_bidirectional, map_map]
  refine Eq.trans spanned (map_congr_left fun position _ => ?_)
  rw [Int.zero_add]

/-- A hidden bit that reaches both ways is on the port of its position. -/
theorem exists_port_of_hidden {pins : List (Component × String)}
    (joinable : ∀ outer ∈ design.outerBits layouts board pins total, outer.Joinable)
    (spanned : positions .bidirectional (design.hiddenBits layouts) = span 0 total.inouts)
    {hidden : HiddenBit} (listed : hidden ∈ design.hiddenBits layouts)
    (both : hidden.direction = .bidirectional) :
    ∃ pin, boardBit board hidden.path hidden.bit = ⟨.pin pin, false⟩ ∧
      ⟨Placements.portOf .bidirectional hidden.index.toNat, pin, .bidirectional,
        (hidden.outer board total).source⟩ ∈
        (OuterBit.ranked .bidirectional 0 (design.outerBits layouts board pins total)).flatMap
          fun entry => entry.1.ports entry.2 := by
  have outer : hidden.outer board total ∈ design.outerBits layouts board pins total :=
    mem_append_left _ (mem_map_of_mem listed)
  obtain ⟨pin, placed⟩ := joinable _ outer both
  refine ⟨pin, placed, ?_⟩
  have own : hidden.outer board total ∈ (OuterBit.ranked .bidirectional 0
      (design.outerBits layouts board pins total)).map Prod.fst := by
    rw [OuterBit.map_fst_ranked]
    exact mem_filter.mpr ⟨outer, decide_eq_true both⟩
  obtain ⟨⟨_, number⟩, ranked, rfl⟩ := mem_map.mp own
  -- The number of the port is the place in the list, and so the position of the bit.
  have entry := mem_map_of_mem (f := Prod.map (·.position) id) ranked
  rw [ranked_places joinable (places_bidirectional board pins spanned)] at entry
  obtain ⟨position, _, same⟩ := mem_map.mp entry
  obtain ⟨index, rfl⟩ := Prod.mk.inj same
  rw [show hidden.index = position from index.symm, Int.toNat_natCast]
  exact OuterBit.mem_ports_of_ranked ranked (by simp [OuterBit.pins, placed, Placement.pin?])

theorem exists_of_mem_outerWires {bit : ExprBit String}
    (listed : bit ∈ outerWires names total top direction) :
    ∃ port position, bit = .wired (wrapperWire port) position := by
  have single : ∀ {port : String} {width : Nat}, bit ∈ wireBits (wrapperWire port) width →
      ∃ port position, bit = .wired (wrapperWire port) position := by
    intro port width listed
    obtain ⟨position, _, rfl⟩ := mem_map.mp listed
    exact ⟨port, position, rfl⟩
  obtain hidden | own := mem_append.mp listed
  · exact single hidden
  · obtain ⟨pin, _, own⟩ := mem_flatMap.mp own
    split at own
    · exact single own
    · cases own

/-- Nothing is assigned twice: neither a bit of a wire nor a port. -/
theorem nodup_targets {placements : Placements} {bits : List OuterBit}
    (numbered : placements.Numbered)
    (own : placements.ports.filter (·.direction = .output) =
      (OuterBit.ranked .output 0 bits).flatMap fun entry => entry.1.ports entry.2)
    (inputs : (bits.filter (·.direction = .input)).map OuterBit.wire =
      outerWires names total top .input)
    (wires : (outerWires names total top .input).Nodup) :
    (((OuterBit.ranked .input 0 bits).map (fun entry => (entry.1.wire, entry.1.fed entry.2)) ++
      (OuterBit.ranked .output 0 bits).flatMap fun entry => entry.1.pins.map fun _ =>
        (ExprBit.wired (Placements.portOf .output entry.2) 0, entry.1.sampled)).map
          Prod.fst).Nodup := by
  have ports : ((OuterBit.ranked .output 0 bits).flatMap fun entry => entry.1.pins.map fun _ =>
      (ExprBit.wired (Placements.portOf .output entry.2) 0, entry.1.sampled)).map Prod.fst =
      (placements.ports.filter (·.direction = .output)).map fun placed =>
        .wired placed.port 0 := by
    rw [own, map_flatMap, map_flatMap]
    refine flatMap_congr fun entry listed => ?_
    rw [OuterBit.ports, map_map, map_map, OuterBit.direction_of_mem_ranked listed]
    rfl
  rw [← OuterBit.map_fst_ranked .input 0, map_map] at inputs
  rw [map_append, map_map, ports]
  refine nodup_append.mpr ⟨(congrArg List.Nodup inputs).mpr wires, ?_, ?_⟩
  · refine List.Nodup.map_on ?_ (numbered.distinct.of_map.filter _)
    intro first here second there same
    exact inj_on_of_nodup_map numbered.distinct (mem_filter.mp here).1 (mem_filter.mp there).1
      (congrArg lower (ExprBit.wired.inj same).1)
  · rintro bit here _ there rfl
    have here := (congrArg (bit ∈ ·) inputs).mp here
    obtain ⟨port, position, rfl⟩ := exists_of_mem_outerWires here
    obtain ⟨placed, listed, same⟩ := mem_map.mp there
    obtain ⟨number, _, name⟩ := numbered.shape placed (mem_filter.mp listed).1
    have clash : opening 2 (Placements.portOf placed.direction number) =
        opening 2 (wrapperWire port) := by
      rw [← name, (ExprBit.wired.inj same).1]
    rw [opening_wrapperWire, Placements.portOf] at clash
    cases way : placed.direction <;> rw [way, opening_append _ _ (by decide)] at clash <;>
      revert clash <;> decide

theorem toNat_of_storable {size : Nat} {length : Int} {count : Nat}
    (stored : storable size length = .ok count) : length.toNat = count := by
  rw [storable] at stored
  split at stored
  · cases stored
  · exact Except.ok.inj stored

/-- The instance of the design joins each bit of the hidden port that reaches both ways. -/
theorem use_joins {outline : Outline}
    (counted : storable 16 (layouts.ofCircuit outline.top.name).total.inouts = .ok outline.inouts)
    (inouts : outline.placements.inouts =
      (List.range outline.inouts).map (Placements.portOf .bidirectional)) :
    let count := (layouts.ofCircuit outline.top.name).total.inouts.toNat
    match settings.dialect with
    | .vhdl => ∀ position < count, ⟨.bitOf hiddenInout count position,
        some (.signal (Placements.portOf .bidirectional position))⟩ ∈
          (outline.use design settings names layouts tick).ports
    | .verilog => 0 < count → .bound hiddenInout (.concat ((List.range count).reverse.map
        fun position => .signal (Placements.portOf .bidirectional position))) ∈
          (outline.use design settings names layouts tick).ports := by
  have number := toNat_of_storable counted
  have within : ∀ association ∈ outline.placements.inoutAssociations settings.dialect,
      association ∈ (outline.use design settings names layouts tick).ports :=
    fun association listed => mem_append_left _ (mem_append_right _ listed)
  rw [inoutAssociations_eq inouts] at within
  dsimp only
  rw [number]
  cases dialect : settings.dialect with
  | vhdl =>
    intro position below
    rw [dialect, if_neg (by omega)] at within
    exact within _ (mem_map.mpr ⟨position, mem_range.mpr below, rfl⟩)
  | verilog =>
    intro positive
    rw [dialect, if_neg (by omega)] at within
    exact within _ (mem_singleton_self _)

end Design

end Schematic
