import Schematic.Proofs.Board.Wrapper
import Schematic.Proofs.Circuit.Routing
import Schematic.Proofs.File.Path

/-! # Ports and pins -/

open List

namespace Schematic

open Hdl Text Reporting

variable {name : String}

namespace Placements

def pins (placements : Placements) : List String :=
  placements.ports.map (·.pin)

theorem pins_foldl_after (placements : Placements) (bits : List OuterBit) :
    (bits.foldl after placements).pins =
      placements.pins ++ bits.filterMap fun outer => outer.bit.placement.pin? := by
  induction bits generalizing placements with
  | nil => rw [filterMap_nil, append_nil, foldl_nil]
  | cons outer bits ih =>
    have step : (placements.after outer).pins = placements.pins ++ outer.pins := by
      simp [pins, after, OuterBit.ports, Function.comp_def]
    rw [foldl_cons, ih, step, append_assoc, filterMap_cons, OuterBit.pins]
    cases outer.bit.placement.pin? <;> rfl

end Placements

/-- Where a board looks a bit up: a path and a position. -/
abbrev Address := String × Nat

/-- A hidden bit is addressed by its path in the design and its place in the component. -/
def HiddenBit.address (hidden : HiddenBit) : Address :=
  (hidden.path, hidden.bit)

namespace Component

/-- The addresses of the bits of a pin. -/
def pinAddresses (pin : Component) : List Address :=
  (List.range pin.pinWidth).map fun position => (pin.pathName, position)

/-- Whether a component may have bits that reach outwards. -/
def isOuter (component : Component) : Bool :=
  component.kind = .subcircuit || component.kind = .pin || !component.hidden.isNone

theorem nodup_range_address (path : String) (count : Nat) :
    ((List.range count).map fun position => (path, position)).Nodup :=
  nodup_range.map fun _ _ same => (Prod.mk.inj same).2

theorem nodup_address_hiddenBits (component : Component) (path : String) (place : HiddenCount) :
    ((component.hiddenBits path place component.hidden).map HiddenBit.address).Nodup := by
  have none : ((component.hiddenBits path place .none).map HiddenBit.address).Nodup := by
    simp [hiddenBits, HiddenCount.none]
  rw [Component.hidden]
  split
  case h_2 => exact none
  case h_1 variant _ =>
    cases variant with
    | led => simp [Variant.hidden, hiddenBits]
    | button => simp [Variant.hidden, hiddenBits]
    | dipSwitch width =>
      have addresses := nodup_range_address path width
      simpa [Variant.hidden, hiddenBits, HiddenBit.address, Function.comp_def] using addresses
    | portIO width =>
      have addresses := nodup_range_address path width
      simpa [Variant.hidden, hiddenBits, HiddenBit.address, Function.comp_def] using addresses
    | _ => exact none

theorem pathName_ne_empty (component : Component) : component.pathName ≠ "" := by
  rw [pathName]
  split
  case isTrue some => exact some
  case isFalse =>
    intro empty
    have number : toString component.id = "" := (String.append_eq_empty_iff.mp empty).2
    cases id : component.id with
    | ofNat n =>
      rw [id] at number
      exact Naming.toString_ne_nil n (congrArg String.toList number)
    | negSucc n =>
      rw [id] at number
      have dash : '-' ∈ ("-" ++ toString (n + 1)).toList := by simp
      rw [show "-" ++ toString (n + 1) = "" from number] at dash
      cases dash

theorem hidden_pin {component : Component} (isPin : component.kind = .pin) :
    component.hidden = .none := by
  simp [Component.hidden, Component.variant?, isPin]

end Component

def pathNames (path : String) : List String :=
  if path = "" then [] else splitAt '/' path

theorem joinPath_ne_empty {path : String} (some : name ≠ "") : joinPath path name ≠ "" := by
  rw [joinPath]
  split
  · exact some
  · simp [String.append_eq_empty_iff]

theorem pathNames_joinPath (path : String) (some : name ≠ "") :
    pathNames (joinPath path name) = pathNames path ++ splitAt '/' name := by
  rw [pathNames, if_neg (joinPath_ne_empty some), joinPath, pathNames]
  split
  · rfl
  · exact Path.splitAt_append path name

/-- The labels of a circuit tell apart what reaches outwards. -/
structure Circuit.Labelled (circuit : Circuit) : Prop where
  once : ((circuit.components.filter (·.isOuter)).map (·.pathName)).Nodup
  plain : ∀ component ∈ circuit.components, component.isOuter → '/' ∉ component.pathName.toList

namespace Circuit.Labelled

variable {first second : Component}

variable {circuit : Circuit} (labelled : circuit.Labelled)
include labelled

section

variable (listed : first ∈ circuit.components) (outer : first.isOuter)
  (otherListed : second ∈ circuit.components) (otherOuter : second.isOuter)
include listed outer otherListed otherOuter

theorem eq_of_pathName (same : first.pathName = second.pathName) : first = second :=
  inj_on_of_nodup_map labelled.once (mem_filter.mpr ⟨listed, outer⟩)
    (mem_filter.mpr ⟨otherListed, otherOuter⟩) same

theorem eq_of_prefix {path : String} {names : List String}
    (leads : pathNames (joinPath path first.pathName) <+: names)
    (otherLeads : pathNames (joinPath path second.pathName) <+: names) : first = second := by
  rw [pathNames_joinPath path (Component.pathName_ne_empty _)] at leads otherLeads
  rw [Path.splitAt_of_free (labelled.plain _ listed outer)] at leads
  rw [Path.splitAt_of_free (labelled.plain _ otherListed otherOuter)] at otherLeads
  have whole : pathNames path ++ [first.pathName] = pathNames path ++ [second.pathName] :=
    (prefix_of_prefix_length_le leads otherLeads (by simp)).eq_of_length (by simp)
  have names := append_cancel_left whole
  exact labelled.eq_of_pathName listed outer otherListed otherOuter (singleton_inj.mp names)

end

end Circuit.Labelled

namespace Design

variable {depth : Nat} {path : String} {place : HiddenCount} {component : Component}
  {bit : HiddenBit} {board : Board} {design : Design} {layouts : Layouts} {circuit : Circuit}

def bitsOf (design : Design) (layouts : Layouts) (depth : Nat) (circuit : Circuit) (path : String)
    (place : HiddenCount) (component : Component) : List HiddenBit :=
  ((layouts.ofCircuit circuit.name).share? component.id).elim []
    (design.bitsAt layouts depth path place component)

theorem hiddenBitsFrom_succ_eq (design : Design) (layouts : Layouts) (depth : Nat)
    (circuit : Circuit) (path : String) (place : HiddenCount) :
    design.hiddenBitsFrom layouts (depth + 1) circuit path place =
      circuit.components.flatMap (design.bitsOf layouts depth circuit path place) := by
  rw [hiddenBitsFrom]
  refine flatMap_congr fun component _ => ?_
  rw [bitsOf]
  cases (layouts.ofCircuit circuit.name).share? component.id <;> rfl

theorem exists_share_of_mem_bitsOf
    (member : bit ∈ design.bitsOf layouts depth circuit path place component) :
    ∃ share, (layouts.ofCircuit circuit.name).share? component.id = some share ∧
      bit ∈ design.bitsAt layouts depth path place component share := by
  rw [bitsOf] at member
  cases shared : (layouts.ofCircuit circuit.name).share? component.id with
  | none =>
    rw [shared] at member
    cases member
  | some share =>
    rw [shared] at member
    exact ⟨share, rfl, member⟩

theorem Laid.share_of_share? (laid : design.Laid layouts circuit)
    (listed : component ∈ circuit.components) {share : Share}
    (shared : (layouts.ofCircuit circuit.name).share? component.id = some share) :
    circuit.blackBox = none ∧ share.size = design.hiddenIn layouts component := by
  cases box : circuit.blackBox with
  | some text =>
    rw [laid.layout_eq, laidOut, box] at shared
    cases shared
  | none =>
    rw [Layout.share?, laid.shares_eq box] at shared
    obtain ⟨before, after, form, _⟩ := lookup_eq_some_iff.mp shared
    have member : (component.id, share) ∈
        Layout.numbered (Layout.placed (design.hiddenIn layouts) .none circuit.components) := by
      rw [form]
      simp
    obtain ⟨⟨other, found⟩, placed, same⟩ := mem_map.mp member
    obtain ⟨sameId, rfl⟩ := Prod.mk.inj same
    obtain ⟨otherListed, size⟩ := Layout.mem_of_mem_placed placed
    obtain rfl := inj_on_of_nodup_map laid.ids otherListed listed sameId
    exact ⟨rfl, size⟩

theorem hiddenIn_of_ne_subcircuit (isLeaf : component.kind ≠ .subcircuit) :
    design.hiddenIn layouts component = component.hidden := by
  rw [hiddenIn, if_neg isLeaf]

theorem Laid.isOuter_of_mem (laid : design.Laid layouts circuit)
    (listed : component ∈ circuit.components)
    (member : bit ∈ design.bitsOf layouts depth circuit path place component) :
    component.isOuter ∧ component.kind ≠ .pin := by
  obtain ⟨share, shared, member⟩ := exists_share_of_mem_bitsOf member
  by_cases isInner : component.kind = .subcircuit
  · simp [Component.isOuter, isInner]
  · rw [bitsAt, if_neg isInner,
      (laid.share_of_share? listed shared).2, hiddenIn_of_ne_subcircuit isInner]
      at member
    have some : ¬component.hidden.isNone := by
      intro empty
      have zero := HiddenCount.isNone_iff.mp empty bit.direction
      have below := (Component.mem_hiddenBits.mp member).1
      omega
    refine ⟨by simp [Component.isOuter, some], fun isPin => some ?_⟩
    rw [Component.hidden_pin isPin]
    rfl

theorem prefix_of_mem_hiddenBitsFrom
    (member : bit ∈ design.hiddenBitsFrom layouts depth circuit path place) :
    pathNames path <+: pathNames bit.path := by
  induction depth generalizing circuit path place with
  | zero => cases member
  | succ depth ih =>
    rw [hiddenBitsFrom_succ_eq] at member
    obtain ⟨component, _, member⟩ := mem_flatMap.mp member
    obtain ⟨share, _, member⟩ := exists_share_of_mem_bitsOf member
    have step : pathNames path <+: pathNames (joinPath path component.pathName) := by
      rw [pathNames_joinPath path component.pathName_ne_empty]
      exact prefix_append ..
    rw [bitsAt] at member
    split at member
    · split at member
      · exact step.trans (ih member)
      · cases member
    · rwa [(Component.mem_hiddenBits.mp member).2.2.1]

theorem prefix_of_mem_bitsOf
    (member : bit ∈ design.bitsOf layouts depth circuit path place component) :
    pathNames (joinPath path component.pathName) <+: pathNames bit.path := by
  obtain ⟨share, _, member⟩ := exists_share_of_mem_bitsOf member
  rw [bitsAt] at member
  split at member
  · split at member
    · exact prefix_of_mem_hiddenBitsFrom member
    · cases member
  · exact (Component.mem_hiddenBits.mp member).2.2.1 ▸ prefix_rfl

theorem Laid.nodup_address_hiddenBitsFrom (labelled : ∀ circuit ∈ design.circuits, circuit.Labelled)
    (laid : design.Laid layouts circuit) (depth : Nat) (path : String) (place : HiddenCount) :
    ((design.hiddenBitsFrom layouts depth circuit path place).map HiddenBit.address).Nodup := by
  induction depth generalizing circuit path place with
  | zero => exact nodup_nil
  | succ depth ih =>
    rw [hiddenBitsFrom_succ_eq, map_flatMap, nodup_flatMap]
    constructor
    · intro component listed
      rw [bitsOf]
      cases shared : (layouts.ofCircuit circuit.name).share? component.id with
      | none => exact nodup_nil
      | some share =>
        obtain ⟨plain, size⟩ := laid.share_of_share? listed shared
        rw [Option.elim_some, bitsAt]
        split
        case isTrue isInner =>
          split
          case h_1 inner found => exact ih (laid.below plain listed isInner found) _ _
          case h_2 => exact nodup_nil
        case isFalse isLeaf =>
          rw [size, hiddenIn_of_ne_subcircuit isLeaf]
          exact component.nodup_address_hiddenBits _ _
    · refine List.Pairwise.imp_of_mem ?_ laid.ids.of_map
      intro first second listed otherListed differ address here there
      obtain ⟨bit, member, rfl⟩ := mem_map.mp here
      obtain ⟨other, otherMember, same⟩ := mem_map.mp there
      have samePath : other.path = bit.path := congrArg Prod.fst same
      have otherLeads := prefix_of_mem_bitsOf otherMember
      rw [samePath] at otherLeads
      have own := labelled circuit (circuit?_eq_some laid.found).1
      exact differ (own.eq_of_prefix listed (laid.isOuter_of_mem listed member).1 otherListed
        (laid.isOuter_of_mem otherListed otherMember).1 (prefix_of_mem_bitsOf member) otherLeads)

/-- Where a board looks up the bits of a design that reach outwards, in the order in which they are
placed. -/
def outerAddresses (design : Design) (layouts : Layouts) (top : Circuit) : List Address :=
  (design.hiddenBits layouts).map HiddenBit.address ++
    (top.componentsOf .pin).flatMap Component.pinAddresses

theorem filterMap_outerBits (design : Design) (names : Names) (layouts : Layouts) (top : Circuit)
    (board : Board) (total : HiddenCount) :
    ((design.outerBits layouts (some board) (plannedPins names top) total).filterMap fun outer =>
        outer.bit.placement.pin?) = (design.outerAddresses layouts top).filterMap fun address =>
        board.pinAt? address.1 address.2 := by
  rw [outerBits, outerAddresses, filterMap_append, filterMap_append, filterMap_map,
    filterMap_map]
  congr 1
  rw [plannedPins, flatMap_map, filterMap_flatMap, filterMap_flatMap]
  refine flatMap_congr fun pin _ => ?_
  simp only [Component.outerBits, Component.pinAddresses, filterMap_map]
  rfl

theorem pins_of_wrapper {settings : Settings} {names : Names} {tick : Clock.TickSettings}
    {wrapper : Wrapper}
    (made : Yields (design.wrapper settings names layouts tick (some board)) wrapper) :
    ∃ top, design.topCircuit? = some top ∧
      wrapper.ports.map (·.pin) = (design.outerAddresses layouts top).filterMap fun address =>
        board.pinAt? address.1 address.2 := by
  rw [Design.wrapper] at made
  obtain ⟨outline, outlined, written⟩ := made.bind
  rw [← yields_pure.mp written]
  obtain ⟨root, _, _, _, placed⟩ := exists_of_outline outlined
  have pins := Placements.pins_foldl_after (.blank outline.inouts)
    (design.outerBits layouts (some board) (plannedPins names outline.top)
      (layouts.ofCircuit outline.top.name).total)
  rw [← (Placements.foldl_of_foldlM placed).1, filterMap_outerBits] at pins
  exact ⟨outline.top, root, pins⟩

theorem nodup_outerAddresses {top : Circuit} (root : design.topCircuit? = some top)
    (laid : design.Laid layouts top) (labelled : ∀ circuit ∈ design.circuits, circuit.Labelled) :
    (design.outerAddresses layouts top).Nodup := by
  have own := labelled top (circuit?_eq_some root).1
  have isOuter : ∀ pin ∈ top.componentsOf .pin, pin ∈ top.components ∧ pin.isOuter ∧
      pin.kind = .pin := by
    intro pin member
    obtain ⟨listed, isPin⟩ := mem_filter.mp member
    have isPin : pin.kind = .pin := by simpa using isPin
    exact ⟨listed, by simp [Component.isOuter, isPin], isPin⟩
  have bits : design.hiddenBits layouts =
      design.hiddenBitsFrom layouts (design.circuits.length + 1) top "" .none := by
    rw [hiddenBits, root]
  rw [outerAddresses, bits]
  refine nodup_append.mpr
    ⟨laid.nodup_address_hiddenBitsFrom labelled _ "" .none, nodup_flatMap.mpr ⟨?_, ?_⟩, ?_⟩
  · intro pin _
    exact Component.nodup_range_address ..
  · refine List.Pairwise.imp_of_mem ?_ (laid.ids.of_map.filter _)
    intro first second member otherMember differ address here there
    obtain ⟨_, _, rfl⟩ := mem_map.mp here
    obtain ⟨_, _, same⟩ := mem_map.mp there
    obtain ⟨listed, outer, _⟩ := isOuter first member
    obtain ⟨otherListed, otherOuter, _⟩ := isOuter second otherMember
    exact differ (own.eq_of_pathName listed outer otherListed otherOuter
      (congrArg Prod.fst same).symm)
  · rintro address here other there rfl
    obtain ⟨bit, hidden, rfl⟩ := mem_map.mp here
    obtain ⟨pin, member, there⟩ := mem_flatMap.mp there
    obtain ⟨_, _, same⟩ := mem_map.mp there
    rw [hiddenBitsFrom_succ_eq] at hidden
    obtain ⟨component, listed, hidden⟩ := mem_flatMap.mp hidden
    obtain ⟨outer, notPin⟩ := laid.isOuter_of_mem listed hidden
    obtain ⟨pinListed, pinOuter, isPin⟩ := isOuter pin member
    have path : joinPath "" pin.pathName = bit.path := congrArg Prod.fst same
    have leads : pathNames (joinPath "" pin.pathName) <+: pathNames bit.path :=
      path ▸ prefix_rfl
    obtain rfl :=
      own.eq_of_prefix listed outer pinListed pinOuter (prefix_of_mem_bitsOf hidden) leads
    exact notPin isPin

theorem nodup_pins_iff {boardDraft : BoardDraft}
    (inOrder : boardDraft.check = .ok board) (addresses : List Address) :
    ((addresses.filterMap fun address => board.pinAt? address.1 address.2).map upper).Nodup ↔
      (addresses.filter fun address => (board.pinAt? address.1 address.2).isSome).Nodup := by
  rw [map_filterMap, List.Nodup, List.Nodup, pairwise_filterMap, pairwise_filter]
  refine List.Pairwise.iff fun first second => ?_
  constructor
  · intro apart placed otherPlaced same
    obtain ⟨pin, placed⟩ := Option.isSome_iff_exists.mp placed
    subst same
    exact apart (upper pin) (by rw [placed]; rfl) (upper pin) (by rw [placed]; rfl) rfl
  · intro differ name known other otherKnown same
    obtain ⟨pin, placed, rfl⟩ := Option.map_eq_some_iff.mp known
    obtain ⟨otherPin, otherPlaced, rfl⟩ := Option.map_eq_some_iff.mp otherKnown
    obtain ⟨path, bit⟩ := Board.pinAt?_unique inOrder placed otherPlaced same
    exact differ (by rw [placed]; rfl) (by rw [otherPlaced]; rfl) (Prod.ext path bit)

/-- **Ports and pins of a checked board.** Around a checked design no port is on the pin of the
oscillator, and two ports are on one pin exactly if two bits that reach outwards are looked up with
one path and position. Labels that tell apart what reaches outwards rule this out. -/
theorem pins_used_once_iff {draft : Draft} {boardDraft : BoardDraft} {board : Board}
    {settings : Settings} {names : Names} {tick : Clock.TickSettings} {wrapper : Wrapper}
    (checked : draft.check = .ok design) (inOrder : boardDraft.check = .ok board)
    (made : Yields (design.wrapper settings names design.layouts tick (some board)) wrapper) :
    ∃ top, design.topCircuit? = some top ∧
      (∀ port ∈ wrapper.ports, upper port.pin ≠ upper board.clockPin) ∧
      ((wrapper.ports.map fun port => upper port.pin).Nodup ↔
        ((design.outerAddresses design.layouts top).filter fun address =>
          (board.pinAt? address.1 address.2).isSome).Nodup) ∧
      ((∀ circuit ∈ design.circuits, circuit.Labelled) →
        (wrapper.ports.map fun port => upper port.pin).Nodup) := by
  obtain ⟨top, root, pins⟩ := pins_of_wrapper made
  have iff := nodup_pins_iff inOrder (design.outerAddresses design.layouts top)
  rw [← pins, List.map_map] at iff
  refine ⟨top, root, ?_, iff, ?_⟩
  · intro port listed
    have pinned : port.pin ∈ wrapper.ports.map (·.pin) := List.mem_map_of_mem listed
    rw [pins] at pinned
    obtain ⟨address, _, placed⟩ := List.mem_filterMap.mp pinned
    exact Board.pinAt?_ne_clockPin inOrder placed
  · intro labelled
    obtain ⟨order, ordered, inside⟩ := Draft.ordered_of_check checked
    have laid := laid_of_check checked ordered inside root
    exact iff.mpr ((nodup_outerAddresses root laid labelled).filter _)

/-- Two panels with a button each and a light at the root, on three pins. -/
theorem pins_used_once_panels :
    let panel : Circuit := ⟨"panel", [], [⟨1, .button, [("label", "go")], [], ""⟩], none⟩
    let main : Circuit := ⟨"main", [], [⟨1, .subcircuit, [("label", "left")], [], "panel"⟩,
      ⟨2, .subcircuit, [("label", "right")], [], "panel"⟩, ⟨3, .led, [], [], ""⟩], none⟩
    let design : Design := ⟨"d", "main", [main, panel], []⟩
    let board : Board := ⟨"b", "", "P9", 50, [⟨"left/go", [⟨.pin "p1", false⟩]⟩,
      ⟨"right/go", [⟨.pin "P2", false⟩]⟩, ⟨"led3", [⟨.pin "P3", true⟩]⟩]⟩
    ∃ names wrapper, (design.plan {}).1 = .ok names ∧
      Yields (design.wrapper {} names design.layouts ⟨.raw, 0, 0⟩ (some board)) wrapper ∧
      wrapper.ports.length = 3 ∧
      (∀ port ∈ wrapper.ports, upper port.pin ≠ upper "P9") ∧
      (wrapper.ports.map fun port => upper port.pin).Nodup := by
  intro panel main design board
  have checked : Draft.check ⟨"d", "main",
      [some ⟨"main", [], [some ⟨1, .subcircuit, [("label", "left")], [], "panel"⟩,
          some ⟨2, .subcircuit, [("label", "right")], [], "panel"⟩,
          some ⟨3, .led, [], [], ""⟩], none⟩,
        some ⟨"panel", [], [some ⟨1, .button, [("label", "go")], [], ""⟩], none⟩], []⟩ =
      .ok design := by rfl
  have inOrder : BoardDraft.check ⟨"b", "", "P9", 50,
      [⟨"left/go", [{ pin := "p1" }]⟩, ⟨"right/go", [{ pin := "P2" }]⟩,
        ⟨"led3", [{ pin := "P3", inverted := true }]⟩]⟩ = .ok board := by rfl
  have gives : (design.plan {}).1.toOption.any (fun names =>
      (outcome (design.wrapper {} names design.layouts ⟨.raw, 0, 0⟩ (some board))
        []).1.toOption.any fun wrapper => wrapper.ports.length == 3) = true := by decide +kernel
  obtain ⟨names, planned, gives⟩ := exists_ok_of_any gives
  obtain ⟨wrapper, made, three⟩ := exists_yields_of_any gives
  obtain ⟨_, _, clock, _, once⟩ := pins_used_once_iff checked inOrder made
  have labelled : ∀ circuit ∈ design.circuits, circuit.Labelled := by
    intro circuit listed
    obtain rfl | listed := List.mem_cons.mp listed
    · exact ⟨by decide +kernel, by decide +kernel⟩
    · obtain rfl := List.mem_singleton.mp listed
      exact ⟨by decide +kernel, by decide +kernel⟩
  exact ⟨names, wrapper, planned, made, beq_iff_eq.mp three, clock, once labelled⟩

/-- A pin and a button with the label "go" both reach the one pin that the board gives this path. -/
theorem button_and_pin_on_one_pin :
    let pin : Component := ⟨1, .pin, [("label", "go")], [⟨"pin", true, [⟨0, 0⟩]⟩], ""⟩
    let button : Component := ⟨2, .button, [("label", "go")], [⟨"Output", true, [⟨1, 0⟩]⟩], ""⟩
    let nets : List Net := [⟨0, 1, false, [], [], none⟩, ⟨1, 1, false, [], [], none⟩]
    let main : Circuit := ⟨"main", nets, [pin, button], none⟩
    let design : Design := ⟨"d", "main", [main], []⟩
    let board : Board := ⟨"b", "", "", 0, [⟨"go", [⟨.pin "P1", false⟩]⟩]⟩
    Draft.check ⟨"d", "main", [some ⟨"main", nets, [some pin, some button], none⟩], []⟩ =
        .ok design ∧
      BoardDraft.check ⟨"b", "", "", 0, [⟨"go", [{ pin := "P1" }]⟩]⟩ = .ok board ∧
      ∃ names wrapper, (design.plan {}).1 = .ok names ∧
        Yields (design.wrapper {} names design.layouts ⟨.raw, 0, 0⟩ (some board)) wrapper ∧
        wrapper.ports.map (fun port => (port.port, port.pin)) =
          [("FPGA_INPUT_PIN_0", "P1"), ("FPGA_INPUT_PIN_1", "P1")] := by
  intro pin button nets main design board
  refine ⟨rfl, rfl, ?_⟩
  have gives : (design.plan {}).1.toOption.any (fun names =>
      (outcome (design.wrapper {} names design.layouts ⟨.raw, 0, 0⟩ (some board))
        []).1.toOption.any fun wrapper =>
          wrapper.ports.map (fun port => (port.port, port.pin)) ==
            [("FPGA_INPUT_PIN_0", "P1"), ("FPGA_INPUT_PIN_1", "P1")]) = true := by decide +kernel
  obtain ⟨names, planned, gives⟩ := exists_ok_of_any gives
  obtain ⟨wrapper, made, ports⟩ := exists_yields_of_any gives
  exact ⟨names, wrapper, planned, made, beq_iff_eq.mp ports⟩

end Design

end Schematic
