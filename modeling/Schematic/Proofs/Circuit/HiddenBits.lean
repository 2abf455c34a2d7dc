import Schematic.Proofs.Circuit.Counting

/-! # Positions of hidden bits -/

open List

namespace Schematic

open Hdl

/-- So many positions from a start on. -/
def span (start count : Int) : List Int :=
  (List.range count.toNat).map fun offset : Nat => start + offset

theorem span_add (start : Int) {first second : Int} (firstCount : 0 ≤ first)
    (secondCount : 0 ≤ second) :
    span start (first + second) = span start first ++ span (start + first) second := by
  have length : (first + second).toNat = first.toNat + second.toNat := by omega
  simp only [span, length, range_add, map_append, map_map]
  congr 1
  refine map_congr_left fun offset _ => ?_
  simp only [Function.comp_apply]
  omega

theorem HiddenCount.bits_add_of_le {first second : HiddenCount} {direction : Direction}
    (begun : 0 ≤ first.bits direction) (count : 0 ≤ second.bits direction)
    (room : first.bits direction + second.bits direction ≤ Word.greatest) :
    (first.add second).bits direction = first.bits direction + second.bits direction := by
  rw [bits_add]
  exact Word.wrap_of_fits (Word.fits_of_le (by omega) room)

namespace Layout

variable {component : Component} {start : HiddenCount} {components : List Component}
  {entry : Component × Share} {direction : Direction}

def placed (size : Component → HiddenCount) : HiddenCount → List Component →
    List (Component × Share)
  | _, [] => []
  | start, component :: components =>
    if (size component).isNone then placed size start components
    else
      (component, ⟨start, size component⟩) ::
        placed size (start.add (size component)) components

def numbered (entries : List (Component × Share)) : List (Int × Share) :=
  entries.map fun entry => (entry.1.id, entry.2)

variable {size : Component → HiddenCount}

theorem placed_none (empty : (size component).isNone = true)
    (start : HiddenCount) (components : List Component) :
    placed size start (component :: components) = placed size start components := by
  rw [placed, if_pos empty]

theorem placed_some (present : (size component).isNone ≠ true)
    (start : HiddenCount) (components : List Component) :
    placed size start (component :: components) = (component, ⟨start, size component⟩) ::
        placed size (start.add (size component)) components := by
  rw [placed, if_neg present]

theorem shares_addAll (layout : Layout) (components : List Component) :
    (layout.addAll (parts size components)).shares =
      layout.shares ++ numbered (placed size layout.total components) := by
  induction components generalizing layout with
  | nil => simp [addAll, parts, placed, numbered]
  | cons component components ih =>
    rw [parts_cons, addAll_cons, ih]
    by_cases empty : (size component).isNone = true
    · rw [add_none empty, placed_none empty]
    · rw [add_some empty, placed_some empty, append_assoc]
      rfl

theorem mem_of_mem_placed (member : entry ∈ placed size start components) :
    entry.1 ∈ components ∧ entry.2.size = size entry.1 := by
  induction components generalizing start with
  | nil => cases member
  | cons component components ih =>
    by_cases empty : (size component).isNone = true
    · rw [placed_none empty] at member
      obtain ⟨present, same⟩ := ih member
      exact ⟨mem_cons_of_mem _ present, same⟩
    · rw [placed_some empty] at member
      obtain rfl | member := mem_cons.mp member
      · exact ⟨mem_cons_self .., rfl⟩
      · obtain ⟨present, same⟩ := ih member
        exact ⟨mem_cons_of_mem _ present, same⟩

theorem exists_placed (member : component ∈ components) (present : (size component).isNone ≠ true)
    (start : HiddenCount) : ∃ share, (component, share) ∈ placed size start components := by
  induction components generalizing start with
  | nil => cases member
  | cons other components ih =>
    by_cases empty : (size other).isNone = true
    · rw [placed_none empty]
      obtain rfl | member := mem_cons.mp member
      · exact absurd empty present
      · exact ih member start
    · rw [placed_some empty]
      obtain rfl | member := mem_cons.mp member
      · exact ⟨_, mem_cons_self ..⟩
      · obtain ⟨share, placed⟩ := ih member (start.add (size other))
        exact ⟨share, mem_cons_of_mem _ placed⟩

theorem lookup_numbered_none {component : Int}
    (apart : component ∉ components.map (·.id)) (start : HiddenCount) :
    (numbered (placed size start components)).lookup component = none := by
  rw [lookup_eq_none_iff]
  intro entry member
  obtain ⟨source, present, rfl⟩ := mem_map.mp member
  have other : component ≠ source.1.id := by
    rintro rfl
    exact apart (mem_map_of_mem (mem_of_mem_placed present).1)
  simpa using other

theorem lookup_numbered_cons {other : Int}
    (apart : other ≠ component.id) (share : Share) (entries : List (Component × Share)) :
    (numbered ((component, share) :: entries)).lookup other = (numbered entries).lookup other := by
  rw [numbered, map_cons, lookup_cons, beq_false_of_ne apart]
  rfl

theorem flatMap_lookup_numbered {α : Type}
    (ids : (components.map (·.id)).Nodup) (body : Component → Share → List α)
    (start : HiddenCount) : (components.flatMap fun component =>
      ((numbered (placed size start components)).lookup component.id).elim [] (body component)) =
      (placed size start components).flatMap fun entry => body entry.1 entry.2 := by
  induction components generalizing start with
  | nil => rfl
  | cons component components ih =>
    obtain ⟨apart, ids⟩ := nodup_cons.mp ids
    by_cases empty : (size component).isNone = true
    · rw [placed_none empty, flatMap_cons, lookup_numbered_none apart, ih ids]
      rfl
    · have others : ∀ other ∈ components, other.id ≠ component.id := by
        intro other member same
        exact apart (mem_map.mpr ⟨other, member, same⟩)
      rw [placed_some empty, flatMap_cons, flatMap_cons,
        ← ih ids (start.add (size component))]
      congr 1
      · simp [numbered]
      · refine flatMap_congr fun other member => ?_
        rw [lookup_numbered_cons (others other member)]

theorem lookup_numbered (ids : (components.map (·.id)).Nodup) {share : Share}
    (member : (component, share) ∈ placed size start components) :
    (numbered (placed size start components)).lookup component.id = some share := by
  induction components generalizing start with
  | nil => cases member
  | cons other components ih =>
    obtain ⟨apart, ids⟩ := nodup_cons.mp ids
    by_cases empty : (size other).isNone = true
    · rw [placed_none empty] at member ⊢
      exact ih ids member
    · rw [placed_some empty] at member ⊢
      obtain same | member := mem_cons.mp member
      · cases same
        simp [numbered]
      · have later : component.id ≠ other.id := by
          intro same
          exact apart (mem_map.mpr ⟨component, (mem_of_mem_placed member).1, same⟩)
        rw [lookup_numbered_cons later]
        exact ih ids member

theorem bits_add_of_sum_le (begun : 0 ≤ start.bits direction)
    (counts : ∀ part ∈ parts size (component :: components), 0 ≤ part.2.bits direction)
    (fitting : start.bits direction + sum (parts size (component :: components)) direction ≤
      Word.greatest) : (start.add (size component)).bits direction =
        start.bits direction + (size component).bits direction ∧
      0 ≤ (size component).bits direction ∧ 0 ≤ sum (parts size components) direction ∧
      ∀ part ∈ parts size components, 0 ≤ part.2.bits direction := by
  rw [sum_parts_cons] at fitting
  rw [parts_cons, forall_mem_cons] at counts
  have count : 0 ≤ (size component).bits direction := counts.1
  have others := sum_nonneg counts.2
  exact ⟨HiddenCount.bits_add_of_le begun count (by omega), count, others, counts.2⟩

theorem inside_of_mem_placed (begun : 0 ≤ start.bits direction)
    (counts : ∀ part ∈ parts size components, 0 ≤ part.2.bits direction)
    (fitting : start.bits direction + sum (parts size components) direction ≤ Word.greatest)
    (member : entry ∈ placed size start components) :
    start.bits direction ≤ entry.2.offset.bits direction ∧
      entry.2.offset.bits direction + entry.2.size.bits direction ≤
        start.bits direction + sum (parts size components) direction := by
  induction components generalizing start with
  | nil => cases member
  | cons component components ih =>
    obtain ⟨next, count, others, counts⟩ := bits_add_of_sum_le begun counts fitting
    rw [sum_parts_cons] at fitting ⊢
    by_cases empty : (size component).isNone = true
    · rw [placed_none empty] at member
      have step := ih begun counts (by omega) member
      omega
    · rw [placed_some empty] at member
      obtain rfl | member := mem_cons.mp member
      · dsimp only
        omega
      · have step := ih (by omega) counts (by omega) member
        omega

theorem length_span (start count : Int) : (span start count).length = count.toNat := by
  simp [span]

theorem length_flatMap_placed_le {α : Type} (body : Component → Share → List α)
    {bound : Component → Int} (each : ∀ component ∈ components, ∀ offset,
      ((body component ⟨offset, size component⟩).length : Int) ≤ bound component)
    (start : HiddenCount) :
    (((placed size start components).flatMap fun entry => body entry.1 entry.2).length : Int) ≤
      (components.map bound).sum := by
  induction components generalizing start with
  | nil => simp [placed]
  | cons component components ih =>
    obtain ⟨here, others⟩ := forall_mem_cons.mp each
    have own := here start
    rw [map_cons, List.sum_cons]
    by_cases empty : (size component).isNone = true
    · have rest := ih others start
      rw [placed_none empty]
      omega
    · have rest := ih others (start.add (size component))
      rw [placed_some empty, flatMap_cons, length_append]
      dsimp only
      omega

/-- If what is listed for each part is its span as long as it can be counted, so is what is listed
for all of them. -/
theorem flatMap_placed_eq_span (bits : Component → Share → List Int) {base : Int}
    (started : 0 ≤ base) (each : ∀ component ∈ components, ∀ offset : HiddenCount,
      0 ≤ offset.bits direction → base + offset.bits direction +
        (bits component ⟨offset, size component⟩).length ≤ Word.greatest →
      0 ≤ (size component).bits direction ∧ bits component ⟨offset, size component⟩ =
        span (base + offset.bits direction) ((size component).bits direction))
    (begun : 0 ≤ start.bits direction) (room : base + start.bits direction +
      ((placed size start components).flatMap fun entry => bits entry.1 entry.2).length ≤
        Word.greatest) :
    (∀ part ∈ parts size components, 0 ≤ part.2.bits direction) ∧
      ((placed size start components).flatMap fun entry => bits entry.1 entry.2) =
        span (base + start.bits direction) (sum (parts size components) direction) := by
  induction components generalizing start with
  | nil => exact ⟨by simp [parts], by simp [placed, span, sum, parts]⟩
  | cons component components ih =>
    obtain ⟨own, others⟩ := forall_mem_cons.mp each
    rw [parts_cons, forall_mem_cons, sum_cons]
    by_cases empty : (size component).isNone = true
    · have none := HiddenCount.isNone_iff.mp empty direction
      rw [placed_none empty] at room ⊢
      obtain ⟨counts, listed⟩ := ih others begun room
      exact ⟨⟨Int.le_of_eq none.symm, counts⟩, by rw [listed, none, Int.zero_add]⟩
    · rw [placed_some empty, flatMap_cons, length_append] at room
      rw [placed_some empty, flatMap_cons]
      dsimp only at room ⊢
      obtain ⟨count, here⟩ := own start begun (by omega)
      rw [here, length_span] at room
      have next : (start.add (size component)).bits direction =
          start.bits direction + (size component).bits direction :=
        HiddenCount.bits_add_of_le begun count (by omega)
      obtain ⟨counts, listed⟩ := @ih (start.add (size component)) others (by omega) (by omega)
      exact ⟨⟨count, counts⟩, by
        rw [here, listed, next, span_add _ count (sum_nonneg counts), Int.add_assoc]⟩

end Layout

/-- The positions of the hidden bits of one direction. -/
def positions (direction : Direction) (bits : List HiddenBit) : List Int :=
  (bits.filter (·.direction = direction)).map (·.index)

theorem positions_flatMap {α : Type} (direction : Direction) (items : List α)
    (bits : α → List HiddenBit) : positions direction (items.flatMap bits) =
      items.flatMap fun item => positions direction (bits item) := by
  simp only [positions, filter_flatMap, map_flatMap]

theorem Component.mem_hiddenBits {component : Component} {path : String}
    {place size : HiddenCount} {bit : HiddenBit} : bit ∈ component.hiddenBits path place size ↔
      (bit.bit : Int) < size.bits bit.direction ∧
        bit.index = Word.wrap (place.bits bit.direction + bit.bit) ∧ bit.path = path ∧
        bit.kind = component.kind := by
  obtain ⟨direction, index, bitPath, position, kind⟩ := bit
  simp only [hiddenBits, mem_append, mem_map, mem_range, HiddenBit.mk.injEq]
  cases direction <;> simp [HiddenCount.bits] <;> grind

theorem Component.positions_hiddenBits (component : Component) (path : String)
    (place size : HiddenCount) (direction : Direction) :
    positions direction (component.hiddenBits path place size) =
      (List.range (size.bits direction).toNat).map fun bit : Nat =>
        Word.wrap (place.bits direction + bit) := by
  cases direction <;>
    simp [positions, hiddenBits, filter_map, Function.comp_def, HiddenCount.bits]

namespace Design

variable {place : HiddenCount} {depth : Nat} {design : Design} {layouts : Layouts}
  {direction : Direction} {circuit : Circuit}

namespace Laid

variable (stored : design.Laid layouts circuit)
include stored

theorem ids : (circuit.components.map (·.id)).Nodup :=
  (stored.indexed.circuits circuit (circuit?_eq_some stored.found).1).componentIds

theorem shares_eq (plain : circuit.blackBox = none) : (layouts.ofCircuit circuit.name).shares =
      Layout.numbered (Layout.placed (design.hiddenIn layouts) .none circuit.components) := by
  rw [stored.layout_eq, laidOut, plain, Option.isSome_none, if_neg Bool.false_ne_true,
    Layout.shares_addAll]
  rfl

end Laid

structure Counted (design : Design) (layouts : Layouts) (direction : Direction)
    (circuit : Circuit) : Prop extends design.Laid layouts circuit where
  bound : design.hiddenNumber direction circuit ≤ Word.greatest

namespace Counted

variable {component : Component}

section

variable (counted : design.Counted layouts direction circuit)
include counted

theorem total_eq : (layouts.ofCircuit circuit.name).total.bits direction =
      design.hiddenNumber direction circuit :=
  (counted.tiles (.inl counted.bound)).2.2

section

variable (plain : circuit.blackBox = none)
include plain

theorem inner (present : component ∈ circuit.components) (isInner : component.kind = .subcircuit)
    {inner : Circuit} (found : design.circuit? component.circuit = some inner) :
    design.Counted layouts direction inner :=
  ⟨counted.below plain present isInner found,
    Int.le_trans (counted.hiddenNumber_le direction plain present isInner found) counted.bound⟩

theorem hiddenIn_eq (present : component ∈ circuit.components) :
    (design.hiddenIn layouts component).bits direction =
      design.componentNumber direction component := by
  apply hiddenIn_eq_componentNumber
  intro isInner inner found
  exact (counted.inner plain present isInner found).total_eq

theorem counts : ∀ part ∈ Layout.parts (design.hiddenIn layouts) circuit.components,
      0 ≤ part.2.bits direction := by
  intro part member
  obtain ⟨component, present, rfl⟩ := mem_map.mp member
  rw [counted.hiddenIn_eq plain present]
  exact componentNumber_nonneg direction component

theorem sum_eq : Layout.sum (Layout.parts (design.hiddenIn layouts) circuit.components) direction =
      design.hiddenNumber direction circuit := by
  rw [sum_hiddenIn fun component present => counted.hiddenIn_eq plain present,
    counted.hiddenNumber_eq, plain]
  rfl

theorem share_inside {share : Share} (member : (component, share) ∈
      Layout.placed (design.hiddenIn layouts) .none circuit.components) :
    0 ≤ share.offset.bits direction ∧ share.offset.bits direction + share.size.bits direction ≤
        design.hiddenNumber direction circuit := by
  have start := HiddenCount.bits_none direction
  have sums := counted.sum_eq plain
  have bound := counted.bound
  have inside := Layout.inside_of_mem_placed (by omega) (counted.counts plain) (by omega) member
  rw [start, sums, Int.zero_add] at inside
  exact inside

end

end

end Counted

def bitsAt (design : Design) (layouts : Layouts) (depth : Nat) (path : String)
    (place : HiddenCount) (component : Component) (share : Share) : List HiddenBit :=
  let place := place.add share.offset
  let path := joinPath path component.pathName
  if component.kind = .subcircuit then
    match design.circuit? component.circuit with
    | some inner => design.hiddenBitsFrom layouts depth inner path place
    | none => []
  else component.hiddenBits path place share.size

theorem Laid.hiddenBitsFrom_succ (stored : design.Laid layouts circuit)
    (plain : circuit.blackBox = none) (depth : Nat) (path : String) (place : HiddenCount) :
    design.hiddenBitsFrom layouts (depth + 1) circuit path place =
      (Layout.placed (design.hiddenIn layouts) .none circuit.components).flatMap fun entry =>
        design.bitsAt layouts depth path place entry.1 entry.2 := by
  rw [hiddenBitsFrom, ← Layout.flatMap_lookup_numbered stored.ids]
  refine flatMap_congr fun component _ => ?_
  rw [Layout.share?, stored.shares_eq plain]
  cases (Layout.numbered (Layout.placed (design.hiddenIn layouts) .none
    circuit.components)).lookup component.id <;> rfl

theorem Laid.hiddenBitsFrom_blackBox (stored : design.Laid layouts circuit)
    {box : BlackBox} (boxed : circuit.blackBox = some box) (depth : Nat) (path : String)
    (place : HiddenCount) : design.hiddenBitsFrom layouts depth circuit path place = [] := by
  cases depth with
  | zero => rfl
  | succ depth =>
    rw [hiddenBitsFrom, flatMap_eq_nil_iff]
    intro component _
    rw [stored.layout_eq, laidOut, boxed]
    rfl

theorem positions_leaf {component : Component} {path : String} {size : HiddenCount}
    (begun : 0 ≤ place.bits direction)
    (room : place.bits direction + size.bits direction ≤ Word.greatest) :
    positions direction (component.hiddenBits path place size) =
      span (place.bits direction) (size.bits direction) := by
  rw [Component.positions_hiddenBits]
  refine map_congr_left fun bit listed => ?_
  have below := mem_range.mp listed
  exact Word.wrap_of_fits (Word.fits_of_le (by omega) (by omega))

theorem Laid.length_positions_le (stored : design.Laid layouts circuit) (direction : Direction)
    (depth : Nat) (path : String) (place : HiddenCount) :
    ((positions direction (design.hiddenBitsFrom layouts depth circuit path place)).length : Int) ≤
      design.numberFrom direction depth circuit := by
  induction depth generalizing circuit path place with
  | zero => exact Int.le_refl 0
  | succ depth ih =>
    rw [numberFrom]
    cases box : circuit.blackBox with
    | some text =>
      rw [stored.hiddenBitsFrom_blackBox box]
      exact Int.le_refl 0
    | none =>
      rw [stored.hiddenBitsFrom_succ box, positions_flatMap, Option.isSome_none,
        if_neg Bool.false_ne_true]
      refine Layout.length_flatMap_placed_le (fun component share => positions direction
        (design.bitsAt layouts depth path place component share))
          (fun component present offset => ?_) _
      simp only [bitsAt, hiddenIn]
      by_cases isInner : component.kind = .subcircuit
      · simp only [if_pos isInner]
        cases found : design.circuit? component.circuit with
        | none => exact Int.le_refl 0
        | some inner => exact ih (stored.below box present isInner found) _ _
      · have count := component.hidden_nonneg direction
        simp only [if_neg isInner, Component.positions_hiddenBits, length_map, length_range]
        omega

/-- The bits listed below a circuit take the positions of its hidden port, as long as they can be
counted. -/
def Spans (design : Design) (layouts : Layouts) (direction : Direction) (depth : Nat)
    (circuit : Circuit) : Prop :=
  ∀ (path : String) (place : HiddenCount), 0 ≤ place.bits direction →
    place.bits direction + (positions direction
      (design.hiddenBitsFrom layouts depth circuit path place)).length ≤ Word.greatest →
    0 ≤ (layouts.ofCircuit circuit.name).total.bits direction ∧
      positions direction (design.hiddenBitsFrom layouts depth circuit path place) =
        span (place.bits direction) ((layouts.ofCircuit circuit.name).total.bits direction)

theorem positions_bitsAt {component : Component} (inside : component.kind = .subcircuit →
      ∀ inner, design.circuit? component.circuit = some inner →
        design.Spans layouts direction depth inner)
    (path : String) (begun : 0 ≤ place.bits direction) {offset : HiddenCount}
    (ahead : 0 ≤ offset.bits direction)
    (room :
      place.bits direction + offset.bits direction + (positions direction (design.bitsAt layouts
      depth path place component ⟨offset, design.hiddenIn layouts component⟩)).length ≤
        Word.greatest) :
    0 ≤ (design.hiddenIn layouts component).bits direction ∧
      positions direction (design.bitsAt layouts depth path place component
        ⟨offset, design.hiddenIn layouts component⟩) =
          span (place.bits direction + offset.bits direction)
            ((design.hiddenIn layouts component).bits direction) := by
  have placeBits := HiddenCount.bits_add_of_le begun ahead (by omega)
  rw [← placeBits] at room ⊢
  simp only [bitsAt, hiddenIn] at room ⊢
  by_cases isInner : component.kind = .subcircuit
  · simp only [if_pos isInner] at room ⊢
    cases found : design.circuit? component.circuit with
    | none =>
      have start := HiddenCount.bits_none direction
      exact ⟨Int.le_of_eq start.symm, by simp [positions, span, start]⟩
    | some inner =>
      rw [found] at room
      exact inside isInner inner found _ _ (by omega) room
  · simp only [if_neg isInner, Component.positions_hiddenBits, length_map, length_range] at room
    simp only [if_neg isInner]
    have count := component.hidden_nonneg direction
    exact ⟨count, positions_leaf (by omega) (by omega)⟩

theorem Laid.spans {names : List String} (ordered : design.Ordered names)
    (enough : names.length ≤ depth) (listed : circuit.name ∈ names)
    (stored : design.Laid layouts circuit) : design.Spans layouts direction depth circuit := by
  have all : design.Laid layouts circuit → design.Spans layouts direction depth circuit := by
    refine ordered_induction (fun _ _ _ _ here _ => here) ?_ ordered enough stored.found listed
    intro depth _ circuit _ _ inside stored path place begun room
    have start := HiddenCount.bits_none direction
    rw [stored.layout_eq, laidOut]
    cases box : circuit.blackBox with
    | some text =>
      rw [stored.hiddenBitsFrom_blackBox box]
      exact ⟨Int.le_of_eq start.symm, by simp [positions, span, start]⟩
    | none =>
      rw [stored.hiddenBitsFrom_succ box, positions_flatMap] at room ⊢
      have begins : 0 ≤ HiddenCount.none.bits direction := Int.le_of_eq start.symm
      obtain ⟨counts, spanned⟩ := Layout.flatMap_placed_eq_span
        (fun component share => positions direction
          (design.bitsAt layouts depth path place component share)) begun
        (fun component present offset ahead short => positions_bitsAt
          (fun isInner inner found =>
            inside component present isInner inner found (stored.below box present isInner found))
          path begun ahead short) begins (by rw [start, Int.add_zero]; exact room)
      have few := Layout.sum_nonneg counts
      rw [spanned, Layout.length_span] at room
      have blank : ({} : Layout).total.bits direction = 0 := start
      have total := (Layout.tiles_addAll (Layout.tiles_empty direction) begins counts
        (by omega)).2
      rw [blank, Int.zero_add] at total
      rw [spanned, start, Int.add_zero, Option.isSome_none, if_neg Bool.false_ne_true, total]
      exact ⟨few, rfl⟩
  exact all stored

end Design

end Schematic
