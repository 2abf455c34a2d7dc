import Mathlib.Algebra.Order.BigOperators.Group.List
import Schematic.Proofs.Circuit.Layout

/-! # Counting hidden bits -/

open List

namespace Schematic

open Hdl

theorem Component.hidden_nonneg (component : Component) (direction : Direction) :
    0 ≤ component.hidden.bits direction := by
  unfold Component.hidden
  cases component.variant? with
  | none => simp
  | some variant =>
    cases variant <;> cases direction <;> simp [Variant.hidden, HiddenCount.bits, HiddenCount.none]

namespace Design

variable {circuit target : Circuit} {component : Component} {depth : Nat} {layouts : Layouts}
  {layout : Layout} {direction : Direction} {components : List Component} {entry : String × Layout}
  {design : Design} {names : List String}

theorem Ordered.mem_of_inside (ordered : design.Ordered names)
    (found : design.circuit? circuit.name = some circuit) (listed : circuit.name ∈ names)
    (present : component ∈ circuit.components)
    (isInner : component.kind = .subcircuit) : component.circuit ∈ names := by
  induction names with
  | nil => cases listed
  | cons name names ih =>
    obtain ⟨_, ⟨head, headFound, inside⟩, rest⟩ := ordered
    obtain rfl | listed := mem_cons.mp listed
    · rw [found] at headFound
      cases headFound
      exact mem_cons_of_mem _ (inside component present isInner)
    · exact mem_cons_of_mem _ (ih rest listed)

/-- The number of hidden bits of a circuit, no deeper than `depth`. -/
def numberFrom (design : Design) (direction : Direction) : (depth : Nat) → Circuit → Int
  | 0, _ => 0
  | depth + 1, circuit =>
    if circuit.blackBox.isSome then 0
    else
      (circuit.components.map fun component =>
        if component.kind = .subcircuit then
          match design.circuit? component.circuit with
          | some inner => numberFrom design direction depth inner
          | none => 0
        else component.hidden.bits direction).sum

/-- The number of hidden bits of one direction in a circuit and below it. -/
def hiddenNumber (design : Design) (direction : Direction) (circuit : Circuit) : Int :=
  design.numberFrom direction (design.circuits.length + 1) circuit

def componentNumber (design : Design) (direction : Direction) (component : Component) : Int :=
  if component.kind = .subcircuit then
    match design.circuit? component.circuit with
    | some inner => design.hiddenNumber direction inner
    | none => 0
  else component.hidden.bits direction

theorem numberFrom_nonneg (direction : Direction) (depth : Nat) (circuit : Circuit) :
    0 ≤ design.numberFrom direction depth circuit := by
  induction depth generalizing circuit with
  | zero => exact Int.le_refl 0
  | succ depth ih =>
    rw [numberFrom]
    split
    · exact Int.le_refl 0
    · apply sum_nonneg
      intro number member
      obtain ⟨component, _, rfl⟩ := mem_map.mp member
      split
      · split
        · exact ih _
        · exact Int.le_refl 0
      · exact component.hidden_nonneg direction

theorem componentNumber_nonneg (direction : Direction) (component : Component) :
    0 ≤ design.componentNumber direction component := by
  unfold componentNumber
  split
  · split
    · exact numberFrom_nonneg ..
    · exact Int.le_refl 0
  · exact component.hidden_nonneg direction

theorem numberFrom_eq (ordered : design.Ordered names) (direction : Direction) {other : Nat}
    (enough : names.length ≤ depth) (otherEnough : names.length ≤ other)
    (found : design.circuit? circuit.name = some circuit) (listed : circuit.name ∈ names) :
    design.numberFrom direction depth circuit = design.numberFrom direction other circuit := by
  have all : ∀ other, names.length ≤ other →
      design.numberFrom direction depth circuit = design.numberFrom direction other circuit := by
    refine ordered_induction ?_ ?_ ordered enough found listed
    · intro depth names more circuit narrow suffix other enough
      exact narrow other (Nat.le_trans suffix.length_le enough)
    · intro depth rest circuit _ _ inside other enough
      cases other with
      | zero => simp at enough
      | succ other =>
        have shorter : rest.length ≤ other := by simpa using enough
        simp only [numberFrom]
        split
        · rfl
        · refine congrArg List.sum (map_congr_left fun component present => ?_)
          by_cases isInner : component.kind = .subcircuit
          · rw [if_pos isInner, if_pos isInner]
            cases innerFound : design.circuit? component.circuit with
            | none => rfl
            | some inner =>
              exact inside component present isInner inner innerFound other shorter
          · rw [if_neg isInner, if_neg isInner]
  exact all other otherEnough

structure Laid (design : Design) (layouts : Layouts) (circuit : Circuit) : Prop where
  found : design.circuit? circuit.name = some circuit
  ordered : ∃ names, design.Ordered names ∧ circuit.name ∈ names
  indexed : design.Indexed
  lays : design.Lays layouts
  laid : ∃ layout, layouts.lookup circuit.name = some layout

namespace Laid

section

variable (stored : design.Laid layouts circuit)
include stored

theorem mem : (circuit.name, layouts.ofCircuit circuit.name) ∈ layouts := by
  obtain ⟨layout, laid⟩ := stored.laid
  rw [Layouts.ofCircuit, laid, Option.getD_some]
  exact mem_of_lookup laid

theorem closes : design.Closes layouts circuit ∧
    layouts.ofCircuit circuit.name = design.laidOut layouts circuit := by
  obtain ⟨other, found, closes, same⟩ := stored.lays _ stored.mem
  obtain rfl := Option.some.inj (stored.found.symm.trans found)
  exact ⟨closes, same⟩

theorem layout_eq : layouts.ofCircuit circuit.name = design.laidOut layouts circuit :=
  stored.closes.2

theorem below (plain : circuit.blackBox = none) {component : Component}
    (present : component ∈ circuit.components) (isInner : component.kind = .subcircuit)
    {inner : Circuit} (found : design.circuit? component.circuit = some inner) :
    design.Laid layouts inner := by
  obtain ⟨names, ordered, listed⟩ := stored.ordered
  have same := (circuit?_eq_some found).2
  exact {
    found := same ▸ found
    ordered := ⟨names, ordered,
      same ▸ ordered.mem_of_inside stored.found listed present isInner⟩
    indexed := stored.indexed
    lays := stored.lays
    laid := stored.closes.1 plain component present isInner inner found }

theorem hiddenNumber_eq (direction : Direction) : design.hiddenNumber direction circuit =
      if circuit.blackBox.isSome then 0
      else (circuit.components.map (design.componentNumber direction)).sum := by
  rw [hiddenNumber, numberFrom]
  split
  · rfl
  · refine congrArg List.sum (map_congr_left fun component present => ?_)
    rw [componentNumber]
    by_cases isInner : component.kind = .subcircuit
    · rw [if_pos isInner, if_pos isInner]
      cases innerFound : design.circuit? component.circuit with
      | none => rfl
      | some inner =>
        obtain ⟨names, ordered, listed⟩ := stored.ordered
        have same := (circuit?_eq_some innerFound).2
        have length := ordered.length_le
        exact numberFrom_eq ordered direction length (by omega) (same ▸ innerFound)
          (same ▸ ordered.mem_of_inside stored.found listed present isInner)
    · rw [if_neg isInner, if_neg isInner]

theorem componentNumber_le (direction : Direction) (plain : circuit.blackBox = none)
    (present : component ∈ circuit.components) :
    design.componentNumber direction component ≤ design.hiddenNumber direction circuit := by
  rw [stored.hiddenNumber_eq direction, plain]
  refine single_le_sum ?_ _ (mem_map_of_mem present)
  intro number member
  obtain ⟨other, _, rfl⟩ := mem_map.mp member
  exact componentNumber_nonneg direction other

theorem hiddenNumber_le (direction : Direction) (plain : circuit.blackBox = none)
    (present : component ∈ circuit.components) (isInner : component.kind = .subcircuit)
    {inner : Circuit} (found : design.circuit? component.circuit = some inner) :
    design.hiddenNumber direction inner ≤ design.hiddenNumber direction circuit := by
  have smaller := stored.componentNumber_le direction plain present
  rwa [componentNumber, if_pos isInner, found] at smaller

end

@[elab_as_elim]
theorem induction {property : Circuit → Prop}
    (step : ∀ circuit, design.Laid layouts circuit → (circuit.blackBox = none →
      ∀ component ∈ circuit.components, component.kind = .subcircuit →
        ∀ inner, design.circuit? component.circuit = some inner → property inner) →
      property circuit) (stored : design.Laid layouts circuit) : property circuit := by
  obtain ⟨names, ordered, listed⟩ := stored.ordered
  have all : design.Laid layouts circuit → property circuit := by
    refine ordered_induction (fun _ _ _ _ here _ => here) ?_ ordered (Nat.le_refl _) stored.found
      listed
    intro _ _ circuit _ _ inside stored
    refine step circuit stored fun plain component present isInner inner found => ?_
    exact inside component present isInner inner found (stored.below plain present isInner found)
  exact all stored

end Laid

theorem sum_hiddenIn
    (counted : ∀ component ∈ components, (design.hiddenIn layouts component).bits direction =
      design.componentNumber direction component) :
    Layout.sum (Layout.parts (design.hiddenIn layouts) components) direction =
      (components.map (design.componentNumber direction)).sum := by
  rw [Layout.sum, Layout.parts, map_map]
  exact congrArg List.sum (map_congr_left counted)

theorem hiddenIn_eq_componentNumber (inside : component.kind = .subcircuit → ∀ inner,
      design.circuit? component.circuit = some inner →
        (layouts.ofCircuit inner.name).total.bits direction = design.hiddenNumber direction inner) :
    (design.hiddenIn layouts component).bits direction =
      design.componentNumber direction component := by
  unfold hiddenIn componentNumber
  by_cases isInner : component.kind = .subcircuit
  · rw [if_pos isInner, if_pos isInner]
    cases found : design.circuit? component.circuit with
    | none => simp
    | some inner => exact inside isInner inner found
  · rw [if_neg isInner, if_neg isInner]

/-- The shares of a circuit tile its hidden port if its hidden bits can be counted, and they can if
the shares of all circuits tile their ports. -/
theorem Laid.tiles (stored : design.Laid layouts circuit)
    (decided : design.hiddenNumber direction circuit ≤ Word.greatest ∨
      ∀ entry ∈ layouts, entry.2.Tiles direction) :
    (layouts.ofCircuit circuit.name).Tiles direction ∧
      design.hiddenNumber direction circuit ≤ Word.greatest ∧
      (layouts.ofCircuit circuit.name).total.bits direction =
        design.hiddenNumber direction circuit := by
  revert decided
  refine Laid.induction ?_ stored
  intro circuit stored inside decided
  have counted : circuit.blackBox = none → ∀ component ∈ circuit.components,
      (design.hiddenIn layouts component).bits direction =
        design.componentNumber direction component := by
    intro plain component present
    apply hiddenIn_eq_componentNumber
    intro isInner inner found
    have smaller := stored.hiddenNumber_le direction plain present isInner found
    exact (inside plain component present isInner inner found
      (decided.imp_left (Int.le_trans smaller))).2.2
  have own := decided.imp_right fun tiled => tiled _ stored.mem
  simp only [stored.layout_eq, laidOut, stored.hiddenNumber_eq] at own ⊢
  cases box : circuit.blackBox with
  | some text =>
    simp only [Option.isSome_some, if_true]
    exact ⟨Layout.tiles_empty direction, by decide, HiddenCount.bits_none direction⟩
  | none =>
    simp only [box, Option.isSome_none, Bool.false_eq_true, if_false] at own ⊢
    have counts : ∀ part ∈ Layout.parts (design.hiddenIn layouts) circuit.components,
        0 ≤ part.2.bits direction := by
      intro part member
      obtain ⟨component, present, rfl⟩ := mem_map.mp member
      rw [counted box component present]
      exact componentNumber_nonneg direction component
    have sums := sum_hiddenIn (counted box)
    have bound : (circuit.components.map (design.componentNumber direction)).sum ≤
        Word.greatest := by
      obtain bound | tiles := own
      · exact bound
      · rw [← sums]
        exact Layout.sum_le_of_tiles counts tiles
    have start : ({} : Layout).total.bits direction = 0 := HiddenCount.bits_none direction
    have built := Layout.tiles_addAll (Layout.tiles_empty direction) (by omega) counts (by omega)
    rw [start, sums, Int.zero_add] at built
    exact ⟨built.1, bound, built.2⟩

/-- Every circuit that gets a layout below a circuit has at most its hidden bits. -/
theorem Laid.of_mem_layoutFrom {final : Layouts} (stored : design.Laid final circuit)
    (member : entry ∈ design.layoutFrom depth layouts circuit) :
    entry ∈ layouts ∨ ∃ target, design.Laid final target ∧ target.name = entry.1 ∧
      design.hiddenNumber direction target ≤ design.hiddenNumber direction circuit := by
  induction depth generalizing layouts circuit entry with
  | zero => exact .inl member
  | succ depth ih =>
    have self : ∃ target, design.Laid final target ∧ target.name = circuit.name ∧
        design.hiddenNumber direction target ≤ design.hiddenNumber direction circuit :=
      ⟨circuit, stored, rfl, Int.le_refl _⟩
    rw [layoutFrom_succ] at member
    split at member
    · exact .inl member
    split at member
    · obtain rfl | member := mem_cons.mp member
      · exact .inr self
      · exact .inl member
    case isFalse notBox =>
      have plain : circuit.blackBox = none := Option.not_isSome_iff_eq_none.mp notBox
      obtain rfl | member := mem_cons.mp member
      · exact .inr self
      · refine foldlRecOn (motive := fun state : Layouts × Layout => entry ∈ state.1 → _) _ _ .inl
          ?_ member
        intro state known component present member
        simp only [layoutStep, layoutComponent] at member
        split at member
        case isTrue isInner =>
          split at member
          case h_1 inner found =>
            obtain member | ⟨target, laid, same, smaller⟩ :=
              ih (stored.below plain present isInner found) member
            · exact known member
            · have whole := stored.hiddenNumber_le direction plain present isInner found
              exact .inr ⟨target, laid, same, Int.le_trans smaller whole⟩
          case h_2 => exact known member
        case isFalse => exact known member

theorem tiles_layouts_iff {top : Circuit} (stored : design.Laid design.layouts top)
    (root : design.topCircuit? = some top) (direction : Direction) :
    (∀ entry ∈ design.layouts, entry.2.Tiles direction) ↔
      design.hiddenNumber direction top ≤ Word.greatest := by
  constructor
  · exact fun tiled => (stored.tiles (.inr tiled)).2.1
  · intro bound entry member
    have listed := member
    rw [layouts, root] at listed
    obtain ⟨target, below, same, smaller⟩ :=
      (stored.of_mem_layoutFrom listed).resolve_left not_mem_nil
    obtain ⟨circuit, found, _, built⟩ := stored.lays entry member
    rw [← same, below.found] at found
    cases found
    rw [built, ← below.layout_eq]
    exact (below.tiles (.inl (Int.le_trans smaller bound))).1

end Design

end Schematic
