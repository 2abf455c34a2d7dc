import Mathlib.Algebra.Order.Ring.Int
import Schematic.Circuit.Layout
import Schematic.Proofs.Naming.Registry
import Schematic.Proofs.Netlist.Hierarchy

/-! # Layouts of a hierarchy -/

namespace Schematic

open Hdl

theorem Word.wrap_le (n : Int) : Word.wrap n ≤ Word.greatest := by
  have below := Int.bmod_lt (x := n) (m := Word.modulus) (by decide)
  simp only [Word.modulus] at below
  simp only [Word.wrap, Word.modulus, Word.greatest]
  omega

theorem Word.fits_of_le {n : Int} (nonneg : 0 ≤ n) (bound : n ≤ Word.greatest) :
    Word.fits n = true := by
  rw [Word.fits_iff]
  simp only [Word.least]
  omega

namespace HiddenCount

/-- The count of one direction. -/
def bits (count : HiddenCount) : Direction → Int
  | .input => count.inputs
  | .output => count.outputs
  | .bidirectional => count.inouts

@[simp] theorem bits_none (direction : Direction) : HiddenCount.none.bits direction = 0 := by
  cases direction <;> rfl

@[simp] theorem bits_add (first second : HiddenCount) (direction : Direction) :
    (first.add second).bits direction =
      Word.wrap (first.bits direction + second.bits direction) := by
  cases direction <;> rfl

theorem isNone_iff {count : HiddenCount} :
    count.isNone = true ↔ ∀ direction, count.bits direction = 0 := by
  constructor
  · intro empty direction
    simp only [isNone, Bool.and_eq_true, beq_iff_eq] at empty
    cases direction <;> simp [bits, empty]
  · intro empty
    have inputs := empty .input
    have outputs := empty .output
    have inouts := empty .bidirectional
    simp only [bits] at inputs outputs inouts
    simp [isNone, inputs, outputs, inouts]

end HiddenCount

/-- Whether a position on the hidden port of a direction belongs to a share. -/
def Share.Holds (share : Share) (direction : Direction) (position : Int) : Prop :=
  share.offset.bits direction ≤ position ∧
    position < share.offset.bits direction + share.size.bits direction

namespace Layout

/-- The shares lie side by side on the hidden port of a direction and leave no bit of it out. -/
structure Tiles (layout : Layout) (direction : Direction) : Prop where
  covers : ∀ position, (0 ≤ position ∧ position < layout.total.bits direction) ↔
    ∃ entry ∈ layout.shares, entry.2.Holds direction position
  disjoint : layout.shares.Pairwise fun first second =>
    ∀ position, ¬(first.2.Holds direction position ∧ second.2.Holds direction position)

def addAll (layout : Layout) (parts : List (Int × HiddenCount)) : Layout :=
  parts.foldl (fun layout part => layout.add part.1 part.2) layout

theorem addAll_cons (layout : Layout) (part : Int × HiddenCount)
    (parts : List (Int × HiddenCount)) :
    layout.addAll (part :: parts) = (layout.add part.1 part.2).addAll parts := rfl

def sum (parts : List (Int × HiddenCount)) (direction : Direction) : Int :=
  (parts.map fun part => part.2.bits direction).sum

theorem sum_cons (part : Int × HiddenCount) (parts : List (Int × HiddenCount))
    (direction : Direction) : sum (part :: parts) direction =
      part.2.bits direction + sum parts direction := by
  simp only [sum, List.map_cons, List.sum_cons]

theorem sum_nonneg {parts : List (Int × HiddenCount)} {direction : Direction}
    (counts : ∀ part ∈ parts, 0 ≤ part.2.bits direction) : 0 ≤ sum parts direction := by
  induction parts with
  | nil => simp [sum]
  | cons part parts ih =>
    have here := counts part (List.mem_cons_self ..)
    have rest := ih fun part member => counts part (List.mem_cons_of_mem _ member)
    rw [sum_cons]
    omega

def parts (size : Component → HiddenCount) (components : List Component) :
    List (Int × HiddenCount) :=
  components.map fun component => (component.id, size component)

theorem parts_cons (size : Component → HiddenCount) (component : Component)
    (components : List Component) : parts size (component :: components) =
      (component.id, size component) :: parts size components := rfl

theorem sum_parts_cons (size : Component → HiddenCount) (component : Component)
    (components : List Component) (direction : Direction) :
    sum (parts size (component :: components)) direction =
      (size component).bits direction + sum (parts size components) direction :=
  sum_cons ..

theorem add_none {size : HiddenCount} (empty : size.isNone = true) (layout : Layout)
    (component : Int) : layout.add component size = layout := by
  rw [add, if_pos empty]

theorem add_some {size : HiddenCount} (present : size.isNone ≠ true) (layout : Layout)
    (component : Int) : layout.add component size =
      ⟨layout.total.add size, layout.shares ++ [(component, ⟨layout.total, size⟩)]⟩ := by
  rw [add, if_neg present]

theorem total_add {layout : Layout} {size : HiddenCount} {direction : Direction}
    (fitting : Word.fits (layout.total.bits direction + size.bits direction) = true)
    (component : Int) : (layout.add component size).total.bits direction =
      layout.total.bits direction + size.bits direction := by
  by_cases empty : size.isNone = true
  · rw [add_none empty, HiddenCount.isNone_iff.mp empty direction, Int.add_zero]
  · rw [add_some empty]
    simp only [HiddenCount.bits_add]
    exact Word.wrap_of_fits fitting

theorem mem_shares_add {layout : Layout} {entry : Int × Share} (member : entry ∈ layout.shares)
    (component : Int) (size : HiddenCount) : entry ∈ (layout.add component size).shares := by
  by_cases empty : size.isNone = true
  · rwa [add_none empty]
  · rw [add_some empty]
    exact List.mem_append_left _ member

theorem mem_shares_addAll {layout : Layout} {entry : Int × Share}
    (member : entry ∈ layout.shares) (parts : List (Int × HiddenCount)) :
    entry ∈ (layout.addAll parts).shares := by
  induction parts generalizing layout with
  | nil => exact member
  | cons part parts ih =>
    rw [addAll_cons]
    exact ih (mem_shares_add member part.1 part.2)

section

variable {layout : Layout} {direction : Direction} (tiles : layout.Tiles direction)
  (begun : 0 ≤ layout.total.bits direction)
include tiles begun

theorem Tiles.add {size : HiddenCount} (count : 0 ≤ size.bits direction)
    (fitting : Word.fits (layout.total.bits direction + size.bits direction) = true)
    (component : Int) : (layout.add component size).Tiles direction := by
  have total := total_add fitting component
  by_cases empty : size.isNone = true
  · rwa [add_none empty]
  · rw [add_some empty] at total ⊢
    have last : ∀ position, (⟨layout.total, size⟩ : Share).Holds direction position ↔
        layout.total.bits direction ≤ position ∧
          position < layout.total.bits direction + size.bits direction := fun _ => Iff.rfl
    refine ⟨?_, ?_⟩
    · intro position
      simp only [total, List.mem_append, List.mem_singleton, or_and_right, exists_or,
        exists_eq_left, last, ← tiles.covers]
      omega
    · rw [List.pairwise_append]
      refine ⟨tiles.disjoint, List.pairwise_singleton .., ?_⟩
      intro entry member other same position held
      rw [List.mem_singleton.mp same, last] at held
      have inside := (tiles.covers position).mpr ⟨entry, member, held.1⟩
      omega

theorem tiles_addAll {parts : List (Int × HiddenCount)}
    (counts : ∀ part ∈ parts, 0 ≤ part.2.bits direction)
    (fitting : layout.total.bits direction + sum parts direction ≤ Word.greatest) :
    (layout.addAll parts).Tiles direction ∧ (layout.addAll parts).total.bits direction =
        layout.total.bits direction + sum parts direction := by
  induction parts generalizing layout with
  | nil => exact ⟨tiles, by simp [addAll, sum]⟩
  | cons part parts ih =>
    have count := counts part (List.mem_cons_self ..)
    have counts : ∀ part ∈ parts, 0 ≤ part.2.bits direction :=
      fun part member => counts part (List.mem_cons_of_mem _ member)
    have others := sum_nonneg counts
    rw [sum_cons] at fitting ⊢
    rw [addAll_cons]
    have fits : Word.fits (layout.total.bits direction + part.2.bits direction) = true :=
      Word.fits_of_le (by omega) (by omega)
    have total := total_add fits part.1
    have step := ih (tiles.add begun count fits part.1) (by omega) counts (by omega)
    rw [total, Int.add_assoc] at step
    exact step

end

theorem tiles_empty (direction : Direction) : ({} : Layout).Tiles direction := by
  refine ⟨?_, List.Pairwise.nil⟩
  intro position
  simp only [HiddenCount.bits_none, List.not_mem_nil, false_and, exists_false, iff_false]
  omega

theorem total_addAll_le {layout : Layout} {direction : Direction}
    (begun : layout.total.bits direction ≤ Word.greatest) (parts : List (Int × HiddenCount)) :
    (layout.addAll parts).total.bits direction ≤ Word.greatest := by
  induction parts generalizing layout with
  | nil => exact begun
  | cons part parts ih =>
    rw [addAll_cons]
    apply ih
    by_cases empty : part.2.isNone = true
    · rwa [add_none empty]
    · rw [add_some empty]
      exact HiddenCount.bits_add .. ▸ Word.wrap_le _

theorem exists_beyond {layout : Layout} {direction : Direction}
    (begun : 0 ≤ layout.total.bits direction)
    (started : layout.total.bits direction ≤ Word.greatest) {parts : List (Int × HiddenCount)}
    (counts : ∀ part ∈ parts, 0 ≤ part.2.bits direction)
    (more : Word.greatest < layout.total.bits direction + sum parts direction) :
    ∃ entry ∈ (layout.addAll parts).shares, ∃ position,
      Word.greatest ≤ position ∧ entry.2.Holds direction position := by
  induction parts generalizing layout with
  | nil =>
    simp only [sum, List.map_nil, List.sum_nil] at more
    omega
  | cons part parts ih =>
    have count := counts part (List.mem_cons_self ..)
    rw [sum_cons] at more
    rw [addAll_cons]
    by_cases counted : layout.total.bits direction + part.2.bits direction ≤ Word.greatest
    · have fits : Word.fits (layout.total.bits direction + part.2.bits direction) = true :=
        Word.fits_of_le (by omega) counted
      have total := total_add fits part.1
      refine ih (by omega) (by omega) ?_ (by omega)
      exact fun part member => counts part (List.mem_cons_of_mem _ member)
    · have present : part.2.isNone ≠ true := by
        intro empty
        have none := HiddenCount.isNone_iff.mp empty direction
        omega
      refine ⟨(part.1, ⟨layout.total, part.2⟩), ?_,
        layout.total.bits direction + part.2.bits direction - 1, by omega, ?_⟩
      · apply mem_shares_addAll
        rw [add_some present]
        exact List.mem_append_right _ (List.mem_singleton_self _)
      · simp only [Share.Holds]
        omega

theorem sum_le_of_tiles {parts : List (Int × HiddenCount)} {direction : Direction}
    (counts : ∀ part ∈ parts, 0 ≤ part.2.bits direction)
    (tiles : (({} : Layout).addAll parts).Tiles direction) :
    sum parts direction ≤ Word.greatest := by
  by_contra more
  have start : ({} : Layout).total.bits direction = 0 := HiddenCount.bits_none direction
  have zero : (0 : Int) ≤ Word.greatest := by decide
  have begun : 0 ≤ ({} : Layout).total.bits direction := by omega
  have started : ({} : Layout).total.bits direction ≤ Word.greatest := by omega
  obtain ⟨entry, member, position, beyond, held⟩ :=
    exists_beyond begun started counts (by omega)
  have inside := (tiles.covers position).mpr ⟨entry, member, held⟩
  have total := total_addAll_le started parts
  omega

end Layout

namespace Design

variable {design : Design}

def hiddenIn (design : Design) (layouts : Layouts) (component : Component) : HiddenCount :=
  if component.kind = .subcircuit then
    match design.circuit? component.circuit with
    | some inner => (layouts.ofCircuit inner.name).total
    | none => .none
  else component.hidden

def laidOut (design : Design) (layouts : Layouts) (circuit : Circuit) : Layout :=
  if circuit.blackBox.isSome then {}
  else ({} : Layout).addAll (Layout.parts (design.hiddenIn layouts) circuit.components)

def Closes (design : Design) (layouts : Layouts) (circuit : Circuit) : Prop :=
  circuit.blackBox = none → ∀ component ∈ circuit.components, component.kind = .subcircuit →
    ∀ inner, design.circuit? component.circuit = some inner →
      ∃ layout, layouts.lookup inner.name = some layout

def Lays (design : Design) (layouts : Layouts) : Prop :=
  ∀ entry ∈ layouts, ∃ circuit, design.circuit? entry.1 = some circuit ∧
    design.Closes layouts circuit ∧ entry.2 = design.laidOut layouts circuit

structure LaysFrom (design : Design) (names : List String) (before after : Layouts) : Prop where
  lays : design.Lays after
  kept : ∀ name layout, before.lookup name = some layout → after.lookup name = some layout
  fresh : ∀ name layout, after.lookup name = some layout →
    before.lookup name = some layout ∨ name ∈ names

theorem LaysFrom.refl {layouts : Layouts} (lays : design.Lays layouts) (names : List String) :
    design.LaysFrom names layouts layouts :=
  ⟨lays, fun _ _ found => found, fun _ _ found => .inl found⟩

theorem LaysFrom.trans {names : List String} {before between after : Layouts}
    (first : design.LaysFrom names before between)
    (second : design.LaysFrom names between after) : design.LaysFrom names before after := by
  refine ⟨second.lays,
    fun name layout found => second.kept name layout (first.kept name layout found), ?_⟩
  intro name layout found
  obtain found | listed := second.fresh name layout found
  · exact first.fresh name layout found
  · exact .inr listed

theorem LaysFrom.widen {names more : List String} {before after : Layouts}
    (laysFrom : design.LaysFrom names before after) (subset : names ⊆ more) :
    design.LaysFrom more before after :=
  ⟨laysFrom.lays, laysFrom.kept, fun name layout found =>
    (laysFrom.fresh name layout found).imp_right fun listed => subset listed⟩

section

variable {after : Layouts} {before : Layouts}
  (kept : ∀ name layout, before.lookup name = some layout → after.lookup name = some layout)
include kept

theorem hiddenIn_congr {component : Component} (known : component.kind = .subcircuit → ∀ inner,
      design.circuit? component.circuit = some inner →
        ∃ layout, before.lookup inner.name = some layout) :
    design.hiddenIn after component = design.hiddenIn before component := by
  unfold hiddenIn
  by_cases inside : component.kind = .subcircuit
  · rw [if_pos inside, if_pos inside]
    cases found : design.circuit? component.circuit with
    | none => rfl
    | some inner =>
      obtain ⟨layout, laid⟩ := known inside inner found
      simp only [Layouts.ofCircuit, laid, kept inner.name layout laid]
  · rw [if_neg inside, if_neg inside]

theorem laidOut_congr {circuit : Circuit} (closes : design.Closes before circuit) :
    design.laidOut after circuit = design.laidOut before circuit := by
  unfold laidOut
  cases box : circuit.blackBox with
  | some text => rfl
  | none =>
    have sizes : ∀ component ∈ circuit.components,
        (component.id, design.hiddenIn after component) =
          (component.id, design.hiddenIn before component) := by
      intro component member
      rw [hiddenIn_congr kept (closes box component member)]
    simp only [Layout.parts, List.map_congr_left sizes]

end

theorem Closes.mono {before after : Layouts} {circuit : Circuit}
    (closes : design.Closes before circuit)
    (kept : ∀ name layout, before.lookup name = some layout → after.lookup name = some layout) :
    design.Closes after circuit := by
  intro box component member inside inner found
  obtain ⟨layout, laid⟩ := closes box component member inside inner found
  exact ⟨layout, kept inner.name layout laid⟩

theorem Lays.laysFrom_cons {layouts : Layouts} (lays : design.Lays layouts) {circuit : Circuit}
    (found : design.circuit? circuit.name = some circuit) (closes : design.Closes layouts circuit)
    (fresh : layouts.lookup circuit.name = none) : design.LaysFrom [circuit.name] layouts
      ((circuit.name, design.laidOut layouts circuit) :: layouts) := by
  have kept : ∀ name layout, layouts.lookup name = some layout →
      ((circuit.name, design.laidOut layouts circuit) :: layouts).lookup name = some layout := by
    intro name layout laid
    have other : name ≠ circuit.name := by
      rintro rfl
      rw [fresh] at laid
      cases laid
    rw [List.lookup_cons, beq_false_of_ne other]
    exact laid
  refine ⟨?_, kept, ?_⟩
  · intro entry member
    obtain rfl | member := List.mem_cons.mp member
    · exact ⟨circuit, found, closes.mono kept, (laidOut_congr kept closes).symm⟩
    · obtain ⟨other, otherFound, otherCloses, same⟩ := lays entry member
      exact ⟨other, otherFound, otherCloses.mono kept,
        same.trans (laidOut_congr kept otherCloses).symm⟩
  · intro name layout laid
    by_cases same : name = circuit.name
    · exact .inr (List.mem_singleton.mpr same)
    · rw [List.lookup_cons, beq_false_of_ne same] at laid
      exact .inl laid

def layoutComponent (design : Design) (depth : Nat) (layouts : Layouts) (component : Component) :
    Layouts :=
  if component.kind = .subcircuit then
    match design.circuit? component.circuit with
    | some inner => design.layoutFrom depth layouts inner
    | none => layouts
  else layouts

def layoutStep (design : Design) (depth : Nat) (state : Layouts × Layout)
    (component : Component) : Layouts × Layout :=
  let layouts := design.layoutComponent depth state.1 component
  (layouts, state.2.add component.id (design.hiddenIn layouts component))

theorem layoutFrom_succ (depth : Nat) (layouts : Layouts) (circuit : Circuit) :
    design.layoutFrom (depth + 1) layouts circuit =
      if (layouts.lookup circuit.name).isSome then layouts
      else if circuit.blackBox.isSome then (circuit.name, {}) :: layouts else
        let state := circuit.components.foldl (design.layoutStep depth) (layouts, {})
        (circuit.name, state.2) :: state.1 := by
  rw [layoutFrom]
  split
  · rfl
  split
  · rfl
  refine congrArg (fun step : Layouts × Layout → Component → Layouts × Layout =>
    let state := circuit.components.foldl step (layouts, {})
    (circuit.name, state.2) :: state.1) ?_
  funext state component
  simp only [layoutStep, layoutComponent, hiddenIn]
  by_cases inside : component.kind = .subcircuit
  · simp only [if_pos inside]
    cases design.circuit? component.circuit with
    | none => simp only [Layout.add_none (show HiddenCount.none.isNone = true from rfl)]
    | some inner => rfl
  · simp only [if_neg inside]

theorem laysFrom_foldl {depth : Nat} {names : List String} {components : List Component}
    (each : ∀ component ∈ components, component.kind = .subcircuit → ∀ inner,
      design.circuit? component.circuit = some inner → ∀ layouts, design.Lays layouts →
        design.LaysFrom names layouts (design.layoutFrom depth layouts inner) ∧
          ∃ layout, (design.layoutFrom depth layouts inner).lookup inner.name = some layout)
    {state after : Layouts × Layout} (lays : design.Lays state.1)
    (folded : components.foldl (design.layoutStep depth) state = after) :
    design.LaysFrom names state.1 after.1 ∧
      (∀ component ∈ components, component.kind = .subcircuit → ∀ inner,
        design.circuit? component.circuit = some inner →
          ∃ layout, after.1.lookup inner.name = some layout) ∧
      after.2 = state.2.addAll (Layout.parts (design.hiddenIn after.1) components) := by
  induction components generalizing state with
  | nil =>
    cases folded
    exact ⟨.refl lays names, by simp, rfl⟩
  | cons component components ih =>
    have here : design.LaysFrom names state.1 (design.layoutStep depth state component).1 ∧
        (component.kind = .subcircuit → ∀ inner,
          design.circuit? component.circuit = some inner → ∃ layout,
            (design.layoutStep depth state component).1.lookup inner.name = some layout) := by
      simp only [layoutStep, layoutComponent]
      by_cases inside : component.kind = .subcircuit
      · rw [if_pos inside]
        cases found : design.circuit? component.circuit with
        | none => exact ⟨.refl lays names, by simp⟩
        | some inner =>
          obtain ⟨first, known⟩ := each component (List.mem_cons_self ..) inside inner found
            state.1 lays
          refine ⟨first, fun _ other same => ?_⟩
          cases same
          exact known
      · rw [if_neg inside]
        exact ⟨.refl lays names, fun isInner => absurd isInner inside⟩
    obtain ⟨rest, others, layout⟩ := ih
      (fun other member => each other (List.mem_cons_of_mem _ member)) here.1.lays folded
    refine ⟨here.1.trans rest, ?_, ?_⟩
    · intro other member inside inner found
      obtain rfl | member := List.mem_cons.mp member
      · obtain ⟨layout, laid⟩ := here.2 inside inner found
        exact ⟨layout, rest.kept inner.name layout laid⟩
      · exact others other member inside inner found
    · rw [Layout.parts_cons, Layout.addAll_cons, hiddenIn_congr rest.kept here.2]
      exact layout

def LaysBelow (design : Design) (depth : Nat) (names : List String) (circuit : Circuit) : Prop :=
  ∀ layouts, design.Lays layouts →
    design.LaysFrom names layouts (design.layoutFrom depth layouts circuit) ∧
      ∃ layout, (design.layoutFrom depth layouts circuit).lookup circuit.name = some layout

theorem LaysBelow.widen {depth : Nat} {names more : List String} {circuit : Circuit}
    (below : design.LaysBelow depth names circuit) (suffix : names <:+ more) :
    design.LaysBelow depth more circuit := by
  intro layouts lays
  obtain ⟨laysFrom, known⟩ := below layouts lays
  exact ⟨laysFrom.widen suffix.subset, known⟩

theorem laysBelow_succ {depth : Nat} {rest : List String} {circuit : Circuit}
    (apart : circuit.name ∉ rest) (found : design.circuit? circuit.name = some circuit)
    (inside : ∀ component ∈ circuit.components, component.kind = .subcircuit →
      ∀ inner, design.circuit? component.circuit = some inner → design.LaysBelow depth rest inner) :
    design.LaysBelow (depth + 1) (circuit.name :: rest) circuit := by
  intro layouts lays
  have headSubset : [circuit.name] ⊆ circuit.name :: rest := by simp
  have headKnown : ∀ (layout : Layout) (others : Layouts),
      ∃ found, ((circuit.name, layout) :: others).lookup circuit.name = some found := by
    intro layout others
    exact ⟨layout, List.lookup_cons_self⟩
  rw [layoutFrom_succ]
  split
  case isTrue done => exact ⟨.refl lays _, Option.isSome_iff_exists.mp done⟩
  case isFalse missing =>
  have unlaid : layouts.lookup circuit.name = none := Option.not_isSome_iff_eq_none.mp missing
  split
  case isTrue box =>
    have empty : design.laidOut layouts circuit = {} := if_pos box
    have closes : design.Closes layouts circuit := by
      intro plain
      rw [plain] at box
      cases box
    refine ⟨?_, headKnown _ _⟩
    rw [← empty]
    exact (lays.laysFrom_cons found closes unlaid).widen headSubset
  case isFalse plain =>
    generalize folded : circuit.components.foldl (design.layoutStep depth) (layouts, {}) = after
    obtain ⟨laysFrom, known, layout⟩ := laysFrom_foldl inside lays folded
    have asked : after.2 = design.laidOut after.1 circuit := by
      rw [layout, laidOut, if_neg plain]
    have fresh : after.1.lookup circuit.name = none := by
      cases again : after.1.lookup circuit.name with
      | none => rfl
      | some other =>
        obtain early | listed := laysFrom.fresh circuit.name other again
        · rw [unlaid] at early
          cases early
        · exact absurd listed apart
    refine ⟨?_, headKnown _ _⟩
    simp only [asked]
    exact (laysFrom.widen (List.subset_cons_self ..)).trans
      ((laysFrom.lays.laysFrom_cons found (fun _ => known) fresh).widen headSubset)

theorem lays_layouts {names : List String} (ordered : design.Ordered names)
    (listed : design.top ∈ names) {top : Circuit} (root : design.topCircuit? = some top) :
    design.Lays design.layouts ∧ ∃ layout, design.layouts.lookup top.name = some layout := by
  have same : top.name = design.top := (circuit?_eq_some root).2
  have found : design.circuit? top.name = some top := same ▸ root
  have enough : names.length ≤ design.circuits.length + 1 := by
    have := ordered.length_le
    omega
  have below : design.LaysBelow (design.circuits.length + 1) names top :=
    ordered_induction (fun _ _ _ _ narrow suffix => narrow.widen suffix)
      (fun _ _ _ apart found inside => laysBelow_succ apart found inside)
      ordered enough found (same ▸ listed)
  obtain ⟨laysFrom, known⟩ := below [] (by simp [Lays])
  rw [layouts, root]
  exact ⟨laysFrom.lays, known⟩

end Design

end Schematic
