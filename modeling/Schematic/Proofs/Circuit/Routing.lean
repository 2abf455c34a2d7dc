import Schematic.Proofs.Circuit.HiddenBits
import Schematic.Proofs.Circuit.Walk
import Schematic.Proofs.Hdl.Declared

/-! # Routes of hidden bits -/

open List

namespace Schematic

open Hdl

namespace Hdl.Association

def names (association : Association) (port : String) : Bool :=
  match association.formal with
  | .signal name => name == port
  | _ => false

/-- What an instance gives to a port. -/
def boundTo? (associations : List Association) (port : String) : Option Expr :=
  (associations.find? (·.names port)).bind (·.actual)

end Hdl.Association

/-- The port that passes hidden bits of a direction on. -/
def hiddenPort : Direction → String
  | .input => hiddenInput
  | .output => hiddenOutput
  | .bidirectional => hiddenInout

theorem hiddenPort_inj {first second : Direction} :
    hiddenPort first = hiddenPort second ↔ first = second := by
  cases first <;> cases second <;> decide

namespace WiringContext

variable (context : WiringContext)

def layout : Layout :=
  context.layouts.ofCircuit context.circuit.name

/-- The hidden ports of the circuit, each with its direction and width. -/
def hiddenScope : Scope Direction := fun name =>
  ([.input, .output, .bidirectional].find? (hiddenPort · = name)).map fun direction =>
    (direction, context.layout.total.bits direction)

/-- The bit of a hidden port of the circuit that is bound to a bit of the hidden port of an
instance. -/
def boundBit? (direction : Direction) (component : Int) (bit : Nat) : Option Nat :=
  match (Association.boundTo? (context.hiddenPorts component) (hiddenPort direction)).bind
      (·.bits? context.hiddenScope) with
  | some bits =>
    match bits.reverse[bit]? with
    | some (.wired bound position false) => if bound = direction then some position.toNat else none
    | _ => none
  | none => none

variable {context}

theorem hiddenScope_hiddenPort (direction : Direction) :
    context.hiddenScope (hiddenPort direction) =
      some (direction, context.layout.total.bits direction) := by
  cases direction <;> rfl

def hiddenPart (total : HiddenCount) (share : Share) (direction : Direction) : List Association :=
  if 0 < share.size.bits direction then
    [.bound (hiddenPort direction) (.bitsOf (hiddenPort direction) (total.bits direction)
      (Word.wrap (share.offset.bits direction + share.size.bits direction - 1))
      (share.offset.bits direction))]
  else []

variable {component : Int} {share : Share} {bit : Nat}

theorem hiddenPorts_eq (found : context.layout.share? component = some share) :
    context.hiddenPorts component =
      [Direction.input, .output, .bidirectional].flatMap
        (hiddenPart context.layout.total share) := by
  unfold layout at found ⊢
  simp only [hiddenPorts, found, flatMap_cons, flatMap_nil, append_nil,
    append_assoc]
  rfl

theorem boundTo?_hiddenPorts {direction : Direction}
    (found : context.layout.share? component = some share)
    (present : 0 < share.size.bits direction) :
    Association.boundTo? (context.hiddenPorts component) (hiddenPort direction) =
      some (.bitsOf (hiddenPort direction) (context.layout.total.bits direction)
        (Word.wrap (share.offset.bits direction + share.size.bits direction - 1))
        (share.offset.bits direction)) := by
  have other : ∀ different, different ≠ direction →
      (hiddenPart context.layout.total share different).find?
        (·.names (hiddenPort direction)) = none := by
    intro different apart
    rw [hiddenPart]
    split
    · rw [List.find?_cons_of_neg, List.find?_nil]
      simp [Association.names, Association.bound, hiddenPort_inj, apart]
    · rfl
  have here : (hiddenPart context.layout.total share direction).find?
      (·.names (hiddenPort direction)) = some (.bound (hiddenPort direction)
        (.bitsOf (hiddenPort direction) (context.layout.total.bits direction)
          (Word.wrap (share.offset.bits direction + share.size.bits direction - 1))
          (share.offset.bits direction))) := by
    rw [hiddenPart, if_pos present, List.find?_cons_of_pos]
    simp [Association.names, Association.bound]
  rw [Association.boundTo?, hiddenPorts_eq found]
  simp only [flatMap_cons, flatMap_nil, append_nil, List.find?_append]
  cases direction with
  | input => rw [here]; rfl
  | output => rw [other .input (by decide), here]; rfl
  | bidirectional => rw [other .input (by decide), other .output (by decide), here]; rfl

theorem getElem?_reverse_rangeBits {σ : Type} (signal : σ) {high low : Int}
    (inside : low + bit ≤ high) :
    (rangeBits signal high low).reverse[bit]? = some (.wired signal (low + bit)) := by
  have length : (rangeBits signal high low).length = (high - low + 1).toNat := by
    simp [rangeBits]
  rw [List.getElem?_reverse (by omega), length]
  simp only [rangeBits, List.getElem?_map]
  rw [List.getElem?_range (by omega)]
  simp only [Option.map_some, Option.some.injEq, ExprBit.wired.injEq, true_and, and_true]
  omega

theorem boundBit?_eq {direction : Direction} (found : context.layout.share? component = some share)
    (inside : (bit : Int) < share.size.bits direction) (begun : 0 ≤ share.offset.bits direction)
    (room : share.offset.bits direction + share.size.bits direction ≤ context.layout.total.bits
      direction) (bound : context.layout.total.bits direction ≤ Word.greatest) :
    context.boundBit? direction component bit = some (share.offset.bits direction + bit).toNat := by
  have last : Word.wrap (share.offset.bits direction + share.size.bits direction - 1) =
      share.offset.bits direction + share.size.bits direction - 1 :=
    Word.wrap_of_fits (Word.fits_of_le (by omega) (by omega))
  have bits : (Expr.bitsOf (hiddenPort direction) (context.layout.total.bits direction)
      (share.offset.bits direction + share.size.bits direction - 1)
      (share.offset.bits direction)).bits? context.hiddenScope =
        some (rangeBits direction (share.offset.bits direction + share.size.bits direction - 1)
          (share.offset.bits direction)) :=
    Expr.bits?_bitsOf (hiddenScope_hiddenPort direction) (Word.fits_of_le (by omega) bound)
      (by omega)
  rw [boundBit?, boundTo?_hiddenPorts found (by omega), last, Option.bind_some, bits]
  simp only
  rw [getElem?_reverse_rangeBits direction (by omega)]
  simp only [if_true]

end WiringContext

namespace Design

/-- A way from a circuit down to a leaf: the circuits on it, each with the component to go into. -/
inductive Route (design : Design) : Circuit → List (Circuit × Component) → Component → Prop where
  | here {circuit : Circuit} {leaf : Component} (plain : circuit.blackBox = none)
      (present : leaf ∈ circuit.components) (isLeaf : leaf.kind ≠ .subcircuit) :
      Route design circuit [(circuit, leaf)] leaf
  | inside {circuit inner : Circuit} {component leaf : Component}
      {steps : List (Circuit × Component)} (plain : circuit.blackBox = none)
      (present : component ∈ circuit.components) (isInner : component.kind = .subcircuit)
      (found : design.circuit? component.circuit = some inner)
      (below : Route design inner steps leaf) :
      Route design circuit ((circuit, component) :: steps) leaf

/-- The path that leads down through instances. -/
def pathAlong (path : String) (steps : List (Circuit × Component)) : String :=
  steps.foldl (fun path step => joinPath path step.2.pathName) path

/-- The bit of the outermost hidden port that a bit of a leaf is bound to, through the port maps of
all instances on the way up. -/
def climb? (design : Design) (settings : Settings) (names : Names) (layouts : Layouts)
    (direction : Direction) : List (Circuit × Component) → Nat → Option Nat
  | [], bit => some bit
  | (circuit, component) :: steps, bit =>
    (climb? design settings names layouts direction steps bit).bind
      ((design.wiring settings names layouts circuit
        ((names.circuit? circuit.name).getD "")).boundBit? direction component.id)

variable {design : Design} {settings : Settings} {names : Names} {layouts : Layouts}
  {direction : Direction} {circuit : Circuit} {component : Component}

theorem Counted.boundBit?_eq (counted : design.Counted layouts direction circuit)
    (plain : circuit.blackBox = none) {share : Share}
    (member : (component, share) ∈ Layout.placed (design.hiddenIn layouts) .none circuit.components)
    {bit : Nat} (hidden : (bit : Int) < share.size.bits direction) (module : String) :
    (design.wiring settings names layouts circuit module).boundBit? direction component.id bit =
      some (share.offset.bits direction + bit).toNat := by
  have inside := counted.share_inside plain member
  have bound := counted.bound
  have layout : (design.wiring settings names layouts circuit module).layout =
      layouts.ofCircuit circuit.name := rfl
  have total := counted.total_eq
  rw [← layout] at total
  have found : (design.wiring settings names layouts circuit module).layout.share? component.id =
      some share := by
    rw [layout, Layout.share?, counted.shares_eq plain]
    exact Layout.lookup_numbered counted.ids member
  exact WiringContext.boundBit?_eq found hidden inside.1 (by omega) (by omega)

theorem Counted.exists_share (counted : design.Counted layouts direction circuit)
    (plain : circuit.blackBox = none) (present : component ∈ circuit.components)
    (hidden : 0 < design.componentNumber direction component) :
    ∃ share : Share, (component, share) ∈
        Layout.placed (design.hiddenIn layouts) .none circuit.components ∧
      share.size.bits direction = design.componentNumber direction component := by
  have size := counted.hiddenIn_eq plain present
  have some : (design.hiddenIn layouts component).isNone ≠ true := by
    intro empty
    have none := HiddenCount.isNone_iff.mp empty direction
    omega
  obtain ⟨share, member⟩ := Layout.exists_placed present some .none
  refine ⟨share, member, ?_⟩
  rw [(Layout.mem_of_mem_placed member).2]
  exact size

theorem componentNumber_leaf (isLeaf : component.kind ≠ .subcircuit) :
    design.componentNumber direction component = component.hidden.bits direction :=
  if_neg isLeaf

theorem componentNumber_inner (isInner : component.kind = .subcircuit) {inner : Circuit}
    (found : design.circuit? component.circuit = some inner) :
    design.componentNumber direction component = design.hiddenNumber direction inner := by
  rw [componentNumber, if_pos isInner, found]

theorem Counted.exists_boundBit (counted : design.Counted layouts direction circuit)
    (plain : circuit.blackBox = none) (present : component ∈ circuit.components) {bit : Nat}
    (hidden : (bit : Int) < design.componentNumber direction component) (module : String) :
    ∃ share : Share, (component, share) ∈
        Layout.placed (design.hiddenIn layouts) .none circuit.components ∧
      (design.wiring settings names layouts circuit module).boundBit? direction component.id bit =
        some (share.offset.bits direction + bit).toNat ∧ 0 ≤ share.offset.bits direction ∧
      share.offset.bits direction + design.componentNumber direction component ≤
        design.hiddenNumber direction circuit := by
  obtain ⟨share, member, size⟩ := counted.exists_share plain present (by omega)
  have inside := counted.share_inside plain member
  exact ⟨share, member, counted.boundBit?_eq plain member (by omega) module, inside.1, by omega⟩

section

variable {steps : List (Circuit × Component)} {leaf : Component}
  (route : design.Route circuit steps leaf)
include route

theorem Route.exists_climb (counted : design.Counted layouts direction circuit)
    {bit : Nat} (hidden : (bit : Int) < leaf.hidden.bits direction) :
    ∃ index : Nat, design.climb? settings names layouts direction steps bit = some index ∧
      (index : Int) < design.hiddenNumber direction circuit := by
  induction route with
  | here plain present isLeaf =>
    rw [← componentNumber_leaf isLeaf] at hidden
    obtain ⟨share, _, bound, begun, room⟩ := counted.exists_boundBit plain present hidden _
    exact ⟨_, bound, by omega⟩
  | inside plain present isInner found below ih =>
    obtain ⟨index, climbed, small⟩ := ih (counted.inner plain present isInner found) hidden
    rw [← componentNumber_inner isInner found] at small
    obtain ⟨share, _, bound, begun, room⟩ := counted.exists_boundBit plain present small _
    refine ⟨(share.offset.bits direction + index).toNat, ?_, by omega⟩
    rw [climb?, climbed]
    exact bound

theorem Route.length_le {order : List String}
    (ordered : design.Ordered order) (found : design.circuit? circuit.name = some circuit)
    (listed : circuit.name ∈ order) : steps.length ≤ order.length := by
  have all : ∀ steps leaf, design.Route circuit steps leaf → steps.length ≤ order.length := by
    refine ordered_induction ?_ ?_ ordered (Nat.le_refl _) found listed
    · intro _ order more circuit narrow suffix steps leaf route
      exact Nat.le_trans (narrow steps leaf route) suffix.length_le
    · intro _ rest circuit _ _ inside steps leaf route
      cases route with
      | here => simp
      | inside _ present isInner found below =>
        have shorter := inside _ present isInner _ found _ _ below
        simpa using shorter
  exact all steps leaf route

theorem Route.mem_hiddenBitsFrom (counted : design.Counted layouts direction circuit)
    {depth : Nat} (enough : steps.length ≤ depth) {bit index : Nat}
    (hidden : (bit : Int) < leaf.hidden.bits direction)
    (climbed : design.climb? settings names layouts direction steps bit = some index)
    (path : String) {place : HiddenCount} (begun : 0 ≤ place.bits direction)
    (room : place.bits direction + design.hiddenNumber direction circuit ≤ Word.greatest) :
    (⟨direction, place.bits direction + index, pathAlong path steps, bit, leaf.kind⟩ : HiddenBit) ∈
      design.hiddenBitsFrom layouts depth circuit path place := by
  induction route generalizing depth path place index with
  | here plain present isLeaf =>
    obtain ⟨depth, rfl⟩ : ∃ less, depth = less + 1 := Nat.exists_eq_add_of_le' enough
    have number := hidden
    rw [← componentNumber_leaf isLeaf] at number
    obtain ⟨share, member, bound, offset, inside⟩ :=
      counted.exists_boundBit plain present number _
    obtain rfl := Option.some.inj (bound.symm.trans climbed)
    rw [counted.hiddenBitsFrom_succ plain, mem_flatMap]
    refine ⟨_, member, ?_⟩
    rw [bitsAt, if_neg isLeaf]
    refine Component.mem_hiddenBits.mpr ⟨?_, ?_, rfl, rfl⟩
    · rw [(Layout.mem_of_mem_placed member).2, counted.hiddenIn_eq plain present]
      exact number
    · dsimp only
      rw [HiddenCount.bits_add_of_le begun offset (by omega),
        Word.wrap_of_fits (Word.fits_of_le (by omega) (by omega))]
      omega
  | @inside circuit inner component leaf steps plain present isInner found below ih =>
    obtain ⟨depth, rfl⟩ := Nat.exists_eq_add_of_le' (Nat.le_trans (Nat.le_add_left 1 _) enough)
    have innerCounted := counted.inner plain present isInner found
    obtain ⟨lower, lowerClimbed, small⟩ := below.exists_climb innerCounted hidden
    have number := small
    rw [← componentNumber_inner isInner found] at number
    obtain ⟨share, member, bound, offset, inside⟩ :=
      counted.exists_boundBit plain present number _
    rw [climb?, lowerClimbed, Option.bind_some, bound] at climbed
    obtain rfl := Option.some.inj climbed
    rw [componentNumber_inner isInner found] at inside
    have placeBits := HiddenCount.bits_add_of_le begun offset (by omega)
    have listed := @ih innerCounted depth (Nat.le_of_succ_le_succ enough) lower hidden
      lowerClimbed (joinPath path component.pathName) (place.add share.offset) (by omega)
      (by omega)
    rw [counted.hiddenBitsFrom_succ plain, mem_flatMap]
    refine ⟨_, member, ?_⟩
    rw [bitsAt, if_pos isInner, found]
    rw [placeBits] at listed
    have index : place.bits direction + ((share.offset.bits direction + lower).toNat : Int) =
        place.bits direction + share.offset.bits direction + lower := by omega
    rw [index]
    exact listed

end

theorem Counted.exists_route (counted : design.Counted layouts direction circuit) {depth : Nat}
    {path : String} {place : HiddenCount} (begun : 0 ≤ place.bits direction)
    (room : place.bits direction + design.hiddenNumber direction circuit ≤ Word.greatest)
    {bit : HiddenBit} (member : bit ∈ design.hiddenBitsFrom layouts depth circuit path place)
    (same : bit.direction = direction) :
    ∃ (steps : List (Circuit × Component)) (leaf : Component) (index : Nat),
      design.Route circuit steps leaf ∧ bit.path = pathAlong path steps ∧ bit.kind = leaf.kind ∧
        (bit.bit : Int) < leaf.hidden.bits direction ∧
        design.climb? settings names layouts direction steps bit.bit = some index ∧
        bit.index = place.bits direction + index := by
  induction depth generalizing circuit path place with
  | zero => cases member
  | succ depth ih =>
    cases box : circuit.blackBox with
    | some text =>
      rw [counted.hiddenBitsFrom_blackBox box] at member
      cases member
    | none =>
      rw [counted.hiddenBitsFrom_succ box, mem_flatMap] at member
      obtain ⟨⟨component, share⟩, placed, member⟩ := member
      change bit ∈ design.bitsAt layouts depth path place component share at member
      have present : component ∈ circuit.components := (Layout.mem_of_mem_placed placed).1
      have size : share.size = design.hiddenIn layouts component :=
        (Layout.mem_of_mem_placed placed).2
      have number := counted.hiddenIn_eq box present
      rw [← size] at number
      have inside := counted.share_inside box placed
      have count : 0 ≤ design.componentNumber direction component :=
        componentNumber_nonneg direction component
      have placeBits := HiddenCount.bits_add_of_le begun inside.1 (by omega)
      rw [bitsAt] at member
      by_cases isInner : component.kind = .subcircuit
      · rw [if_pos isInner] at member
        cases found : design.circuit? component.circuit with
        | none =>
          rw [found] at member
          cases member
        | some inner =>
          rw [found] at member
          rw [componentNumber_inner isInner found] at number
          have below := counted.inner box present isInner found
          obtain ⟨steps, leaf, lower, route, path, kind, hidden, climbed, index⟩ :=
            ih below (by omega) (by omega) member
          obtain ⟨_, again, small⟩ := route.exists_climb below hidden
          obtain rfl := Option.some.inj (climbed.symm.trans again)
          refine ⟨(circuit, component) :: steps, leaf,
            (share.offset.bits direction + lower).toNat,
            .inside box present isInner found route, path, kind, hidden, ?_, by omega⟩
          rw [climb?, climbed]
          exact counted.boundBit?_eq box placed (by omega) _
      · rw [if_neg isInner] at member
        obtain ⟨below, index, path, kind⟩ := Component.mem_hiddenBits.mp member
        rw [same] at below index
        rw [placeBits, Word.wrap_of_fits (Word.fits_of_le (by omega) (by omega))] at index
        rw [componentNumber_leaf isInner] at number
        refine ⟨[(circuit, component)], component,
          (share.offset.bits direction + bit.bit).toNat, .here box present isInner, path, kind,
          by omega, ?_, by omega⟩
        exact counted.boundBit?_eq box placed below _

section

variable {draft : Draft} {order : List String} {top : Circuit} (checked : draft.check = .ok design)
  (ordered : design.Ordered order) (listed : design.top ∈ order)
  (root : design.topCircuit? = some top)
include checked ordered listed root

theorem laid_of_check : design.Laid design.layouts top := by
  have same : top.name = design.top := (circuit?_eq_some root).2
  obtain ⟨lays, laid⟩ := lays_layouts ordered listed root
  exact ⟨same ▸ root, ⟨order, ordered, same ▸ listed⟩, Draft.indexed_of_check checked, lays, laid⟩

end

/-- **Hidden bits reach the root.** The shares of all circuits of a checked design tile their hidden
ports exactly if the hidden bits of the root can be counted in a word. The listed bits then take the
positions of the hidden port of the root in increasing order, there is one for every hidden bit of a
leaf, and each stands where the port maps of the instances on its way lead. -/
theorem hiddenBits_routed {draft : Draft} (checked : draft.check = .ok design)
    (direction : Direction) :
    ∃ top, design.topCircuit? = some top ∧
      ((∀ entry ∈ design.layouts, entry.2.Tiles direction) ↔
        design.hiddenNumber direction top ≤ Word.greatest) ∧
      (design.hiddenNumber direction top ≤ Word.greatest →
        (design.layouts.ofCircuit top.name).total.bits direction =
            design.hiddenNumber direction top ∧
          positions direction (design.hiddenBits design.layouts) =
            span 0 ((design.layouts.ofCircuit top.name).total.bits direction) ∧
          ∀ settings names,
            (∀ steps leaf (bit : Nat), design.Route top steps leaf →
              (bit : Int) < leaf.hidden.bits direction → ∃ index : Nat,
                design.climb? settings names design.layouts direction steps bit = some index ∧
                ⟨direction, index, pathAlong "" steps, bit, leaf.kind⟩ ∈
                  design.hiddenBits design.layouts) ∧
            ∀ bit ∈ design.hiddenBits design.layouts, bit.direction = direction →
              ∃ steps leaf, ∃ index : Nat, design.Route top steps leaf ∧
                bit.path = pathAlong "" steps ∧ bit.kind = leaf.kind ∧
                (bit.bit : Int) < leaf.hidden.bits direction ∧
                design.climb? settings names design.layouts direction steps bit.bit = some index ∧
                bit.index = index) := by
  obtain ⟨order, ordered, listed⟩ := Draft.ordered_of_check checked
  obtain ⟨top, root⟩ := (Draft.linked_of_check checked).top
  have stored := laid_of_check checked ordered listed root
  refine ⟨top, root, tiles_layouts_iff stored root direction, fun bound => ?_⟩
  have counted : design.Counted design.layouts direction top := ⟨stored, bound⟩
  have topListed : top.name ∈ order := (circuit?_eq_some root).2 ▸ listed
  have short : order.length ≤ design.circuits.length + 1 := by
    have := ordered.length_le
    omega
  have zero : HiddenCount.none.bits direction = 0 := HiddenCount.bits_none direction
  have total := counted.total_eq
  have bits : design.hiddenBits design.layouts =
      design.hiddenBitsFrom design.layouts (design.circuits.length + 1) top "" .none := by
    rw [hiddenBits, root]
  rw [bits, total]
  refine ⟨rfl, ?_, fun settings names => ⟨?_, ?_⟩⟩
  · have few := stored.length_positions_le direction (design.circuits.length + 1) "" .none
    have room := Int.le_trans few bound
    have spanned := (stored.spans ordered short topListed "" .none (Int.le_of_eq zero.symm)
      (by rwa [zero, Int.zero_add])).2
    rw [spanned, total, zero]
  · intro steps leaf bit route hidden
    obtain ⟨index, climbed, _⟩ := route.exists_climb counted hidden
    refine ⟨index, climbed, ?_⟩
    have length := route.length_le ordered counted.found topListed
    have member : (⟨direction, HiddenCount.none.bits direction + index, pathAlong "" steps, bit,
        leaf.kind⟩ : HiddenBit) ∈
          design.hiddenBitsFrom design.layouts (design.circuits.length + 1) top "" .none :=
      route.mem_hiddenBitsFrom counted (Nat.le_trans length short) hidden climbed "" (by omega)
        (by omega)
    rwa [zero, Int.zero_add] at member
  · intro bit member same
    obtain ⟨steps, leaf, index, route, path, kind, hidden, climbed, place⟩ :=
      counted.exists_route (by omega) (by omega) member same
    rw [zero, Int.zero_add] at place
    exact ⟨steps, leaf, index, route, path, kind, hidden, climbed, place⟩

/-- Two panels with a button and a switch of three bits each, and a button of the root between them:
the nine hidden inputs take the positions of the hidden port. -/
theorem hiddenBits_routed_panels :
    let panel : Circuit :=
      ⟨"panel", [], [⟨1, .button, [], [], ""⟩, ⟨2, .dipSwitch, [("width", "3")], [], ""⟩], none⟩
    let main : Circuit := ⟨"main", [], [⟨1, .subcircuit, [], [], "panel"⟩,
      ⟨2, .button, [], [], ""⟩, ⟨3, .subcircuit, [], [], "panel"⟩], none⟩
    let design : Design := ⟨"d", "main", [main, panel], []⟩
    (∀ entry ∈ design.layouts, entry.2.Tiles .input) ∧
      positions .input (design.hiddenBits design.layouts) = [0, 1, 2, 3, 4, 5, 6, 7, 8] := by
  intro panel main design
  have checked : Draft.check ⟨"d", "main",
      [some ⟨"main", [], [some ⟨1, .subcircuit, [], [], "panel"⟩, some ⟨2, .button, [], [], ""⟩,
          some ⟨3, .subcircuit, [], [], "panel"⟩], none⟩,
        some ⟨"panel", [], [some ⟨1, .button, [], [], ""⟩,
          some ⟨2, .dipSwitch, [("width", "3")], [], ""⟩], none⟩], []⟩ = .ok design := by rfl
  have number : design.hiddenNumber .input main = 9 := by decide +kernel
  obtain ⟨top, root, tiles, routed⟩ := hiddenBits_routed checked .input
  obtain rfl : main = top := Option.some.inj root
  have bound : design.hiddenNumber .input main ≤ Word.greatest := by
    rw [number]
    decide
  obtain ⟨total, listed, _⟩ := routed bound
  rw [total, number] at listed
  exact ⟨tiles.mpr bound, listed⟩

/-- Four switches of a quarter of all words each: their sizes add up to nothing, so the circuit
around them has no hidden port that its shares could lie on, and the root forgets its hidden bits.
-/
theorem hiddenBits_forget_switches :
    let switch (id : Int) : Component :=
      ⟨id, .dipSwitch, [("width", "4611686018427387904")], [], ""⟩
    let bank : Circuit := ⟨"bank", [], [switch 1, switch 2, switch 3, switch 4], none⟩
    let main : Circuit :=
      ⟨"main", [], [⟨1, .subcircuit, [], [], "bank"⟩, ⟨2, .button, [], [], ""⟩], none⟩
    let design : Design := ⟨"d", "main", [main, bank], []⟩
    Draft.check ⟨"d", "main",
        [some ⟨"main", [], [some ⟨1, .subcircuit, [], [], "bank"⟩,
          some ⟨2, .button, [], [], ""⟩], none⟩,
          some ⟨"bank", [], [some (switch 1), some (switch 2), some (switch 3), some (switch 4)],
            none⟩], []⟩ = .ok design ∧
      ¬(∀ entry ∈ design.layouts, entry.2.Tiles .input) ∧
      design.Route main [(main, ⟨1, .subcircuit, [], [], "bank"⟩), (bank, switch 1)] (switch 1) ∧
      (switch 1).hidden.bits .input = 4611686018427387904 ∧
      design.hiddenBits design.layouts = [⟨.input, 0, "button2", 0, .button⟩] := by
  intro switch bank main design
  refine ⟨rfl, ?_, ?_, by decide +kernel, by decide +kernel⟩
  · intro tiled
    have stored : design.layouts.lookup "bank" = some (design.layouts.ofCircuit "bank") := by
      decide +kernel
    have total : (design.layouts.ofCircuit "bank").total.bits .input = 0 := by decide +kernel
    have share : (1, ⟨.none, ⟨4611686018427387904, 0, 0⟩⟩) ∈
        (design.layouts.ofCircuit "bank").shares := by decide +kernel
    have inside := ((tiled _ (mem_of_lookup stored)).covers 0).mpr
      ⟨_, share, by decide, by decide⟩
    rw [total] at inside
    exact absurd inside.2 (by decide)
  · exact .inside rfl (List.mem_cons_self ..) rfl rfl
      (.here rfl (List.mem_cons_self ..) (by decide))

end Design

end Schematic
