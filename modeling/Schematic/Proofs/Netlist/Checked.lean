import Schematic.Netlist.Check

/-! # What the check of a design promises -/

open List

namespace Schematic

variable {ε α κ : Type} {draft : Draft} {design : Design} {circuit : Circuit}

structure Circuit.Indexed (circuit : Circuit) : Prop where
  netWidths : ∀ net ∈ circuit.nets, 1 ≤ net.width
  netIds : (circuit.nets.map (·.id)).Nodup
  componentIds : (circuit.components.map (·.id)).Nodup

structure Design.Indexed (design : Design) : Prop where
  names : (design.circuits.map (·.name)).Nodup
  circuits : ∀ circuit ∈ design.circuits, circuit.Indexed

structure Circuit.Placed (circuit : Circuit) : Prop where
  ends : ∀ component ∈ circuit.components, ∀ e ∈ component.ends, ∀ point ∈ e.points,
    Circuit.checkPoint circuit.nets point = .ok ()
  roots : ∀ net ∈ circuit.nets, net.forcedRoot = true →
    (net.sources = [] ∨ (net.sources.length : Int) = net.width) ∧
      (net.sinks = [] ∨ (net.sinks.length : Int) = net.width) ∧
      (∀ point ∈ net.sources, Circuit.checkPoint circuit.nets point = .ok ()) ∧
      ∀ point ∈ net.sinks.flatten, Circuit.checkPoint circuit.nets point = .ok ()
  kinds : ∀ component ∈ circuit.components, component.kind.isKnown = true

/-- Every reference of a design leads somewhere. -/
structure Design.Linked (design : Design) : Prop where
  top : ∃ circuit, design.topCircuit? = some circuit
  treeIds : (design.clockTrees.map (·.id)).Nodup
  trees : ∀ circuit ∈ design.circuits, ∀ net ∈ circuit.nets, ∀ tree, net.clockTree = some tree →
    ∃ found, design.clockTree? tree = some found
  circuits : ∀ circuit ∈ design.circuits, ∀ component ∈ circuit.components,
    component.kind = .subcircuit → ∃ inner, design.circuit? component.circuit = some inner

theorem find?_of_nodup_map {α κ : Type} [BEq κ] [LawfulBEq κ] {key : α → κ} {items : List α}
    (apart : (items.map key).Nodup) {item : α} (member : item ∈ items) :
    items.find? (fun other => key other == key item) = some item := by
  induction items with
  | nil => cases member
  | cons first items ih =>
    rw [map_cons, nodup_cons] at apart
    obtain rfl | member := mem_cons.mp member
    · simp
    · have differs : key first ≠ key item := fun same =>
        apart.1 (same ▸ mem_map_of_mem member)
      rw [List.find?_cons_of_neg (by simpa using differs)]
      exact ih apart.2 member

theorem Design.circuit?_eq_some {name : String} (found : design.circuit? name = some circuit) :
    circuit ∈ design.circuits ∧ circuit.name = name := by
  refine ⟨mem_of_find?_eq_some found, ?_⟩
  simpa using List.find?_some found

theorem checkAll_eq_ok {check : α → Except ε Unit} {items : List α} :
    checkAll check items = .ok () ↔ ∀ item ∈ items, check item = .ok () := by
  induction items with
  | nil => simp [checkAll]
  | cons item items ih =>
    simp only [checkAll, forall_mem_cons]
    cases outcome : check item with
    | error fault => simp
    | ok => simpa using ih

theorem mapError_eq_ok {δ : Type} {amend : ε → δ} {outcome : Except ε α} {result : α} :
    outcome.mapError amend = .ok result ↔ outcome = .ok result := by
  cases outcome with
  | error fault =>
    change (Except.error (amend fault) : Except δ α) = .ok result ↔ _
    simp
  | ok value =>
    change (Except.ok value : Except δ α) = .ok result ↔ _
    rw [Except.ok.injEq, Except.ok.injEq]

theorem fresh_cons {key : α → κ} {item : α} {items : List α} {earlier : List κ}
    (fresh : key item ∉ earlier) (apart : (items.map key).Nodup)
    (others : ∀ other ∈ items, key other ∉ key item :: earlier) :
    ((item :: items).map key).Nodup ∧ ∀ other ∈ item :: items, key other ∉ earlier := by
  rw [map_cons, nodup_cons, forall_mem_cons]
  refine ⟨⟨fun repeated => ?_, apart⟩, fresh, fun other member before =>
    others other member (mem_cons_of_mem _ before)⟩
  obtain ⟨other, member, same⟩ := mem_map.mp repeated
  exact others other member (same ▸ mem_cons_self ..)

namespace Circuit

variable {nets : List Net}

theorem nets_of_checkNets {earlier : List Net} (checked : checkNets earlier nets = .ok ()) :
    (∀ net ∈ nets, 1 ≤ net.width) ∧ (nets.map (·.id)).Nodup ∧
      ∀ net ∈ nets, net.id ∉ earlier.map (·.id) := by
  induction nets generalizing earlier with
  | nil => simp
  | cons net nets ih =>
    simp only [checkNets] at checked
    split at checked
    · cases checked
    case isFalse wide =>
      split at checked
      · cases checked
      case isFalse fresh =>
        obtain ⟨widths, apart, others⟩ := ih checked
        refine ⟨forall_mem_cons.mpr ⟨by omega, widths⟩,
          fresh_cons (fun repeated => fresh ?_) apart others⟩
        obtain ⟨before, member, same⟩ := mem_map.mp repeated
        exact any_eq_true.mpr ⟨before, member, beq_iff_eq.mpr same⟩

theorem root_of_checkRoot {net : Net} (checked : checkRoot nets net = .ok ())
    (forced : net.forcedRoot = true) : (net.sources = [] ∨ (net.sources.length : Int) = net.width) ∧
      (net.sinks = [] ∨ (net.sinks.length : Int) = net.width) ∧
      (∀ point ∈ net.sources, checkPoint nets point = .ok ()) ∧
      ∀ point ∈ net.sinks.flatten, checkPoint nets point = .ok () := by
  simp only [checkRoot, forced, Bool.not_true, Bool.false_eq_true, ↓reduceIte] at checked
  split at checked
  · cases checked
  case isFalse sources =>
    split at checked
    · cases checked
    case isFalse sinks =>
      split at checked
      · cases checked
      case h_2 sourcesChecked =>
        rw [mapError_eq_ok, checkAll_eq_ok] at checked
        rw [checkAll_eq_ok] at sourcesChecked
        refine ⟨?_, ?_, sourcesChecked, checked⟩
        · by_cases none : net.sources = []
          · exact .inl none
          · simpa [none] using sources
        · by_cases none : net.sinks = []
          · exact .inl none
          · simpa [none] using sinks

theorem components_of_checkComponents {earlier : List Int}
    {drafts : List (Option Component)} {components : List Component}
    (checked : checkComponents nets earlier drafts = .ok components) :
    (∀ component ∈ components, component.kind.isKnown = true ∧ checkEnds nets component = .ok ()) ∧
      (components.map (·.id)).Nodup ∧ ∀ component ∈ components, component.id ∉ earlier := by
  induction drafts generalizing earlier components with
  | nil =>
    cases checked
    simp
  | cons draft drafts ih =>
    cases draft with
    | none => cases checked
    | some component =>
      simp only [checkComponents, bind, Except.bind] at checked
      split at checked
      · cases checked
      case isFalse known =>
        split at checked
        · cases checked
        case isFalse fresh =>
          split at checked
          · cases checked
          case h_2 placed =>
            split at checked
            · cases checked
            case h_2 rest checkedRest =>
              cases checked
              obtain ⟨good, apart, others⟩ := ih checkedRest
              exact ⟨forall_mem_cons.mpr ⟨⟨by simpa using known, placed⟩, good⟩,
                fresh_cons (fun before => fresh (contains_iff_mem.mpr before)) apart others⟩

end Circuit

namespace DraftCircuit

variable {draft : DraftCircuit} (checked : draft.check = .ok circuit)
include checked

theorem exists_of_check : circuit.name = draft.name ∧ Circuit.checkNets [] circuit.nets = .ok () ∧
    (∀ net ∈ circuit.nets, Circuit.checkRoot circuit.nets net = .ok ()) ∧
    Circuit.checkComponents circuit.nets [] draft.components = .ok circuit.components := by
  simp only [DraftCircuit.check, bind, Except.bind] at checked
  split at checked
  · cases checked
  case h_2 netsChecked =>
    split at checked
    · cases checked
    case h_2 rootsChecked =>
      split at checked
      · cases checked
      case h_2 components componentsChecked =>
        cases checked
        exact ⟨rfl, netsChecked, checkAll_eq_ok.mp rootsChecked, componentsChecked⟩

theorem indexed_of_check : circuit.name = draft.name ∧ circuit.Indexed := by
  obtain ⟨name, nets, _, components⟩ := exists_of_check checked
  obtain ⟨widths, netIds, _⟩ := Circuit.nets_of_checkNets nets
  exact ⟨name, widths, netIds, (Circuit.components_of_checkComponents components).2.1⟩

theorem placed_of_check : circuit.Placed := by
  obtain ⟨_, _, roots, components⟩ := exists_of_check checked
  have placed := (Circuit.components_of_checkComponents components).1
  refine ⟨?_, ?_, fun component member => (placed component member).1⟩
  · intro component member e listed
    have ends := (placed component member).2
    rw [Circuit.checkEnds, checkAll_eq_ok] at ends
    have points := ends e listed
    rwa [mapError_eq_ok, checkAll_eq_ok] at points
  · intro net member forced
    exact Circuit.root_of_checkRoot (roots net member) forced

end DraftCircuit

namespace Design

theorem circuits_of_checkCircuits {earlier : List String} {drafts : List (Option DraftCircuit)}
    {circuits : List Circuit} (checked : checkCircuits earlier drafts = .ok circuits) :
    (∀ circuit ∈ circuits, ∃ draft : DraftCircuit, draft.check = .ok circuit) ∧
      (circuits.map (·.name)).Nodup ∧ ∀ circuit ∈ circuits, circuit.name ∉ earlier := by
  induction drafts generalizing earlier circuits with
  | nil =>
    cases checked
    simp
  | cons draft drafts ih =>
    cases draft with
    | none => cases checked
    | some draft =>
      simp only [checkCircuits, bind, Except.bind] at checked
      split at checked
      · cases checked
      split at checked
      · cases checked
      case isFalse fresh =>
        split at checked
        · cases checked
        case h_2 circuit mapped =>
          split at checked
          · cases checked
          case h_2 rest checkedRest =>
            cases checked
            have circuitChecked := mapError_eq_ok.mp mapped
            obtain ⟨drafted, apart, others⟩ := ih checkedRest
            rw [← (DraftCircuit.indexed_of_check circuitChecked).1] at fresh others
            exact ⟨forall_mem_cons.mpr ⟨⟨draft, circuitChecked⟩, drafted⟩,
              fresh_cons (fun before => fresh (contains_iff_mem.mpr before)) apart others⟩

theorem treeIds_of_checkTrees {earlier : List Int} {trees : List ClockTree}
    (checked : checkTrees earlier trees = .ok ()) :
    (trees.map (·.id)).Nodup ∧ ∀ tree ∈ trees, tree.id ∉ earlier := by
  induction trees generalizing earlier with
  | nil => simp
  | cons tree trees ih =>
    simp only [checkTrees] at checked
    split at checked
    · cases checked
    case isFalse fresh =>
      split at checked
      · cases checked
      · obtain ⟨apart, others⟩ := ih checked
        exact fresh_cons (fun before => fresh (contains_iff_mem.mpr before)) apart others

theorem references_of_check (checked : design.checkReferences circuit = .ok ()) :
    (∀ net ∈ circuit.nets, ∀ tree, net.clockTree = some tree →
        ∃ found, design.clockTree? tree = some found) ∧
      ∀ component ∈ circuit.components, component.kind = .subcircuit →
        ∃ inner, design.circuit? component.circuit = some inner := by
  simp only [checkReferences, bind, Except.bind] at checked
  split at checked
  · cases checked
  case h_2 netsChecked =>
    rw [checkAll_eq_ok] at netsChecked checked
    refine ⟨?_, ?_⟩
    · intro net member tree clocked
      have found := netsChecked net member
      simp only [checkNetTree, clocked] at found
      split at found
      case isTrue known => exact Option.isSome_iff_exists.mp known
      case isFalse => cases found
    · intro component member inner
      have found := checked component (mem_filter.mpr ⟨member, by simpa using inner⟩)
      simp only [checkTarget] at found
      split at found
      case isTrue known => exact Option.isSome_iff_exists.mp known
      case isFalse => cases found

end Design

section

variable (checked : draft.check = .ok design)
include checked

theorem Draft.exists_of_check : Design.checkCircuits [] draft.circuits = .ok design.circuits ∧
      (∃ top, design.topCircuit? = some top) ∧ Design.checkTrees [] design.clockTrees = .ok () ∧
      (∀ circuit ∈ design.circuits, design.checkReferences circuit = .ok ()) ∧
      design.checkAcyclic = .ok () := by
  simp only [Draft.check, bind, Except.bind] at checked
  split at checked
  · cases checked
  case h_2 circuits circuitsChecked =>
    split at checked
    · cases checked
    case isFalse rooted =>
      split at checked
      · cases checked
      case h_2 treesChecked =>
        split at checked
        · cases checked
        case h_2 referencesChecked =>
          split at checked
          · cases checked
          case h_2 acyclic =>
            cases checked
            rw [checkAll_eq_ok] at referencesChecked
            refine ⟨circuitsChecked, ?_, treesChecked, referencesChecked, acyclic⟩
            rwa [Option.isNone_iff_eq_none, ← ne_eq, Option.ne_none_iff_exists'] at rooted

theorem Draft.indexed_of_check : design.Indexed := by
  obtain ⟨drafted, apart, _⟩ := Design.circuits_of_checkCircuits (Draft.exists_of_check checked).1
  refine ⟨apart, fun circuit member => ?_⟩
  obtain ⟨draft, circuitChecked⟩ := drafted circuit member
  exact (DraftCircuit.indexed_of_check circuitChecked).2

theorem Draft.placed_of_check : ∀ circuit ∈ design.circuits, circuit.Placed := by
  intro circuit member
  obtain ⟨part, circuitChecked⟩ :=
    (Design.circuits_of_checkCircuits (Draft.exists_of_check checked).1).1 circuit member
  exact DraftCircuit.placed_of_check circuitChecked

theorem Draft.linked_of_check : design.Linked := by
  obtain ⟨_, top, trees, references, _⟩ := Draft.exists_of_check checked
  refine ⟨top, (Design.treeIds_of_checkTrees trees).1, ?_, ?_⟩
  · intro circuit member
    exact (Design.references_of_check (references circuit member)).1
  · intro circuit member
    exact (Design.references_of_check (references circuit member)).2

end

end Schematic
