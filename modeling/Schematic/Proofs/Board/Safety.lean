import Schematic.Proofs.Board.Driving
import Schematic.Proofs.Circuit.Safety

/-! # Safe generation -/

open List

namespace Schematic

open Hdl Reporting

variable {draft : Draft} {design : Design} {names : Names} {layouts : Layouts}

theorem Circuit.positive_portEntries (circuit : Circuit) (design : Design) (period : Int)
    (names : Names) (layouts : Layouts) :
    ∀ entry ∈ circuit.portEntries design period names layouts, entry.width.Within (0 < ·) := by
  have fixed : 0 < Clock.busWidth := by decide
  have hidden : ∀ entry ∈ (layouts.ofCircuit circuit.name).total.entries,
      entry.width.Within (0 < ·) :=
    HiddenCount.within_entries (by omega) (by omega) (by omega)
  have control := Component.one_le_width
  have pins := Component.one_le_pinWidth
  simp only [portEntries, fixedEntries, pinEntry, forall_mem_append, forall_mem_map,
    Width.within_bits]
  exact ⟨⟨⟨fun _ _ => fixed, fun component _ => control component⟩, hidden⟩,
    fun pin _ => pins pin⟩

theorem length_pos_of_runs {points : List Point}
    (many : 1 < (runs points).length) : 0 < points.length := by
  cases points with
  | nil => cases many
  | cons => exact Nat.succ_pos _

namespace WiringContext

variable {context : WiringContext} {component : Component} {fragments : List Fragment}

theorem FragmentOf.positive_wires {fragment : Fragment}
    (made : FragmentOf context component fragment) : ∀ wire ∈ fragment.wires, 0 < wire.2 := by
  intro wire listed
  cases made with
  | leaf label binding mappings _ _ _ mapped =>
    obtain ⟨mapping, member, own⟩ := mem_filterMap.mp listed
    obtain ⟨port, _, form⟩ := exists_of_forall₂ mapped member
    cases form with
    | ordinary mapping _ connects =>
      obtain ⟨rfl, many⟩ := PortNeed.wire_of_connect connects own
      exact length_pos_of_runs many
    | loose => cases own
    | tree => cases own
    | gated =>
      cases own
      exact Nat.succ_pos _
  | inner label module circuit interface mapped _ _ _ _ _ pins =>
    obtain ⟨entry, member, own⟩ := mem_filterMap.mp listed
    obtain ⟨pin, _, mapping⟩ := exists_of_forall₂ pins member
    obtain ⟨points, _, _, connects⟩ := mapping.connected
    obtain ⟨rfl, many⟩ := PortNeed.wire_of_connect connects own
    exact length_pos_of_runs many

theorem Wired.positive_declared {ports : Interface} (wired : context.Wired ports fragments) :
    (context.declared ports fragments).Within (0 < ·) := by
  rw [wired.declared_eq]
  have ports := Interface.within_empty.addPorts (context.circuit.positive_portEntries
    context.design context.period context.names context.layouts)
  refine ports.addWires ?_
  simp only [Circuit.wireEntries, forall_mem_append, forall_mem_map, Width.within_bits]
  refine ⟨fun net present => ?_, fun wire listed => ?_⟩
  · have width := (wired.indexed.circuits _ wired.member).netWidths net present
    omega
  · obtain ⟨fragment, present, own⟩ := mem_flatMap.mp listed
    obtain ⟨component, _, made⟩ := wired.exists_component present
    exact made.positive_wires wire own

end WiringContext

namespace Design

theorem positive_wrapperInterface (design : Design) (names : Names) (layouts : Layouts)
    (period : Int) (tick : Clock.TickSettings) (top : Circuit) (placements : Placements) :
    (design.wrapperInterface names layouts period tick top placements).Within (0 < ·) := by
  have entries : ∀ entry ∈ design.wrapperEntries placements, entry.width.Within (0 < ·) := by
    intro entry listed
    obtain clock | placed := mem_append.mp listed
    · split at clock
      · cases clock
      · obtain rfl := mem_singleton.mp clock
        exact Nat.one_pos
    · obtain ⟨_, _, rfl⟩ := mem_map.mp placed
      exact Nat.one_pos
  have fixed : ∀ wire ∈ design.fixedWires (design.tickControl? period tick top)
      (layouts.ofCircuit top.name).total, 0 < wire.2 := by
    have bus : 0 < Clock.busWidth := by decide
    simp only [fixedWires, forall_mem_append, forall_mem_map]
    refine ⟨⟨⟨?_, fun _ _ => bus⟩, ?_⟩, ?_⟩
    · split
      case h_1 control _ =>
        split
        · simp
        · exact forall_mem_singleton.mpr control.one_le_width
      case h_2 => simp
    all_goals
      intro wire listed
      obtain ⟨some, alone⟩ := mem_ite_nil_right.mp listed
      obtain rfl := mem_singleton.mp alone
      simp only
      omega
  refine (Interface.within_empty.addPorts entries).addWires ?_
  simp only [wiredPorts, forall_mem_map, forall_mem_append, Width.within_bits]
  refine ⟨fun wire listed => ?_, fixed, fun pin _ => pin.one_le_pinWidth⟩
  split at listed
  · cases listed
  · obtain rfl := mem_singleton.mp listed
    exact Nat.one_pos

theorem positive_wrapperDeclarations (design : Design) (tick : Clock.TickSettings) (module : String)
    {inner : Interface} (positive : inner.Within (0 < ·)) :
    ∀ declaration ∈ design.wrapperDeclarations tick module inner,
      declaration.2.Within (0 < ·) := by
  have ticks : tick.interface.Within (0 < ·) := by
    -- The interface depends on the mode alone.
    have moded : tick.interface = Clock.TickSettings.interface ⟨tick.mode, 0, 0⟩ := rfl
    rw [moded]
    cases tick.mode <;> exact ⟨by decide, by decide, by decide, by decide, by decide⟩
  have sources : ∀ fullSpeed, (Clock.ClockSource.interface fullSpeed).Within (0 < ·) := by
    intro fullSpeed
    cases fullSpeed <;> exact ⟨by decide, by decide, by decide, by decide, by decide⟩
  rw [wrapperDeclarations, forall_mem_append]
  refine ⟨?_, forall_mem_singleton.mpr positive⟩
  split
  · exact fun declaration listed => absurd listed not_mem_nil
  · exact forall_mem_cons.mpr ⟨ticks, forall_mem_singleton.mpr (sources _)⟩

theorem calm_place (circuit : String) {placements : Placements} {outer : OuterBit}
    (room : outer.direction = .bidirectional →
      0 ≤ outer.position ∧ outer.position < placements.inouts.length) :
    Calm (placements.place circuit outer) := by
  unfold Placements.place
  split
  · simp only [Placements.drive]
    split
    · exact calm_pure _
    · exact calm_pure _
    · exact calm_pure _
    · exact (calm_report _).bind fun _ => calm_pure _
  · simp only [Placements.sample]
    split
    · exact calm_pure _
    · exact calm_throw rfl
    · exact calm_pure _
    · exact (calm_report _).bind fun _ => calm_pure _
  case h_3 both =>
    unfold Placements.join
    split
    · have inside := room both
      exact if_pos inside ▸ calm_pure _
    · exact calm_throw rfl

theorem length_after (placements : Placements) (outer : OuterBit) :
    (placements.after outer).inouts.length = placements.inouts.length := by
  rw [Placements.after, OuterBit.inouts]
  split
  · exact length_set
  · rfl

/-- Where every position is inside the list of the ports that reach both ways, none is missed. -/
theorem calm_places (circuit : String) {placements : Placements} {bits : List OuterBit}
    (room : ∀ outer ∈ bits, outer.direction = .bidirectional →
      0 ≤ outer.position ∧ outer.position < placements.inouts.length) :
    Calm (bits.foldlM (Placements.place circuit) placements) := by
  induction bits generalizing placements with
  | nil => exact calm_pure _
  | cons outer bits ih =>
    obtain ⟨first, others⟩ := forall_mem_cons.mp room
    rw [foldlM_cons]
    refine (calm_place circuit first).bind_of_yields fun later placed => ih ?_
    rw [(Placements.after_of_place placed).1, length_after]
    exact others

section Wrapper

variable (checked : draft.check = .ok design)
  (few : (design.hiddenBits design.layouts).length * 16 ≤ greatestSize)
include checked few

theorem storable_inouts {top : Circuit} (root : design.topCircuit? = some top) :
    ∃ count : Nat, storable 16 (design.layouts.ofCircuit top.name).total.inouts = .ok count ∧
      positions .bidirectional (design.hiddenBits design.layouts) =
        span 0 (design.layouts.ofCircuit top.name).total.inouts := by
  have limit : greatestSize = 281474976710656 := rfl
  obtain ⟨positive, spanned⟩ := positions_of_few checked root (by simp only [Word.greatest]; omega)
    .bidirectional
  have counted := congrArg length spanned
  rw [Layout.length_span, positions, length_map] at counted
  have fewer := length_filter_le (fun bit : HiddenBit => decide (bit.direction = .bidirectional))
    (design.hiddenBits design.layouts)
  have same : (design.layouts.ofCircuit top.name).total.inouts =
      (((design.layouts.ofCircuit top.name).total.bits .bidirectional).toNat : Nat) :=
    (Int.toNat_of_nonneg positive).symm
  refine ⟨((design.layouts.ofCircuit top.name).total.bits .bidirectional).toNat, ?_, spanned⟩
  rw [same]
  exact MemoryContents.storable_of_le (by omega)

theorem calm_outline (period : Int) (names : Names) (board : Option Board) :
    Calm (design.outline period names design.layouts board) := by
  unfold outline
  split
  case h_2 => exact calm_throw rfl
  case h_1 top root =>
    split
    case h_2 => exact calm_throw rfl
    case h_1 module _ =>
      split
      case h_2 failure failed =>
        refine calm_throw_bind ?_ _
        rw [Failure.abort?_asFatal]
        exact top.unaborted_ports _ _ _ _ failure failed
      case h_1 =>
        obtain ⟨count, stored, spanned⟩ := storable_inouts checked few root
        refine (calm_pure _).bind fun inner => ?_
        simp only [stored, pure_bind]
        refine Calm.bind (calm_places top.name fun outer listed both => ?_) fun _ => calm_pure _
        have place : outer.position ∈ ((design.outerBits design.layouts board _ _).filter
            (·.direction = .bidirectional)).map (·.position) :=
          mem_map_of_mem (mem_filter.mpr ⟨listed, decide_eq_true both⟩)
        rw [places_bidirectional board _ spanned, toNat_of_storable stored] at place
        obtain ⟨position, below, same⟩ := mem_map.mp place
        rw [← same, Placements.blank, length_replicate]
        have inside := mem_range.mp below
        omega

end Wrapper

end Design

end Schematic
