import Schematic.Component.Port
import Schematic.Proofs.Hdl.Declared
import Schematic.Proofs.Text.Numeral

/-! # Ports of variants -/

open List

namespace Schematic

open Hdl Text

namespace HiddenCount

def portNames : List String :=
  [hiddenInput, hiddenOutput, hiddenInout]

theorem entries_sublist (count : HiddenCount) : (count.entries.map (·.name)).Sublist portNames := by
  have optional : ∀ (condition : Prop) [Decidable condition] (entry : PortEntry),
      ((if condition then [entry] else []).map (·.name)).Sublist [entry.name] := by
    intro condition _ entry
    split
    · exact List.Sublist.refl _
    · exact nil_sublist _
  simp only [entries, map_append]
  exact ((optional ..).append (optional ..)).append (optional ..)

end HiddenCount

namespace Variant

theorem specs_names (variant : Variant) :
    variant.specs.map (·.name) = variant.openEntries.map (·.name) := by
  cases variant <;>
    simp [specs, openEntries, PortSpec.plain, PortSpec.clockBus, Function.comp_def]

theorem portless_sized (bus : Bool) : (sized bus).Portless := by
  intro direction
  cases bus <;> cases direction <;> rfl

theorem portless_sizedTwice (bus : Bool) (computed : String) :
    (sizedTwice bus computed).Portless := by
  intro direction
  cases bus <;> cases direction <;> rfl

theorem portless_generics (variant : Variant) : variant.generics.Portless := by
  unfold generics
  split
  case h_4 => exact portless_sizedTwice _ _
  case h_5 => exact portless_sizedTwice _ _
  case h_7 =>
    intro direction
    cases direction <;> rfl
  all_goals exact portless_sized _

theorem portWidth?_of_clock {variant : Variant} {spec : PortSpec} (listed : spec ∈ variant.specs)
    (clock : spec.clock = true) (values : Table Nat Int) : spec.name = clockBusPort ∧
      variant.ports.portWidth? spec.name values = some Clock.busWidth := by
  have plain : ∀ {specs : List PortSpec}, (∀ spec ∈ specs, spec.clock = false) →
      spec ∈ specs → False := by
    intro specs each member
    rw [each spec member] at clock
    cases clock
  cases variant with
  | register bus reset =>
    simp only [specs, mem_cons, not_mem_nil, or_false] at listed
    obtain rfl | rfl | rfl | rfl | rfl := listed
    case inr.inl => cases bus <;> exact ⟨rfl, rfl⟩
    all_goals cases clock
  | ram addressBits dataBits trigger =>
    simp only [specs, mem_cons, not_mem_nil, or_false] at listed
    obtain rfl | rfl | rfl | rfl | rfl := listed
    case inr.inr.inr.inl => exact ⟨rfl, by cbv⟩
    all_goals cases clock
  | _ =>
    refine (plain ?_ listed).elim
    simp [specs, PortSpec.plain, or_imp, forall_and]

def isExternal : Variant → Bool
  | .external _ => true
  | _ => false

theorem lower_gateInput (number : Nat) :
    lower (gateInput number) = "input_" ++ toString number := by
  have mark : lower "Input_" = "input_" := by decide
  calc
    lower (gateInput number) = lower ("Input_" ++ toString number) := rfl
    _ = "input_" ++ toString number := by rw [lower_append, lower_toString, mark]

theorem lower_muxInput (number : Int) : lower (muxInput number) = "muxin_" ++ toString number := by
  have mark : lower "MuxIn_" = "muxin_" := by decide
  calc
    lower (muxInput number) = lower ("MuxIn_" ++ toString number) := rfl
    _ = "muxin_" ++ toString number := by rw [lower_append, lower_toString_int, mark]

theorem nodup_gateInputNames (inputs : Nat) : ((gateInputNames inputs).map lower).Nodup := by
  rw [gateInputNames, map_map]
  refine nodup_range.map fun first second same => ?_
  simp only [Function.comp_apply, lower_gateInput, String.append_right_inj] at same
  have lists := congrArg String.toList same
  rw [toList_toString, toList_toString] at lists
  exact Nat.succ.inj (toDigits_injective lists)

theorem nodup_muxInputNames (select : Nat) : ((muxInputNames select).map lower).Nodup := by
  rw [muxInputNames, map_map]
  refine nodup_range.map fun first second same => ?_
  simp only [Function.comp_apply, lower_muxInput, String.append_right_inj] at same
  exact Int.ofNat.inj (toString_int_injective same)

theorem lower_dataPort (lanes lane : Nat) :
    lower (dataPort lanes lane) = if lanes = 1 then "data" else "data_" ++ toString lane := by
  have marks : lower "Data" = "data" ∧ lower "Data_" = "data_" := by decide
  unfold dataPort
  split
  · exact marks.1
  · calc
      lower s!"Data_{lane}" = lower ("Data_" ++ toString lane) := rfl
      _ = "data_" ++ toString lane := by rw [lower_append, lower_toString, marks.2]

theorem nodup_dataPorts (lanes : Nat) : ((dataPorts lanes).map lower).Nodup := by
  rw [dataPorts, map_map]
  by_cases single : lanes = 1
  · subst single
    exact nodup_singleton _
  · refine nodup_range.map fun first second same => ?_
    simp only [Function.comp_apply, lower_dataPort, single, ↓reduceIte,
      String.append_right_inj] at same
    have lists := congrArg String.toList same
    rw [toList_toString, toList_toString] at lists
    exact toDigits_injective lists

theorem nodup_append_of_stem (stem : List Char) {numbered others : List String}
    (apart : (numbered.map lower).Nodup) (distinct : (others.map lower).Nodup)
    (stems : ∀ name ∈ numbered, stem <+: (lower name).toList)
    (none : ∀ name ∈ others, ¬stem <+: (lower name).toList) :
    ((numbered ++ others).map lower).Nodup := by
  rw [map_append, nodup_append]
  refine ⟨apart, distinct, ?_⟩
  rintro _ early _ late rfl
  obtain ⟨name, listed, rfl⟩ := mem_map.mp early
  obtain ⟨other, present, same⟩ := mem_map.mp late
  apply none other present
  rw [same]
  exact stems name listed

theorem nodup_openEntries {variant : Variant} (written : variant.isExternal = false) :
    (variant.openEntries.map fun entry => lower entry.name).Nodup := by
  cases variant with
  | gate operator inputs bus =>
    have names : ((gateInputNames inputs ++ ["Result"]).map lower).Nodup := by
      refine nodup_append_of_stem "input_".toList (nodup_gateInputNames inputs) (by decide) ?_
        (by decide)
      intro name listed
      obtain ⟨number, _, rfl⟩ := mem_map.mp listed
      rw [lower_gateInput, String.toList_append]
      exact prefix_append ..
    simpa [openEntries, Function.comp_def] using names
  | mux select bus =>
    have names : ((muxInputNames select ++ ["Sel", "Enable", "MuxOut"]).map lower).Nodup := by
      refine nodup_append_of_stem "muxin_".toList (nodup_muxInputNames select) (by decide) ?_
        (by decide)
      intro name listed
      obtain ⟨number, _, rfl⟩ := mem_map.mp listed
      rw [lower_muxInput, String.toList_append]
      exact prefix_append ..
    simpa [openEntries, Function.comp_def] using names
  | rom addressBits dataBits lanes =>
    have names : ((dataPorts lanes ++ ["Address"]).map lower).Nodup := by
      refine nodup_append_of_stem "data".toList (nodup_dataPorts lanes) (by decide) ?_ (by decide)
      intro name listed
      obtain ⟨lane, _, rfl⟩ := mem_map.mp listed
      rw [lower_dataPort]
      split
      · exact prefix_rfl
      · rw [String.toList_append]
        exact (by decide : "data".toList <+: "data_".toList).trans (prefix_append ..)
    rw [map_append, perm_append_comm.nodup_iff] at names
    simpa [openEntries, Function.comp_def] using names
  | external ports => cases written
  | _ => simp only [openEntries, map_cons, map_nil]; decide

variable {variant : Variant} {entry : PortEntry}

def isBus : Variant → Bool
  | .gate _ _ bus => bus
  | .buffer _ bus => bus
  | .mux _ bus => bus
  | .adder bus => bus
  | .multiplier bus => bus
  | .register bus _ => bus
  | _ => false

theorem values_eq (bus : variant.isBus = true) (width : Nat) :
    (variant.values width).find? 1 = some (width : Int) := by
  cases variant with
  | gate | buffer | mux | adder | multiplier | register =>
    obtain rfl := bus
    rfl
  | _ => cases bus

/-- The widths that ports of a variant may have. -/
inductive PortWidth (variant : Variant) (entry : PortEntry) : Prop
  | bits (count : Nat) : entry.width = .bits count → PortWidth variant entry
  | parameter : variant.isBus = true → entry.width = .generic 1 → PortWidth variant entry
  | twice : variant = .multiplier true → entry.name = "Mult" → entry.width = .generic 2 →
      PortWidth variant entry

@[simp]
theorem portWidth_bits (variant : Variant) (direction : Direction) (name : String) (count : Nat) :
    PortWidth variant ⟨direction, name, .bits count⟩ :=
  .bits count rfl

theorem portWidth_dataWidth (variant : Variant) (direction : Direction) (name : String) :
    PortWidth variant ⟨direction, name, dataWidth variant.isBus⟩ := by
  cases bus : variant.isBus with
  | false => exact .bits 1 rfl
  | true => exact .parameter bus rfl

theorem portWidth_hidden {count : HiddenCount}
    (listed : entry ∈ count.entries) : PortWidth variant entry := by
  simp only [HiddenCount.entries, mem_append, mem_ite_nil_right, mem_singleton]
    at listed
  obtain (⟨_, rfl⟩ | ⟨_, rfl⟩) | ⟨_, rfl⟩ := listed
  all_goals exact portWidth_bits ..

theorem portWidth_open (variant : Variant) :
    ∀ entry ∈ variant.openEntries, PortWidth variant entry := by
  have data := variant.portWidth_dataWidth
  cases variant with
  | gate | buffer | mux | adder | register =>
    simp only [isBus] at data
    simp [openEntries, data, or_imp, forall_and]
  | multiplier bus =>
    have product : PortWidth (.multiplier bus) ⟨.output, "Mult", computedWidth bus⟩ := by
      cases bus with
      | false => exact .bits 2 rfl
      | true => exact .twice rfl rfl rfl
    simp only [isBus] at data
    simp [openEntries, data, product]
  | _ => simp [openEntries, or_imp, forall_and]

theorem portWidth_of_mem (listed : entry ∈ variant.entries) : PortWidth variant entry := by
  obtain listed | hidden := mem_append.mp listed
  · exact variant.portWidth_open entry listed
  · exact portWidth_hidden hidden

end Variant

end Schematic
