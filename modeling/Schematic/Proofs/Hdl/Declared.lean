import Mathlib.Data.List.Perm.Basic
import Schematic.Hdl.Interface
import Schematic.Proofs.Hdl.Bits
import Schematic.Proofs.Table

/-! # Declared signals -/

open List

namespace Schematic.Hdl

/-- The number of bits of a width that no generic decides. -/
def Width.count? : Width → Option Nat
  | .bits count => some count
  | .generic _ => none

namespace Interface

variable {direction : Direction} {name : String} {width : Width} {interface : Interface}
  {entries : List PortEntry}

def side (interface : Interface) : Direction → Signals
  | .input => interface.inputs
  | .output => interface.outputs
  | .bidirectional => interface.inouts

def sideOf (entries : List PortEntry) (direction : Direction) : List (String × Width) :=
  (entries.filter (·.direction = direction)).map fun entry => (entry.name, entry.width)

theorem mem_sideOf :
    (name, width) ∈ sideOf entries direction ↔ ⟨direction, name, width⟩ ∈ entries := by
  simp only [sideOf, mem_map, mem_filter, decide_eq_true_eq, Prod.mk.injEq]
  constructor
  · rintro ⟨entry, ⟨listed, rfl⟩, rfl, rfl⟩
    exact listed
  · intro listed
    exact ⟨_, ⟨listed, rfl⟩, rfl, rfl⟩

section

variable (interface : Interface) (entries : List PortEntry)

theorem side_addPorts (direction : Direction) : (interface.addPorts entries).side direction =
      (interface.side direction).insertAll (sideOf entries direction) := by
  induction entries generalizing interface with
  | nil => rfl
  | cons entry entries ih =>
    obtain ⟨facing, name, width⟩ := entry
    rw [addPorts, foldl_cons, ← addPorts, ih]
    cases facing <;> cases direction <;> rfl

theorem wires_addPorts : (interface.addPorts entries).wires = interface.wires := by
  induction entries generalizing interface with
  | nil => rfl
  | cons entry entries ih =>
    obtain ⟨facing, name, width⟩ := entry
    rw [addPorts, foldl_cons, ← addPorts, ih]
    cases facing <;> rfl

end

theorem side_of_port? (found : interface.port? name = some (direction, width)) :
    (interface.side direction).find? name = some width := by
  simp only [port?] at found
  split at found
  case h_1 listed =>
    cases found
    exact listed
  case h_2 =>
    split at found
    case h_1 listed =>
      cases found
      exact listed
    case h_2 =>
      obtain ⟨own, listed, same⟩ := Option.map_eq_some_iff.mp found
      cases same
      exact listed

theorem exists_port? (listed : name ∈ (interface.side direction).map Prod.fst) :
    ∃ entry, interface.port? name = some entry := by
  obtain ⟨width, found⟩ := Table.exists_find? listed
  simp only [port?]
  split
  · exact ⟨_, rfl⟩
  case h_2 noInput =>
    split
    · exact ⟨_, rfl⟩
    case h_2 noOutput =>
      cases direction with
      | input => rw [side, noInput] at found; cases found
      | output => rw [side, noOutput] at found; cases found
      | bidirectional => exact ⟨_, Option.map_eq_some_iff.mpr ⟨width, found, rfl⟩⟩

theorem mem_portNames : name ∈ interface.portNames ↔
      ∃ direction, name ∈ (interface.side direction).map Prod.fst := by
  simp only [portNames, Table.keys, mem_append]
  constructor
  · rintro ((listed | listed) | listed)
    · exact ⟨.input, listed⟩
    · exact ⟨.bidirectional, listed⟩
    · exact ⟨.output, listed⟩
  · rintro ⟨direction, listed⟩
    cases direction with
    | input => exact .inl (.inl listed)
    | output => exact .inr listed
    | bidirectional => exact .inl (.inr listed)

def Portless (interface : Interface) : Prop :=
  ∀ direction, interface.side direction = []

variable (portless : interface.Portless)
include portless

theorem mem_of_port? (found : (interface.addPorts entries).port? name = some (direction, width)) :
    ⟨direction, name, width⟩ ∈ entries := by
  have listed := side_of_port? found
  rw [side_addPorts, portless direction] at listed
  obtain added | ⟨_, earlier⟩ := Table.find?_insertAll listed
  · exact mem_sideOf.mp added
  · cases earlier

theorem mem_side_addPorts : name ∈ ((interface.addPorts entries).side direction).map Prod.fst ↔
      ∃ width, ⟨direction, name, width⟩ ∈ entries := by
  rw [side_addPorts, portless direction, Table.mem_keys_insertAll, map_nil]
  constructor
  · intro listed
    obtain ⟨⟨own, width⟩, added, rfl⟩ := mem_map.mp (listed.resolve_right not_mem_nil)
    exact ⟨width, mem_sideOf.mp added⟩
  · rintro ⟨width, added⟩
    exact .inl (mem_map.mpr ⟨(name, width), mem_sideOf.mpr added, rfl⟩)

theorem mem_portNames_addPorts :
    name ∈ (interface.addPorts entries).portNames ↔ name ∈ entries.map (·.name) := by
  rw [mem_portNames, mem_map]
  constructor
  · rintro ⟨direction, listed⟩
    obtain ⟨width, added⟩ := (mem_side_addPorts portless).mp listed
    exact ⟨_, added, rfl⟩
  · rintro ⟨⟨direction, own, width⟩, added, rfl⟩
    exact ⟨direction, (mem_side_addPorts portless).mpr ⟨width, added⟩⟩

theorem exists_port?_of_mem {entry : PortEntry} (added : entry ∈ entries) :
    ∃ direction width, (interface.addPorts entries).port? entry.name = some (direction, width) := by
  have listed := (mem_portNames_addPorts portless).mpr (mem_map_of_mem (f := (·.name)) added)
  obtain ⟨direction, own⟩ := mem_portNames.mp listed
  obtain ⟨⟨facing, width⟩, found⟩ := exists_port? own
  exact ⟨facing, width, found⟩

variable (apart : (entries.map (·.name)).Nodup)
include apart

theorem perm_portNames : (interface.addPorts entries).portNames.Perm (entries.map (·.name)) := by
  have ordered : ∀ direction, ((interface.addPorts entries).side direction).Ordered := by
    intro direction
    rw [side_addPorts, portless direction]
    exact Table.ordered_nil.insertAll _
  -- A name of two directions would belong to one entry, which has a single direction.
  have separate : ∀ first second, first ≠ second → ∀ name,
      name ∈ ((interface.addPorts entries).side first).map Prod.fst →
      ∀ other, other ∈ ((interface.addPorts entries).side second).map Prod.fst → name ≠ other := by
    rintro first second differ name firstListed _ secondListed rfl
    obtain ⟨firstWidth, firstEntry⟩ := (mem_side_addPorts portless).mp firstListed
    obtain ⟨secondWidth, secondEntry⟩ := (mem_side_addPorts portless).mp secondListed
    have same := inj_on_of_nodup_map apart firstEntry secondEntry rfl
    exact differ (congrArg PortEntry.direction same)
  refine (perm_ext_iff_of_nodup ?_ apart).mpr fun name => mem_portNames_addPorts portless
  refine nodup_append.mpr ⟨nodup_append.mpr ⟨(ordered .input).nodup,
    (ordered .bidirectional).nodup, separate .input .bidirectional (by decide)⟩,
    (ordered .output).nodup, ?_⟩
  intro name listed
  obtain listed | listed := mem_append.mp listed
  · exact separate .input .output (by decide) name listed
  · exact separate .bidirectional .output (by decide) name listed

end Interface

namespace Interface

def wireNames (interface : Interface) : List String :=
  interface.wires.map Prod.fst

/-- The declared signals as a scope: a port, or else a wire. -/
def scope (interface : Interface) : Scope String := fun name =>
  match interface.port? name with
  | some (_, width) => width.count?.map fun count : Nat => (name, (count : Int))
  | none => (interface.wires.find? name).bind fun width =>
    width.count?.map fun count : Nat => (name, (count : Int))

end Interface

end Schematic.Hdl
