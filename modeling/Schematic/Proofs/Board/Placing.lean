import Schematic.Board.Wrapper
import Schematic.Proofs.Board.Claims
import Schematic.Proofs.Circuit.Clashes

/-! # Bits placed on the ports of a board -/

open List

namespace Schematic

open Hdl Text Reporting

namespace Placements

/-- The name of a numbered port of the wrapper. -/
def portOf (direction : Direction) (number : Nat) : String :=
  pinStem direction ++ toString number

theorem nextPort_eq (placements : Placements) (direction : Direction) :
    placements.nextPort direction =
      portOf direction (placements.ports.filter (·.direction = direction)).length := rfl

theorem lower_portOf_inj {first second : Direction} {m n : Nat}
    (same : lower (portOf first m) = lower (portOf second n)) : first = second ∧ m = n := by
  have stems : ∀ direction, (lower (pinStem direction)).toList =
      (lower (pinStem direction)).toList.dropLast ++ ['_'] := by
    intro direction
    cases direction <;> decide
  have differ : ∀ first second : Direction, (lower (pinStem first)).toList.dropLast =
      (lower (pinStem second)).toList.dropLast → first = second := by
    intro first second
    cases first <;> cases second <;> decide
  have lists := congrArg String.toList same
  simp only [portOf, lower_append, lower_toString, String.toList_append, toList_toString] at lists
  rw [stems first, stems second, append_assoc, append_assoc] at lists
  obtain ⟨names, digits⟩ := append_underscore_inj Nat.underscore_not_in_toDigits
    Nat.underscore_not_in_toDigits lists
  exact ⟨differ first second names, toDigits_injective digits⟩

end Placements

namespace OuterBit

variable (outer : OuterBit) (number : Nat)

/-- The pin that a bit is placed on, if any. -/
def pins : List String :=
  outer.bit.placement.pin?.toList

/-- The port that a bit takes if it is placed on a pin and its number is the given one. -/
def ports : List PlacedPort :=
  outer.pins.map fun pin => ⟨Placements.portOf outer.direction number, pin, outer.direction,
    outer.source⟩

def feed : Expr :=
  match outer.bit.placement with
  | .pin _ => Placements.inverted outer.bit (.signal (Placements.portOf .input number))
  | .constant value => .bit (value != outer.bit.inverted)
  | .unused | .unmapped => .bit false

def inputs : List Assignment :=
  if outer.direction = .input then [⟨outer.signal, outer.feed number⟩] else []

def outputs : List Assignment :=
  if outer.direction = .output then
    outer.pins.map fun _ => ⟨.signal (Placements.portOf .output number),
      Placements.inverted outer.bit outer.signal⟩
  else []

def inouts (ports : List String) : List String :=
  if outer.direction = .bidirectional then
    ports.set outer.position.toNat (Placements.portOf .bidirectional number) else ports

/-- What reaches both ways is on a pin that is not inverted. -/
def Joinable : Prop :=
  outer.direction = .bidirectional → ∃ pin, outer.bit = ⟨.pin pin, false⟩

/-- The bits of a direction, each with the number of its ports before it. -/
def ranked (direction : Direction) : Nat → List OuterBit → List (OuterBit × Nat)
  | _, [] => []
  | number, outer :: rest =>
    if outer.direction = direction then
      (outer, number) :: ranked direction (number + outer.pins.length) rest
    else ranked direction number rest

end OuterBit

namespace Placements

variable {placements later : Placements} {circuit : String} {outer : OuterBit}
  {bits : List OuterBit} {direction : Direction}

def count (placements : Placements) (direction : Direction) : Nat :=
  (placements.ports.filter (·.direction = direction)).length

def after (placements : Placements) (outer : OuterBit) : Placements :=
  let number := placements.count outer.direction
  ⟨placements.ports ++ outer.ports number, placements.inputs ++ outer.inputs number,
    placements.outputs ++ outer.outputs number, outer.inouts number placements.inouts⟩

theorem after_of_place (placed : Yields (placements.place circuit outer) later) :
    later = placements.after outer ∧ outer.Joinable := by
  obtain ⟨direction, position, signal, source, placement, inverted⟩ := outer
  cases direction with
  | input =>
    refine ⟨?_, fun both => by cases both⟩
    cases placement with
    | unmapped =>
      obtain ⟨_, _, placed⟩ := placed.bind
      rw [← yields_pure.mp placed]
      simp [after, OuterBit.ports, OuterBit.pins, OuterBit.inputs, OuterBit.outputs,
        OuterBit.inouts, OuterBit.feed, Placement.pin?]
    | _ =>
      rw [← yields_pure.mp placed]
      simp [after, OuterBit.ports, OuterBit.pins, OuterBit.inputs, OuterBit.outputs,
        OuterBit.inouts, OuterBit.feed, Placement.pin?, addPort, nextPort_eq, count]
  | output =>
    refine ⟨?_, fun both => by cases both⟩
    cases placement with
    | constant => exact absurd placed not_yields_throw
    | unmapped =>
      obtain ⟨_, _, placed⟩ := placed.bind
      rw [← yields_pure.mp placed]
      simp [after, OuterBit.ports, OuterBit.pins, OuterBit.inputs, OuterBit.outputs,
        OuterBit.inouts, Placement.pin?]
    | _ =>
      rw [← yields_pure.mp placed]
      simp [after, OuterBit.ports, OuterBit.pins, OuterBit.inputs, OuterBit.outputs,
        OuterBit.inouts, Placement.pin?, addPort, nextPort_eq, count]
  | bidirectional =>
    simp only [place, join] at placed
    split at placed
    case h_1 _ _ pin =>
      split at placed
      case isFalse => exact absurd placed not_yields_throw
      case isTrue =>
        rw [← yields_pure.mp placed]
        refine ⟨?_, fun _ => ⟨pin, rfl⟩⟩
        simp [after, OuterBit.ports, OuterBit.pins, OuterBit.inputs, OuterBit.outputs,
          OuterBit.inouts, Placement.pin?, addPort, nextPort_eq, count]
    case h_2 => exact absurd placed not_yields_throw

theorem count_after (placements : Placements) (outer : OuterBit) (direction : Direction) :
    (placements.after outer).count direction = placements.count direction +
      if outer.direction = direction then outer.pins.length else 0 := by
  rw [count, after, filter_append, length_append, ← count]
  congr 1
  split
  case isTrue same =>
    rw [filter_eq_self.mpr (by simp [OuterBit.ports, same]), OuterBit.ports, length_map]
  case isFalse differ =>
    rw [length_eq_zero_iff, filter_eq_nil_iff]
    simp [OuterBit.ports, differ]

theorem field_foldl_after {α : Type} (field : Placements → List α)
    (part : OuterBit → Nat → List α) (each : ∀ placements outer, field (placements.after outer) =
      field placements ++
        if outer.direction = direction then part outer (placements.count direction) else [])
    (placements : Placements) (bits : List OuterBit) : field (bits.foldl after placements) =
      field placements ++ (OuterBit.ranked direction (placements.count direction) bits).flatMap
        fun entry => part entry.1 entry.2 := by
  induction bits generalizing placements with
  | nil => rw [foldl_nil, OuterBit.ranked, flatMap_nil, append_nil]
  | cons outer bits ih =>
    rw [foldl_cons, ih, each, count_after, OuterBit.ranked, append_assoc]
    split
    · rw [flatMap_cons]
    · rw [nil_append, Nat.add_zero]

section

variable (placements : Placements) (bits : List OuterBit)

theorem ports_foldl_after (direction : Direction) :
    (bits.foldl after placements).ports.filter (·.direction = direction) =
      placements.ports.filter (·.direction = direction) ++
        (OuterBit.ranked direction (placements.count direction) bits).flatMap
          fun entry => entry.1.ports entry.2 := by
  refine field_foldl_after (fun placements => placements.ports.filter (·.direction = direction))
    OuterBit.ports ?_ placements bits
  intro placements outer
  rw [after, filter_append]
  congr 1
  split
  case isTrue same => rw [filter_eq_self.mpr (by simp [OuterBit.ports, same]), same]
  case isFalse differ => exact filter_eq_nil_iff.mpr (by simp [OuterBit.ports, differ])

theorem inputs_foldl_after : (bits.foldl after placements).inputs = placements.inputs ++
    (OuterBit.ranked .input (placements.count .input) bits).flatMap
      fun entry => [⟨entry.1.signal, entry.1.feed entry.2⟩] := by
  refine field_foldl_after Placements.inputs
    (fun outer number => [⟨outer.signal, outer.feed number⟩]) ?_ placements bits
  intro placements outer
  rw [after, OuterBit.inputs]
  split
  case isTrue same => rw [same]
  case isFalse => rfl

theorem outputs_foldl_after : (bits.foldl after placements).outputs = placements.outputs ++
    (OuterBit.ranked .output (placements.count .output) bits).flatMap
      fun entry => entry.1.pins.map fun _ => ⟨.signal (portOf .output entry.2),
        inverted entry.1.bit entry.1.signal⟩ := by
  refine field_foldl_after Placements.outputs (fun outer number => outer.pins.map fun _ =>
    ⟨.signal (portOf .output number), inverted outer.bit outer.signal⟩) ?_ placements bits
  intro placements outer
  rw [after, OuterBit.outputs]
  split
  case isTrue same => rw [same]
  case isFalse => rfl

theorem inouts_foldl_after : (bits.foldl after placements).inouts =
    (OuterBit.ranked .bidirectional (placements.count .bidirectional) bits).foldl
      (fun ports entry => ports.set entry.1.position.toNat (portOf .bidirectional entry.2))
      placements.inouts := by
  induction bits generalizing placements with
  | nil => rfl
  | cons outer bits ih =>
    rw [foldl_cons, ih, count_after, OuterBit.ranked, after, OuterBit.inouts]
    split
    case isTrue same => rw [foldl_cons, same]
    case isFalse => rw [Nat.add_zero]

end

theorem foldl_of_foldlM (placed : Yields (bits.foldlM (place circuit) placements) later) :
    later = bits.foldl after placements ∧ ∀ outer ∈ bits, outer.Joinable := by
  induction bits generalizing placements with
  | nil => exact ⟨(yields_pure.mp placed).symm, fun _ listed => absurd listed not_mem_nil⟩
  | cons outer bits ih =>
    rw [foldlM_cons] at placed
    obtain ⟨middle, first, rest⟩ := placed.bind
    obtain ⟨rfl, joinable⟩ := after_of_place first
    obtain ⟨rfl, others⟩ := ih rest
    exact ⟨rfl, forall_mem_cons.mpr ⟨joinable, others⟩⟩

end Placements

namespace OuterBit

variable {direction : Direction} {bits : List OuterBit} {number : Nat}

theorem map_fst_ranked (direction : Direction) (number : Nat) (bits : List OuterBit) :
    (ranked direction number bits).map Prod.fst = bits.filter (·.direction = direction) := by
  induction bits generalizing number with
  | nil => rfl
  | cons outer bits ih =>
    rw [ranked]
    split
    case isTrue same => rw [map_cons, ih, filter_cons_of_pos (by simpa using same)]
    case isFalse differ => rw [ih, filter_cons_of_neg (by simpa using differ)]

theorem direction_of_mem_ranked {entry : OuterBit × Nat}
    (listed : entry ∈ ranked direction number bits) : entry.1.direction = direction := by
  have own : entry.1 ∈ bits.filter (·.direction = direction) :=
    map_fst_ranked direction number bits ▸ mem_map_of_mem listed
  simpa using (mem_filter.mp own).2

/-- The ports of a direction are numbered without gaps. -/
theorem names_ranked (direction : Direction) (number : Nat) (bits : List OuterBit) :
    ((ranked direction number bits).flatMap fun entry => entry.1.ports entry.2).map (·.port) =
      (List.range' number ((ranked direction number bits).flatMap fun entry =>
        entry.1.ports entry.2).length).map (Placements.portOf direction) := by
  induction bits generalizing number with
  | nil => rfl
  | cons outer bits ih =>
    rw [ranked]
    split
    case isFalse => exact ih number
    case isTrue same =>
      rw [flatMap_cons, map_append, ih, length_append, ports, length_map, map_map, pins]
      cases outer.bit.placement.pin? with
      | none => rw [Option.toList_none, map_nil, length_nil, Nat.zero_add]; rfl
      | some pin =>
        rw [Option.toList_some, length_singleton, Nat.add_comm 1, range'_succ, map_cons, ← same]
        rfl

/-- Where every bit is on a pin, its number is its place. -/
theorem ranked_eq_zipIdx (joinable : ∀ outer ∈ bits, outer.Joinable) (number : Nat) :
    ranked .bidirectional number bits =
      (bits.filter (·.direction = .bidirectional)).zipIdx number := by
  induction bits generalizing number with
  | nil => rfl
  | cons outer bits ih =>
    obtain ⟨own, others⟩ := forall_mem_cons.mp joinable
    rw [ranked]
    split
    case isTrue same =>
      obtain ⟨pin, placed⟩ := own same
      rw [filter_cons_of_pos (by simpa using same), zipIdx_cons, ih others, pins, placed]
      rfl
    case isFalse differ => rw [ih others, filter_cons_of_neg (by simpa using differ)]

end OuterBit

namespace Placements

variable {placements : Placements}

structure Numbered (placements : Placements) : Prop where
  shape : ∀ placed ∈ placements.ports,
    ∃ number < (placements.ports.filter (·.direction = placed.direction)).length,
      placed.port = portOf placed.direction number
  distinct : (placements.ports.map fun placed => lower placed.port).Nodup

theorem numbered_of_foldlM {circuit : String} {bits : List OuterBit} {inouts : Nat}
    (placed : Yields (bits.foldlM (place circuit) (.blank inouts)) placements) :
    placements.Numbered := by
  have names : ∀ direction, (placements.ports.filter (·.direction = direction)).map (·.port) =
      (List.range' 0 (placements.ports.filter (·.direction = direction)).length).map
        (portOf direction) := by
    intro direction
    rw [(foldl_of_foldlM placed).1, ports_foldl_after]
    exact OuterBit.names_ranked direction 0 bits
  have shape : ∀ placed ∈ placements.ports,
      ∃ number < (placements.ports.filter (·.direction = placed.direction)).length,
        placed.port = portOf placed.direction number := by
    intro placed listed
    have own : placed.port ∈ (placements.ports.filter (·.direction = placed.direction)).map
        (·.port) := mem_map_of_mem (mem_filter.mpr ⟨listed, decide_eq_true rfl⟩)
    rw [names] at own
    obtain ⟨number, inside, name⟩ := mem_map.mp own
    exact ⟨number, by simpa using mem_range'.mp inside, name.symm⟩
  have alone : ∀ direction, placements.ports.Pairwise fun first second =>
      first.direction = direction → second.direction = direction →
        lower first.port ≠ lower second.port := by
    intro direction
    have distinct : ((List.range' 0 (placements.ports.filter
        (·.direction = direction)).length).map (portOf direction)).Pairwise
          fun first second => lower first ≠ lower second :=
      pairwise_map.mpr ((pairwise_lt_range' 1).imp fun less same =>
        Nat.ne_of_lt less (lower_portOf_inj same).2)
    rw [← names, pairwise_map, pairwise_filter] at distinct
    simpa only [decide_eq_true_eq] using distinct
  refine ⟨shape, pairwise_map.mpr (List.Pairwise.imp_of_mem ?_
    ((alone .input).and ((alone .output).and (alone .bidirectional))))⟩
  rintro first second listed otherListed ⟨input, output, both⟩ same
  obtain ⟨_, _, name⟩ := shape first listed
  obtain ⟨_, _, otherName⟩ := shape second otherListed
  have ways := same
  rw [name, otherName] at ways
  have way := (lower_portOf_inj ways).1
  cases direction : first.direction with
  | input => exact input direction (way ▸ direction) same
  | output => exact output direction (way ▸ direction) same
  | bidirectional => exact both direction (way ▸ direction) same

end Placements

end Schematic
