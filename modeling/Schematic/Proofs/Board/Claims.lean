import Mathlib.Data.List.Pairwise
import Schematic.Board.Basic
import Schematic.Proofs.Outcome

/-! # Pins of a checked board -/

open List

namespace Schematic

open Text

def Placement.pin? : Placement → Option String
  | .pin name => some name
  | _ => none

theorem Text.upper_ne_empty {text : String} (some : text ≠ "") : upper text ≠ "" := by
  intro empty
  have chars := congrArg String.toList empty
  rw [upper, String.toList_ofList, String.toList_empty, map_eq_nil_iff] at chars
  exact some (String.toList_inj.mp chars)

def BoardBit.Apart (first second : BoardBit) : Prop :=
  ∀ name other, first.placement.pin? = some name → second.placement.pin? = some other →
    upper name ≠ upper other

namespace BoardBit

theorem Apart.symm {first second : BoardBit} (apart : first.Apart second) : second.Apart first :=
  fun name other pinned otherPinned same => apart other name otherPinned pinned same.symm

theorem apart_of_getElem? {bits : List BoardBit} (apart : bits.Pairwise Apart) {i j : Nat}
    (differ : i ≠ j) {first second : BoardBit} (here : bits[i]? = some first)
    (there : bits[j]? = some second) : first.Apart second := by
  obtain ⟨below, rfl⟩ := List.getElem?_eq_some_iff.mp here
  obtain ⟨otherBelow, rfl⟩ := List.getElem?_eq_some_iff.mp there
  obtain less | less := Nat.lt_or_gt_of_ne differ
  · exact pairwise_iff_getElem.mp apart i j below otherBelow less
  · exact (pairwise_iff_getElem.mp apart j i otherBelow below less).symm

end BoardBit

def Mapping.Apart (first second : Mapping) : Prop :=
  ∀ bit ∈ first.bits, ∀ other ∈ second.bits, bit.Apart other

instance : Std.Symm Mapping.Apart where
  symm _ _ apart bit member other otherMember := (apart other otherMember bit member).symm

namespace BoardDraft

variable {path : String} {position : Nat} {pins later : Pins} {drafts : List BitDraft}
  {bits : List BoardBit} {bit : BoardBit}

def Pins.names (pins : Pins) : List String :=
  pins.map Prod.fst

theorem claimPin_cases (claimed : claimPin path position pins bit = .ok later) :
    (bit.placement.pin? = none ∧ later = pins) ∨
      ∃ name, bit.placement.pin? = some name ∧ upper name ∉ pins.names ∧
        later.names = upper name :: pins.names := by
  unfold claimPin at claimed
  split at claimed
  case h_1 name placed =>
    split at claimed
    case h_1 => cases claimed
    case h_2 free =>
      cases claimed
      refine .inr ⟨name, by rw [placed]; rfl, ?_, rfl⟩
      intro listed
      obtain ⟨entry, member, same⟩ := mem_map.mp listed
      have other := lookup_eq_none_iff.mp free entry member
      simp [same] at other
  case h_2 other =>
    cases claimed
    refine .inl ⟨?_, rfl⟩
    cases form : bit.placement with
    | pin name => exact absurd form (other name)
    | _ => rfl

theorem checkBit_pin {draft : BitDraft} (checked : checkBit path position draft = .ok bit)
    {name : String} (placed : bit.placement.pin? = some name) : name ≠ "" := by
  simp only [checkBit] at checked
  split at checked
  case isTrue => cases checked
  case isFalse =>
    split at checked
    case h_1 =>
      cases checked
      cases placed
    case h_2 =>
      cases checked
      cases placed
    case h_3 =>
      split at checked
      case isTrue => cases checked
      case isFalse some =>
        cases checked
        cases placed
        exact some
    case h_4 => cases checked

structure Claims (pins later : Pins) (bits : List BoardBit) : Prop where
  kept : pins.names ⊆ later.names
  fresh : ∀ bit ∈ bits, ∀ name, bit.placement.pin? = some name →
    name ≠ "" ∧ upper name ∉ pins.names ∧ upper name ∈ later.names
  once : bits.Pairwise BoardBit.Apart

theorem claims_of_checkBits (checked : checkBits path position pins drafts = .ok (bits, later)) :
    Claims pins later bits := by
  induction drafts generalizing position pins bits with
  | nil =>
    cases checked
    exact ⟨fun _ listed => listed, by simp, List.Pairwise.nil⟩
  | cons draft drafts ih =>
    obtain ⟨bit, first, checked⟩ := exists_ok_of_bind checked
    obtain ⟨middle, claimed, checked⟩ := exists_ok_of_bind checked
    obtain ⟨⟨rest, last⟩, others, checked⟩ := exists_ok_of_bind checked
    cases checked
    have claims := ih others
    have grows : pins.names ⊆ middle.names := by
      obtain ⟨_, rfl⟩ | ⟨name, _, _, names⟩ := claimPin_cases claimed
      · exact fun _ listed => listed
      · exact names ▸ subset_cons_self ..
    refine ⟨List.Subset.trans grows claims.kept, ?_, pairwise_cons.mpr ⟨?_, claims.once⟩⟩
    · intro placed listed name pinned
      obtain rfl | listed := mem_cons.mp listed
      · refine ⟨checkBit_pin first pinned, ?_⟩
        obtain ⟨none, _⟩ | ⟨_, known, free, names⟩ := claimPin_cases claimed
        · rw [none] at pinned
          cases pinned
        · obtain rfl := Option.some.inj (known.symm.trans pinned)
          exact ⟨free, claims.kept (names ▸ mem_cons_self ..)⟩
      · obtain ⟨some, free, taken⟩ := claims.fresh placed listed name pinned
        exact ⟨some, fun member => free (grows member), taken⟩
    · intro placed listed name other pinned otherPinned same
      obtain ⟨none, _⟩ | ⟨_, known, _, names⟩ := claimPin_cases claimed
      · rw [none] at pinned
        cases pinned
      · obtain rfl := Option.some.inj (known.symm.trans pinned)
        refine (claims.fresh placed listed other otherPinned).2.1 ?_
        rw [names, ← same]
        exact mem_cons_self ..

structure Separate (pins : Pins) (mappings : List Mapping) : Prop where
  fresh : ∀ mapping ∈ mappings, ∀ bit ∈ mapping.bits, ∀ name, bit.placement.pin? = some name →
    name ≠ "" ∧ upper name ∉ pins.names
  within : ∀ mapping ∈ mappings, mapping.bits.Pairwise BoardBit.Apart
  between : mappings.Pairwise Mapping.Apart

theorem separate_of_checkMappings {paths : List String} {signals : List MappingDraft}
    {mappings : List Mapping} (checked : checkMappings position paths pins signals = .ok mappings) :
    Separate pins mappings := by
  induction signals generalizing position paths pins mappings with
  | nil =>
    cases checked
    exact ⟨by simp, by simp, List.Pairwise.nil⟩
  | cons draft signals ih =>
    rw [checkMappings] at checked
    split at checked
    case isTrue => cases checked
    case isFalse =>
      split at checked
      case isTrue => cases checked
      case isFalse =>
        obtain ⟨⟨bits, middle⟩, first, checked⟩ := exists_ok_of_bind checked
        obtain ⟨rest, others, checked⟩ := exists_ok_of_bind checked
        cases checked
        have claims := claims_of_checkBits first
        have separate := ih others
        refine ⟨?_, ?_, pairwise_cons.mpr ⟨?_, separate.between⟩⟩
        · intro mapping listed bit member name pinned
          obtain rfl | listed := mem_cons.mp listed
          · obtain ⟨some, free, _⟩ := claims.fresh bit member name pinned
            exact ⟨some, free⟩
          · obtain ⟨some, free⟩ := separate.fresh mapping listed bit member name pinned
            exact ⟨some, fun listed => free (claims.kept listed)⟩
        · intro mapping listed
          obtain rfl | listed := mem_cons.mp listed
          · exact claims.once
          · exact separate.within mapping listed
        · intro mapping listed bit member other otherMember name second pinned otherPinned same
          refine (separate.fresh mapping listed other otherMember second otherPinned).2 ?_
          rw [← same]
          exact (claims.fresh bit member name pinned).2.2

end BoardDraft

namespace Board

variable {draft : BoardDraft} {board : Board}

/-- The pin that a bit of the signal with a path is placed on. -/
def pinAt? (board : Board) (path : String) (bit : Nat) : Option String :=
  (board.bitAt path bit).placement.pin?

theorem exists_of_pinAt? {path name : String} {bit : Nat}
    (placed : board.pinAt? path bit = some name) :
    ∃ mapping ∈ board.mappings, mapping.path = path ∧
      ∃ found, mapping.bits[bit]? = some found ∧ found.placement.pin? = some name := by
  unfold pinAt? bitAt at placed
  cases known : board.mapping? path with
  | none =>
    rw [known] at placed
    cases placed
  | some mapping =>
    rw [known, Option.bind_some] at placed
    cases here : mapping.bits[bit]? with
    | none =>
      rw [here] at placed
      cases placed
    | some found =>
      rw [here] at placed
      exact ⟨mapping, mem_of_find?_eq_some known,
        by simpa using List.find?_some known, found, here, placed⟩

theorem separate_of_check (checked : draft.check = .ok board) :
    ∃ pins : BoardDraft.Pins, BoardDraft.Separate pins board.mappings ∧
      (board.clockPin = "" ∨ upper board.clockPin ∈ pins.names) := by
  rw [BoardDraft.check] at checked
  cases known : Hdl.Vendor.named draft.vendor with
  | error unknown =>
    rw [known] at checked
    cases checked
  | ok vendor =>
    rw [known] at checked
    obtain ⟨mappings, mapped, checked⟩ := exists_ok_of_bind checked
    cases checked
    refine ⟨_, BoardDraft.separate_of_checkMappings mapped, ?_⟩
    by_cases none : draft.clockPin = ""
    · exact .inl none
    · rw [if_neg none]
      exact .inr (mem_singleton_self _)

section

variable {path : String} {name : String} {bit : Nat} (checked : draft.check = .ok board)
  (placed : board.pinAt? path bit = some name)
include checked placed

theorem pinAt?_unique {other second : String} {otherBit : Nat}
    (otherPlaced : board.pinAt? other otherBit = some second) (same : upper name = upper second) :
    path = other ∧ bit = otherBit := by
  obtain ⟨pins, separate, _⟩ := separate_of_check checked
  obtain ⟨mapping, listed, rfl, found, here, pinned⟩ := exists_of_pinAt? placed
  obtain ⟨another, otherListed, rfl, otherFound, there, otherPinned⟩ := exists_of_pinAt? otherPlaced
  have together : ¬found.Apart otherFound :=
    fun apart => apart name second pinned otherPinned same
  by_cases equal : mapping = another
  · subst equal
    refine ⟨rfl, ?_⟩
    by_contra differ
    exact together (BoardBit.apart_of_getElem? (separate.within mapping listed) differ here there)
  · have apart := separate.between.forall listed otherListed equal
    exact absurd (apart found (mem_of_getElem? here) otherFound (mem_of_getElem? there))
      together

theorem pinAt?_ne_clockPin : upper name ≠ upper board.clockPin := by
  obtain ⟨pins, separate, clock⟩ := separate_of_check checked
  obtain ⟨mapping, listed, rfl, found, here, pinned⟩ := exists_of_pinAt? placed
  obtain ⟨some, free⟩ := separate.fresh mapping listed found (mem_of_getElem? here) name pinned
  intro same
  obtain none | taken := clock
  · rw [none] at same
    exact upper_ne_empty some same
  · exact free (same ▸ taken)

end

end Board

end Schematic
