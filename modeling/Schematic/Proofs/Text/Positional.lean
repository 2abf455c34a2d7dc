import Mathlib.Data.List.Induction
import Mathlib.Data.Nat.Digits.Defs
import Schematic.Number.Word
import Schematic.Proofs.Text.Numeral

/-! # Numerals by the places of their digits -/

open List

namespace Schematic.Word

open Text

variable {base : Nat} {text : List Char} {c : Char}

def digitChars : List Char := "0123456789abcdef".toList

/-- The value of a digit in either case, and sixteen for what is no digit. -/
def digitPlace (c : Char) : Nat :=
  digitChars.idxOf c.toLower

/-- A nonempty text of digits of a base. -/
structure IsNumeral (base : Nat) (text : List Char) : Prop where
  nonempty : text ≠ []
  digits : ∀ c ∈ text, digitPlace c < base

/-- What digits of a base stand for, the highest of them first. -/
def numeralValue (base : Nat) (text : List Char) : Nat :=
  Nat.ofDigits base (text.map digitPlace).reverse

theorem numeralValue_concat (base : Nat) (text : List Char) (c : Char) :
    numeralValue base (text ++ [c]) = numeralValue base text * base + digitPlace c := by
  rw [numeralValue, map_append, map_singleton, reverse_concat, Nat.ofDigits_cons, Nat.mul_comm,
    Nat.add_comm]
  rfl

section Characters

theorem forall_narrow {P : Char → Prop} (each : ∀ n < 0x80, P (Char.ofNat n)) (c : Char)
    (narrow : c.toNat < 0x80) : P c := by
  have here := each c.toNat narrow
  rwa [Char.ofNat_toNat] at here

theorem toLower_of_wide (wide : 0x80 ≤ c.toNat) : c.toLower = c := by
  refine dif_neg fun capital => ?_
  have below : c.toNat ≤ 0x5A := capital.2
  omega

theorem digitPlace_of_wide (wide : 0x80 ≤ c.toNat) : digitPlace c = 16 := by
  have narrow : digitChars.all (·.toNat < 0x80) = true := by decide
  have other : c ∉ digitChars := fun listed => by
    have small := of_decide_eq_true (all_eq_true.mp narrow c listed)
    omega
  rw [digitPlace, toLower_of_wide wide, idxOf_eq_length other]
  rfl

theorem digitValue?_of_wide (wide : 0x80 ≤ c.toNat) : digitValue? base c = none := by
  have above : ∀ d : Char, d.toNat < 0x80 → ¬c ≤ d := fun d small below => by
    have order : c.toNat ≤ d.toNat := below
    omega
  have digit := above '9' (by decide)
  have letter := above 'z' (by decide)
  have capital := above 'Z' (by decide)
  simp [digitValue?, digit, letter, capital]

theorem digitValue?_sixteen (c : Char) :
    digitValue? 16 c = if digitPlace c < 16 then some (digitPlace c) else none := by
  by_cases narrow : c.toNat < 0x80
  · exact forall_narrow (P := fun c => digitValue? 16 c =
      if digitPlace c < 16 then some (digitPlace c) else none) (by decide +kernel) c narrow
  · have wide : 0x80 ≤ c.toNat := by omega
    rw [digitValue?_of_wide wide, digitPlace_of_wide wide]
    rfl

theorem digitValue?_eq (small : base ≤ 16) (c : Char) :
    digitValue? base c = if digitPlace c < base then some (digitPlace c) else none := by
  have narrowed : digitValue? base c = (digitValue? 16 c).filter (· < base) := by
    simp only [digitValue?, Option.filter_filter]
    congr 1
    funext value
    rw [Bool.eq_iff_iff]
    simp only [Bool.and_eq_true, decide_eq_true_eq]
    omega
  rw [narrowed, digitValue?_sixteen]
  split
  · simp [Option.filter_some]
  · rw [if_neg (by omega)]
    rfl

/-- A character outside the basic ones has a small letter outside them, but for two: a dotted I
and the sign for kelvins. -/
theorem lowerChar_of_wide (wide : 0x80 ≤ c.toNat) :
    0x80 ≤ (lowerChar c).toNat ∨ lowerChar c ∈ ['i', 'k', '\x00'] := by
  have raised : ∀ range ∈ lowerRanges, 0x80 ≤ range.first + range.shift ∨
      range.first = range.last ∧ range.first + range.shift ∈ [0x69, 0x6B] := by decide +kernel
  have code : 0x80 ≤ mapCode lowerRanges c.toNat ∨ mapCode lowerRanges c.toNat ∈ [0x69, 0x6B] := by
    rw [mapCode]
    split
    case h_1 range found =>
      have maps := List.find?_some found
      simp only [CaseRange.maps, Bool.and_eq_true, decide_eq_true_eq] at maps
      obtain above | ⟨single, letter⟩ := raised range (mem_of_find?_eq_some found)
      · left
        omega
      · right
        have same : c.toNat = range.first := by omega
        simp only [mem_cons, not_mem_nil, or_false] at letter ⊢
        omega
    case h_2 => exact .inl wide
  rw [lowerChar, if_neg (by omega)]
  obtain large | letter := code
  · by_cases valid : (mapCode lowerRanges c.toNat).isValidChar
    · rw [Char.ofNat, dif_pos valid]
      exact .inl large
    · rw [Char.ofNat, dif_neg valid]
      exact .inr (by decide)
  · simp only [mem_cons, not_mem_nil, or_false] at letter
    obtain same | same := letter
    · rw [same]
      exact .inr (by decide)
    · rw [same]
      exact .inr (by decide)

theorem lowerChar_of_narrow (narrow : c.toNat < 0x80) : lowerChar c = c.toLower :=
  if_pos narrow

theorem lowerChar_eq_iff {d : Char} (narrow : d.toNat < 0x80) (other : d ∉ ['i', 'k', '\x00']) :
    lowerChar c = d ↔ c.toLower = d := by
  by_cases basic : c.toNat < 0x80
  · rw [lowerChar_of_narrow basic]
  · have wide : 0x80 ≤ c.toNat := by omega
    rw [toLower_of_wide wide]
    refine ⟨fun same => ?_, fun same => absurd (same ▸ wide) (by omega)⟩
    obtain outside | letter := lowerChar_of_wide wide
    · exact absurd (same ▸ outside) (by omega)
    · exact absurd (same ▸ letter) other

theorem digitPlace_lowerChar (c : Char) : digitPlace (lowerChar c) = digitPlace c := by
  by_cases narrow : c.toNat < 0x80
  · rw [lowerChar_of_narrow narrow]
    exact forall_narrow (P := fun c => digitPlace c.toLower = digitPlace c) (by decide +kernel) c
      narrow
  · have wide : 0x80 ≤ c.toNat := by omega
    rw [digitPlace_of_wide wide]
    obtain outside | letter := lowerChar_of_wide wide
    · exact digitPlace_of_wide outside
    · have each : ['i', 'k', '\x00'].all (digitPlace · = 16) = true := by decide
      exact of_decide_eq_true (all_eq_true.mp each _ letter)

end Characters

section Readers

theorem digitsValue?_concat (base : Nat) (text : List Char) (c : Char) :
    digitsValue? base (text ++ [c]) = (digitsValue? base text).bind fun n =>
      (digitValue? base c).map fun d => n * base + d := by
  rw [digitsValue?, foldl_append]
  rfl

theorem digitsValue?_eq_some_iff (small : base ≤ 16) {n : Nat} : digitsValue? base text = some n ↔
    (∀ c ∈ text, digitPlace c < base) ∧ numeralValue base text = n := by
  induction text using List.reverseRecOn generalizing n with
  | nil => simp [digitsValue?, numeralValue]
  | append_singleton text c ih =>
    rw [digitsValue?_concat, digitValue?_eq small, numeralValue_concat, forall_mem_append,
      forall_mem_singleton, Option.bind_eq_some_iff]
    by_cases last : digitPlace c < base
    · simp [ih, last]
    · simp [last]

theorem readUnsigned?_eq_some_iff (small : base ≤ 16) {bound n : Nat} :
    readUnsigned? base bound text = some n ↔
      IsNumeral base text ∧ numeralValue base text = n ∧ n ≤ bound := by
  have numeral : IsNumeral base text ↔ text ≠ [] ∧ ∀ c ∈ text, digitPlace c < base :=
    ⟨fun numeral => ⟨numeral.nonempty, numeral.digits⟩, 
      fun ⟨nonempty, digits⟩ => ⟨nonempty, digits⟩⟩
  rw [readUnsigned?, numeral]
  cases text with
  | nil => simp
  | cons c text =>
    rw [if_neg (by simp), Option.filter_eq_some_iff, digitsValue?_eq_some_iff small]
    simp [and_assoc]

end Readers

end Schematic.Word
