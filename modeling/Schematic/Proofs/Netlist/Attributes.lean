import Schematic.Netlist.Attributes
import Schematic.Proofs.Text.Quoted

/-! # Attributes as one text -/

open List

namespace Schematic.Attributes

open Text

variable {attributes first second : Attributes}

def Unquoted (attributes : Attributes) : Prop :=
  ∀ entry ∈ attributes, '"' ∉ entry.1.toList

def Unbarred (attributes : Attributes) : Prop :=
  ∀ entry ∈ attributes, '|' ∉ entry.1.toList

def entryText (entry : String × String) : List Char :=
  (entry.1.toList ++ ['=']) ++ '"' :: (escaped entry.2.toList ++ '"' :: [';'])

def chars (attributes : Attributes) : List Char :=
  attributes.flatMap entryText

theorem toList_canonical (attributes : Attributes) :
    attributes.canonical.toList = attributes.chars := by
  simp only [canonical, String.toList_join, flatMap_map, chars]
  congr 1
  funext entry
  simp only [entryText, String.toList_append, toList_quote]
  simp

theorem chars_cons (name value : String) (attributes : Attributes) :
    chars ((name, value) :: attributes) = (name.toList ++ ['=']) ++ '"' ::
      (escaped value.toList ++ '"' :: ';' :: chars attributes) := by
  simp only [chars, flatMap_cons, entryText]
  simp

theorem Unquoted.head {name value : String}
    (unquoted : Unquoted ((name, value) :: attributes)) : '"' ∉ name.toList ++ ['='] := by
  have absent := unquoted (name, value) (mem_cons_self ..)
  simpa using absent

theorem Unquoted.tail {entry : String × String}
    (unquoted : Unquoted (entry :: attributes)) : attributes.Unquoted :=
  fun other member => unquoted other (mem_cons_of_mem _ member)

theorem chars_injective (firstUnquoted : first.Unquoted)
    (secondUnquoted : second.Unquoted) (same : first.chars = second.chars) : first = second := by
  induction first generalizing second with
  | nil =>
    cases second with
    | nil => rfl
    | cons entry second => rw [chars_cons] at same; simp [chars] at same
  | cons entry first ih =>
    cases second with
    | nil => rw [chars_cons] at same; simp [chars] at same
    | cons other second =>
      rw [chars_cons, chars_cons] at same
      obtain ⟨names, behind⟩ := split_unique firstUnquoted.head secondUnquoted.head same
      obtain ⟨values, rests⟩ := escaped_append_inj behind
      have sameName : entry.1 = other.1 :=
        String.toList_inj.mp (append_cancel_right names)
      have sameValue : entry.2 = other.2 := String.toList_inj.mp values
      have sameRest := ih firstUnquoted.tail secondUnquoted.tail (List.cons.inj rests).2
      rw [Prod.ext sameName sameValue, sameRest]

theorem getLast?_equals (name : List Char) : (name ++ ['=']).getLast? ≠ some '\\' := by
  simp

theorem chars_ne_inside (firstUnquoted : first.Unquoted)
    (secondUnquoted : second.Unquoted) (value : List Char) :
    escaped value ++ '"' :: ';' :: first.chars ≠ second.chars := by
  induction first generalizing value second with
  | nil =>
    intro same
    cases second with
    | nil => simp [chars] at same
    | cons entry second =>
      rw [chars_cons] at same
      obtain ⟨_, rests⟩ :=
        escaped_of_first_quote secondUnquoted.head (getLast?_equals _) same
      have lengths := congrArg List.length rests
      simp [chars] at lengths
      omega
  | cons other first ih =>
    intro same
    cases second with
    | nil => simp [chars] at same
    | cons entry second =>
      rw [chars_cons, chars_cons] at same
      obtain ⟨_, rests⟩ :=
        escaped_of_first_quote secondUnquoted.head (getLast?_equals _) same
      have apart : '"' ∉ (';' :: other.1.toList) ++ ['='] := by
        simpa using firstUnquoted.head
      obtain ⟨_, behind⟩ := escaped_of_first_quote apart (getLast?_equals _) rests.symm
      -- The value of `other` begins with the semicolon that ends `entry`: behind it the two
      -- readings are apart as before, with one entry less on both sides.
      cases inner : other.2.toList with
      | nil => rw [inner] at behind; cases behind
      | cons c value =>
        have semicolon : [';'] = quoteChar ';' := rfl
        rw [inner, escaped_cons, append_assoc, ← singleton_append, semicolon]
          at behind
        exact ih firstUnquoted.tail secondUnquoted.tail value
          (quoteChar_append_inj behind).2.symm

theorem behind_bar_of_escaped {value rest before behind : List Char}
    (same : escaped value ++ '"' :: rest = before ++ '|' :: behind) :
    (∃ inner, escaped inner ++ '"' :: rest = behind) ∨
      ∃ between, rest = between ++ '|' :: behind := by
  induction value generalizing before with
  | nil =>
    obtain ⟨between, _, tail⟩ := split_of_not_mem (by decide : '|' ∉ ['"']) same
    exact .inr ⟨between, tail⟩
  | cons c value ih =>
    rw [escaped_cons, append_assoc] at same
    by_cases bar : c = '|'
    · subst bar
      cases before with
      | nil => exact .inl ⟨value, (List.cons.inj same).2⟩
      | cons _ before => exact ih (List.cons.inj same).2
    · have absent : '|' ∉ quoteChar c := not_mem_quoteChar (Ne.symm bar) (by decide) rfl
      obtain ⟨between, _, tail⟩ := split_of_not_mem absent same
      exact ih tail

theorem chars_ne_behind_bar (firstUnquoted : first.Unquoted)
    (unbarred : first.Unbarred) (secondUnquoted : second.Unquoted) (before : List Char) :
    first.chars ≠ before ++ '|' :: second.chars := by
  induction first generalizing before with
  | nil =>
    intro same
    simp [chars] at same
  | cons entry first ih =>
    intro same
    have absent : '|' ∉ entry.1.toList ++ ['='] := by
      have free := unbarred entry (mem_cons_self ..)
      simpa using free
    rw [chars_cons] at same
    obtain ⟨_, _, quoted⟩ := split_of_not_mem absent same
    obtain ⟨_, _, rest⟩ := split_of_not_mem (by decide : '|' ∉ ['"']) quoted
    obtain ⟨value, inside⟩ | ⟨later, outside⟩ := behind_bar_of_escaped rest
    · exact chars_ne_inside firstUnquoted.tail secondUnquoted value inside
    · obtain ⟨last, _, tail⟩ := split_of_not_mem (by decide : '|' ∉ [';']) outside
      exact ih firstUnquoted.tail (fun other member =>
        unbarred other (mem_cons_of_mem _ member)) last tail

theorem eq_of_barred_canonical {before other : String}
    (firstUnquoted : first.Unquoted) (firstUnbarred : first.Unbarred)
    (secondUnquoted : second.Unquoted) (secondUnbarred : second.Unbarred)
    (same : before ++ "|" ++ first.canonical = other ++ "|" ++ second.canonical) :
    first = second := by
  have lists := congrArg String.toList same
  simp only [String.toList_append, toList_canonical, append_assoc] at lists
  obtain ⟨between, _, tails⟩ | ⟨between, _, tails⟩ := append_eq_append_iff.mp lists
  · cases between with
    | nil => exact chars_injective firstUnquoted secondUnquoted (List.cons.inj tails).2
    | cons c between =>
      exact absurd (List.cons.inj tails).2
        (chars_ne_behind_bar firstUnquoted firstUnbarred secondUnquoted between)
  · cases between with
    | nil => exact chars_injective firstUnquoted secondUnquoted (List.cons.inj tails).2.symm
    | cons c between =>
      exact absurd (List.cons.inj tails).2
        (chars_ne_behind_bar secondUnquoted secondUnbarred firstUnquoted between)

end Schematic.Attributes
