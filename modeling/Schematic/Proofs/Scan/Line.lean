import Mathlib.Data.List.DropRight
import Schematic.Hdl.Source
import Schematic.Proofs.Naming.Legal
import Schematic.Scan.Facts

/-! # Lines as a scan sees them -/

namespace Schematic.Scan

open Text Naming Hdl

section Characters

variable {c : Char}

instance (priority := 2000) decidableEachChar (p : Char → Prop) [DecidablePred p]
    (text : List Char) : Decidable (∀ c ∈ text, p c) :=
  text.decidableBAll p

instance (priority := 2000) decidableFirstChar (p : Char → Prop) [DecidablePred p]
    (first : Option Char) : Decidable (∀ c ∈ first, p c) :=
  first.decidableForallMem

theorem isFoldedWordChar_of_isWordChar (word : isWordChar c = true) :
    isFoldedWordChar c = true := by
  simp [isFoldedWordChar, word]

theorem not_gap_of_word (word : isFoldedWordChar c = true) : isGap c = false := by
  rw [← Bool.not_eq_true]
  intro gap
  have form : c ∈ [' ', '\t', '\n', '\r', Char.ofNat 12] := by
    simp only [isGap, Bool.or_eq_true, beq_iff_eq] at gap
    obtain (((rfl | rfl) | rfl) | rfl) | code := gap
    · simp
    · simp
    · simp
    · simp
    · rw [← Char.ofNat_toNat c, code]
      simp
  have none : ∀ c ∈ [' ', '\t', '\n', '\r', Char.ofNat 12], isFoldedWordChar c = false := by decide
  rw [none c form] at word
  cases word

end Characters

section Readers

variable {p : Char → Bool}

theorem skipGap_append {gaps : List Char} (blank : ∀ c ∈ gaps, isGap c = true)
    (text : List Char) : skipGap (gaps ++ text) = skipGap text := by
  rw [skipGap, List.dropWhile_append_of_pos blank, skipGap]

theorem run?_append {word : List Char} (nonempty : word ≠ [])
    (all : ∀ c ∈ word, p c = true) {rest : List Char} (ends : ∀ c ∈ rest.head?, p c = false) :
    run? p (word ++ rest) = some (word, rest) := by
  have stops : rest.takeWhile p = [] ∧ rest.dropWhile p = rest := by
    cases rest with
    | nil => exact ⟨rfl, rfl⟩
    | cons c rest => simp [ends c rfl]
  rw [run?, List.takeWhile_append_of_pos all, List.dropWhile_append_of_pos all, stops.1, stops.2,
    List.append_nil]
  cases word with
  | nil => exact absurd rfl nonempty
  | cons c word => rfl

end Readers

section Code

theorem splitFirst?_append {mark : Char} {marks head : List Char} (plain : mark ∉ head)
    (rest : List Char) : splitFirst? (mark :: marks) (head ++ rest) =
      (splitFirst? (mark :: marks) rest).map fun parts => (head ++ parts.1, parts.2) := by
  induction head with
  | nil => simp
  | cons c head ih =>
    have other : mark ≠ c := fun same => plain (same ▸ List.mem_cons_self ..)
    have rest := ih fun member => plain (List.mem_cons_of_mem _ member)
    simp only [List.cons_append, splitFirst?, dropStart?, beq_eq_false_iff_ne.mpr other,
      Bool.false_eq_true, ↓reduceIte, rest, Option.map_map]
    rfl

end Code

section Layout

variable {texts : List String} {c : Char} {line text : String} {α : Type}

theorem lines_toText (texts : List String) :
    lines (Lines.toText texts) = texts.flatMap lines ++ [""] := by
  induction texts with
  | nil => rfl
  | cons text texts ih =>
    have chars : (Lines.toText (text :: texts)).toList =
        text.toList ++ '\n' :: (Lines.toText texts).toList := by
      simp [Lines.toText, String.join_cons]
    have split : lines (Lines.toText (text :: texts)) =
        lines text ++ lines (Lines.toText texts) := by
      rw [lines, splitAt, chars, splitList_append (by rfl), List.map_append]
      rfl
    rw [split, ih, List.flatMap_cons, List.append_assoc]

theorem eq_blank_of_mem_repeated {depth : Nat}
    (member : c ∈ (repeated depth indentUnit).toList) : c = ' ' := by
  rw [repeated, String.toList_join, List.mem_flatMap] at member
  obtain ⟨unit, listed, member⟩ := member
  rw [List.eq_of_mem_replicate listed] at member
  simpa [indentUnit] using member

theorem isBlankText_append (first second : String) :
    isBlankText (first ++ second) = (isBlankText first && isBlankText second) := by
  rw [isBlankText, String.toList_append, List.all_append]
  rfl

theorem isBlankText_eq_false (visible : isBlank c = false)
    (member : c ∈ line.toList) : isBlankText line = false := by
  rw [isBlankText, List.all_eq_false]
  exact ⟨c, member, by simp [visible]⟩

theorem isBlankText_repeated (depth : Nat) : isBlankText (repeated depth indentUnit) = true := by
  refine List.all_eq_true.mpr fun c member => ?_
  rw [eq_blank_of_mem_repeated member]
  rfl

theorem repeated_add (first second : Nat) (text : String) :
    repeated (first + second) text = repeated first text ++ repeated second text := by
  rw [← String.toList_inj, repeated, ← List.replicate_append_replicate, String.toList_append]
  simp only [repeated, String.toList_join, List.flatMap_append]

theorem place_zero (visible : isBlankText line = false) : Lines.place 0 line = line := by
  rw [Lines.place, if_neg (Bool.not_eq_true _ ▸ visible)]
  exact String.empty_append

theorem ofText_eq (unbroken : Unbroken text) (visible : isBlankText text = false) :
    Lines.ofText text = [text] := by
  rw [Lines.ofText, lines_of_unbroken unbroken, List.map_singleton, place_zero visible]

theorem place_place (depth further : Nat) (line : String) :
    Lines.place depth (Lines.place further line) = Lines.place (depth + further) line := by
  by_cases blank : isBlankText line = true
  · have empty : ∀ depth, Lines.place depth line = "" := fun depth => if_pos blank
    rw [empty, empty]
    exact if_pos rfl
  · have nested : ∀ depth, Lines.place depth line = repeated depth indentUnit ++ line :=
      fun depth => if_neg blank
    have still : ¬isBlankText (Lines.place further line) = true := by
      rwa [nested, isBlankText_append, isBlankText_repeated, Bool.true_and]
    rw [Lines.place, if_neg still, nested, nested, repeated_add, String.append_assoc]

theorem padTo_cases (width : Nat) (text : String) : (∃ blanks : List Char, (∀ c ∈ blanks, c = ' ') ∧
      (padTo width text).toList = text.toList ++ blanks) ∨ padTo width text = badField ++ text := by
  rw [padTo]
  split
  · refine .inl ⟨List.replicate (width - text.length) ' ',
      fun c member => List.eq_of_mem_replicate member, ?_⟩
    rw [String.toList_append, String.toList_ofList]
  · exact .inr rfl

theorem mem_separated {separator : String} {render : α → String} {items : List α}
    (listed : line ∈ separated separator render items) :
    ∃ item ∈ items, ∃ ending ∈ ["", separator], line = render item ++ ending := by
  fun_induction separated separator render items with
  | case1 => cases listed
  | case2 last =>
    refine ⟨last, List.mem_singleton_self last, "", by simp, ?_⟩
    rw [List.mem_singleton.mp listed, String.append_empty]
  | case3 item rest _ ih =>
    obtain rfl | listed := List.mem_cons.mp listed
    · exact ⟨item, List.mem_cons_self .., separator, by simp, rfl⟩
    · obtain ⟨other, member, found⟩ := ih listed
      exact ⟨other, List.mem_cons_of_mem _ member, found⟩

end Layout

end Schematic.Scan
