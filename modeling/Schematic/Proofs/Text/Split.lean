import Schematic.Text.Split

/-! # Pieces between separators -/

open List

namespace Schematic.Text

variable {separates : Char → Bool}

theorem splitList_mark {c : Char} (mark : separates c = true) (text : List Char) :
    splitList separates (c :: text) = [] :: splitList separates text :=
  if_pos mark

theorem splitList_ne_nil (separates : Char → Bool) (text : List Char) :
    splitList separates text ≠ [] := by
  cases text with
  | nil => simp [splitList]
  | cons c text =>
    simp only [splitList]
    split
    · simp
    · split <;> simp

theorem exists_splitList_cons {c : Char} (kept : separates c = false) (text : List Char) :
    ∃ piece pieces, splitList separates text = piece :: pieces ∧
      splitList separates (c :: text) = (c :: piece) :: pieces := by
  cases split : splitList separates text with
  | nil => exact absurd split (splitList_ne_nil separates text)
  | cons piece pieces =>
    refine ⟨piece, pieces, rfl, ?_⟩
    simp [splitList, kept, split]

theorem not_separator_of_mem_splitList {text piece : List Char}
    (listed : piece ∈ splitList separates text) {c : Char} (member : c ∈ piece) :
    separates c = false := by
  induction text generalizing piece with
  | nil =>
    rw [mem_singleton.mp listed] at member
    cases member
  | cons first text ih =>
    cases mark : separates first with
    | true =>
      rw [splitList_mark mark] at listed
      obtain rfl | listed := mem_cons.mp listed
      · cases member
      · exact ih listed member
    | false =>
      obtain ⟨head, pieces, split, joined⟩ := exists_splitList_cons mark text
      rw [joined] at listed
      obtain rfl | listed := mem_cons.mp listed
      · obtain rfl | member := mem_cons.mp member
        · exact mark
        · exact ih (split ▸ mem_cons_self ..) member
      · exact ih (split ▸ mem_cons_of_mem _ listed) member

theorem splitList_append {separator : Char} (mark : separates separator = true)
    (first second : List Char) : splitList separates (first ++ separator :: second) =
      splitList separates first ++ splitList separates second := by
  induction first with
  | nil => exact splitList_mark mark second
  | cons c first ih =>
    cases own : separates c with
    | true => rw [cons_append, splitList_mark own, splitList_mark own, ih, cons_append]
    | false =>
      obtain ⟨piece, pieces, split, joined⟩ := exists_splitList_cons own first
      obtain ⟨longer, further, whole, prepended⟩ :=
        exists_splitList_cons own (first ++ separator :: second)
      rw [ih, split, cons_append, List.cons.injEq] at whole
      rw [cons_append, prepended, joined, cons_append, ← whole.1, ← whole.2]

theorem exists_splitList_append {front : List Char} (free : ∀ c ∈ front, separates c = false)
    (text : List Char) : ∃ piece pieces, splitList separates text = piece :: pieces ∧
      splitList separates (front ++ text) = (front ++ piece) :: pieces := by
  induction front with
  | nil =>
    obtain ⟨piece, pieces, same⟩ := exists_cons_of_ne_nil (splitList_ne_nil separates text)
    exact ⟨piece, pieces, same, same⟩
  | cons c front ih =>
    obtain ⟨kept, free⟩ := forall_mem_cons.mp free
    obtain ⟨piece, pieces, same, longer⟩ := ih free
    obtain ⟨_, _, split, joined⟩ := exists_splitList_cons kept (front ++ text)
    obtain ⟨rfl, rfl⟩ := List.cons.inj (longer.symm.trans split)
    exact ⟨piece, pieces, same, joined⟩

theorem splitList_of_free {text : List Char} (free : ∀ c ∈ text, separates c = false) :
    splitList separates text = [text] := by
  obtain ⟨_, _, ⟨⟩, joined⟩ := exists_splitList_append free []
  simpa using joined

/-- A text of one line. -/
def Unbroken (text : String) : Prop :=
  '\n' ∉ text.toList

instance (text : String) : Decidable (Unbroken text) :=
  inferInstanceAs (Decidable ('\n' ∉ text.toList))

@[simp] theorem unbroken_append {first second : String} :
    Unbroken (first ++ second) ↔ Unbroken first ∧ Unbroken second := by
  rw [Unbroken, String.toList_append, mem_append, not_or]
  rfl

theorem Unbroken.free {text : String} (unbroken : Unbroken text) :
    ∀ c ∈ text.toList, (c == '\n') = false := by
  intro c member
  rw [beq_eq_false_iff_ne]
  rintro rfl
  exact unbroken member

theorem exists_lines_append {front : String} (unbroken : Unbroken front) (text : String) :
    ∃ first rest, lines text = first :: rest ∧
      lines (front ++ text) = (front ++ first) :: rest := by
  obtain ⟨first, rest, same, longer⟩ := exists_splitList_append unbroken.free text.toList
  refine ⟨String.ofList first, rest.map String.ofList, ?_, ?_⟩
  · rw [lines, Text.splitAt, same, map_cons]
  · rw [lines, Text.splitAt, String.toList_append, longer, map_cons, String.ofList_append,
      String.ofList_toList]

theorem lines_of_unbroken {text : String} (unbroken : Unbroken text) : lines text = [text] := by
  rw [lines, Text.splitAt, splitList_of_free unbroken.free, map_singleton, String.ofList_toList]

theorem dropStart?_eq_some {α : Type} [BEq α] [LawfulBEq α] {start text rest : List α} :
    dropStart? start text = some rest ↔ text = start ++ rest := by
  induction start generalizing text with
  | nil => simp [dropStart?]
  | cons first start ih =>
    cases text with
    | nil => simp [dropStart?]
    | cons c text =>
      by_cases same : first = c
      · simp [dropStart?, same, ih]
      · simp [dropStart?, same, Ne.symm same]

theorem endsWith_append (stem ending : String) : endsWith (stem ++ ending) ending = true := by
  rw [endsWith, String.toList_append, reverse_append, dropStart?_eq_some.mpr rfl]
  rfl

theorem withoutEnd_append (stem ending : String) : withoutEnd ending (stem ++ ending) = stem := by
  rw [withoutEnd, String.toList_append, reverse_append, dropStart?_eq_some.mpr rfl]
  simp

theorem exists_of_endsWith {text ending : String} (ends : endsWith text ending = true) :
    ∃ stem, text = stem ++ ending := by
  obtain ⟨rest, found⟩ := Option.isSome_iff_exists.mp ends
  refine ⟨String.ofList rest.reverse, String.toList_injective ?_⟩
  rw [String.toList_append, String.toList_ofList, ← reverse_reverse text.toList,
    dropStart?_eq_some.mp found, reverse_append, reverse_reverse]

end Schematic.Text
