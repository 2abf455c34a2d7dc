import Schematic.Policy
import Schematic.Proofs.Naming.Legal

/-! # Sanitized names

Sanitizing leaves exactly the legal names as they are, and gives nothing but legal names. -/

open List

namespace Schematic.Naming

open Text

variable {c : Char} {chars : List Char}

theorem isAlpha_of_isLetter (letter : isLetter c = true) : c.isAlpha = true := by
  simp only [isLetter, Bool.or_eq_true, Bool.and_eq_true, decide_eq_true_eq] at letter
  delta Char.isAlpha Char.isUpper Char.isLower
  simp only [Bool.or_eq_true, Bool.and_eq_true, decide_eq_true_eq]
  exact letter.symm

theorem isAlphanum_of_isWordChar (word : isWordChar c = true) : c.isAlphanum = true := by
  rw [isWordChar, Bool.or_eq_true] at word
  rw [Char.isAlphanum, Bool.or_eq_true]
  refine word.imp isAlpha_of_isLetter fun digit => ?_
  simp only [Bool.and_eq_true, decide_eq_true_eq] at digit
  simp only [Char.isDigit, Bool.and_eq_true, decide_eq_true_eq]
  exact digit

namespace Worded

/-- Behind its first character a worded text goes on as the port-name pattern demands. -/
theorem exists_legalRest (worded : Worded chars) : ∃ c rest, chars = c :: rest ∧
    isWordChar c = true ∧ Policy.isLegalRest rest = true := by
  induction worded with
  | single word => exact ⟨_, [], rfl, word, rfl⟩
  | @cons c _ word _ ih =>
    obtain ⟨next, rest, rfl, other, legal⟩ := ih
    refine ⟨c, _, rfl, word, ?_⟩
    have plain : next ≠ '_' := by
      rintro rfl
      cases other
    rw [Policy.isLegalRest, isAlphanum_of_isWordChar other, legal]
    · rfl
    · exact fun _ _ same => absurd same plain
  | @underscore c _ word _ ih =>
    obtain ⟨next, rest, rfl, other, legal⟩ := ih
    exact ⟨c, _, rfl, word, by rw [Policy.isLegalRest, isAlphanum_of_isWordChar other, legal]; rfl⟩

/-- The pieces of a worded text are filled, and underscores join them to the text again. -/
theorem splitList_eq (worded : Worded chars) :
    (∀ piece ∈ splitList (fun c => !isWordChar c) chars, piece ≠ []) ∧
      ['_'].intercalate (splitList (fun c => !isWordChar c) chars) = chars := by
  have kept : ∀ {c : Char}, isWordChar c = true → (fun c => !isWordChar c) c = false := by simp
  induction worded with
  | single word => simp [splitList, word]
  | @cons c rest word _ ih =>
    obtain ⟨piece, pieces, split, joined⟩ :=
      @exists_splitList_cons (fun c => !isWordChar c) c (kept word) rest
    rw [split] at ih
    obtain ⟨filled, whole⟩ := ih
    rw [joined]
    refine ⟨forall_mem_cons.mpr ⟨cons_ne_nil _ _, (forall_mem_cons.mp filled).2⟩, ?_⟩
    cases pieces with
    | nil => simpa using whole
    | cons next pieces =>
      rw [intercalate_cons_cons] at whole ⊢
      rw [cons_append, cons_append, whole]
  | @underscore c rest word _ ih =>
    obtain ⟨filled, whole⟩ := ih
    have parts : splitList (fun c => !isWordChar c) (c :: '_' :: rest) =
        [c] :: splitList (fun c => !isWordChar c) rest := by
      rw [show c :: '_' :: rest = [c] ++ '_' :: rest from rfl, splitList_append (by decide)]
      simp [splitList, word]
    rw [parts]
    refine ⟨forall_mem_cons.mpr ⟨cons_ne_nil _ _, filled⟩, ?_⟩
    obtain ⟨next, others, more⟩ := exists_cons_of_ne_nil (splitList_ne_nil (!isWordChar ·) rest)
    rw [more] at whole ⊢
    rw [intercalate_cons_cons, whole]
    rfl

end Worded

variable {name : String}

theorem wordsOf_eq (worded : Worded name.toList) : wordsOf name = name := by
  obtain ⟨filled, whole⟩ := worded.splitList_eq
  have all : (splitList (fun c => !isWordChar c) name.toList).filter (!·.isEmpty) =
      splitList (fun c => !isWordChar c) name.toList :=
    filter_eq_self.mpr fun piece listed => by simpa using filled piece listed
  rw [← String.toList_inj, wordsOf, fields, all, String.toList_intercalate, map_map]
  simpa [Function.comp_def] using whole

theorem IsLegal.sanitize_eq (legal : IsLegal name) : sanitize name = name := by
  rw [sanitize, wordsOf_eq legal.worded]
  simp only [legal.identifier.nonempty, legal.letter, legal.unreserved, if_false, Bool.not_true,
    Bool.or_self, Bool.false_eq_true]

theorem IsLegal.isLegalPortName (legal : IsLegal name) : Policy.isLegalPortName name = true := by
  obtain ⟨c, rest, form, _, tail⟩ := legal.worded.exists_legalRest
  have letter := legal.letter
  rw [startsWithLetter, form] at letter
  rw [Policy.isLegalPortName, form]
  exact Bool.and_eq_true_iff.mpr ⟨isAlpha_of_isLetter letter, tail⟩

/-- **Sanitizing is a retraction onto the legal names.** Whatever the text, the result is legal, so
that the port-name rule accepts it; a text is kept exactly if it is legal; and sanitizing again
changes nothing. -/
theorem sanitize_retracts (text : String) :
    IsLegal (sanitize text) ∧ Policy.isLegalPortName (sanitize text) = true ∧
      (sanitize text = text ↔ IsLegal text) ∧ sanitize (sanitize text) = sanitize text := by
  have legal := isLegal_sanitize text
  refine ⟨legal, legal.isLegalPortName, ⟨fun same => same ▸ legal, IsLegal.sanitize_eq⟩, ?_⟩
  exact legal.sanitize_eq

end Schematic.Naming
