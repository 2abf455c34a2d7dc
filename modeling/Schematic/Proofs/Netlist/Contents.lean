import Schematic.Netlist.Attributes
import Schematic.Proofs.Scan.Line
import Schematic.Proofs.Text.Positional
import Schematic.Proofs.Text.Quoted

/-! # Memory contents as a list of words -/

open List

namespace Schematic.Attributes

open Text

variable {text item : List Char} {items : List (List Char)} {key : String}

/-- A word in digits of either case, with a mark before them or without. -/
def SpellsWord (text : List Char) (value : Nat) : Prop :=
  ∃ mark ∈ ["", "0x", "0X"], ∃ digits, text = mark.toList ++ digits ∧
    Word.IsNumeral 16 digits ∧ Word.numeralValue 16 digits = value ∧ value < 2 ^ 64

/-- An item is a word alone, or one behind the decimal number of its copies. -/
inductive SpellsItem : List Char → Nat → Nat → Prop
  | alone {word : List Char} {value : Nat} (spelled : SpellsWord word value) :
    SpellsItem word 1 value
  | counted {digits word : List Char} {count value : Nat} (numeral : Word.IsNumeral 10 digits)
    (number : Word.numeralValue 10 digits = count) (small : count < 2 ^ 32)
    (spelled : SpellsWord word value) : SpellsItem (digits ++ '*' :: word) count value

/-- An item with what it says. -/
structure Entry where
  text : List Char
  count : Nat
  value : Nat
  spelled : SpellsItem text count value

def Entry.words (entry : Entry) : List Nat :=
  replicate entry.count entry.value

section Words

theorem lowered_mark {c : Char} :
    (lowerChar c = '0' ↔ c = '0') ∧ (lowerChar c = 'x' ↔ c = 'x' ∨ c = 'X') := by
  rw [Word.lowerChar_eq_iff (by decide) (by decide), Word.lowerChar_eq_iff (by decide) (by decide)]
  by_cases narrow : c.toNat < 0x80
  · exact Word.forall_narrow (P := fun c => (c.toLower = '0' ↔ c = '0') ∧
      (c.toLower = 'x' ↔ c = 'x' ∨ c = 'X')) (by decide +kernel) c narrow
  · have wide : 0x80 ≤ c.toNat := by omega
    have basic : ∀ d ∈ ['0', 'x', 'X'], d.toNat < 0x80 := by decide
    have other : ∀ d ∈ ['0', 'x', 'X'], c ≠ d := by
      rintro d listed rfl
      exact narrow (basic c listed)
    rw [Word.toLower_of_wide wide]
    simp [other]

theorem isNumeral_lowered :
    Word.IsNumeral 16 (text.map lowerChar) ↔ Word.IsNumeral 16 text := by
  constructor
  · intro numeral
    refine ⟨fun empty => numeral.nonempty (by rw [empty]; rfl), fun c member => ?_⟩
    rw [← Word.digitPlace_lowerChar]
    exact numeral.digits _ (mem_map_of_mem member)
  · intro numeral
    refine ⟨by simpa using numeral.nonempty, forall_mem_map.mpr fun c member => ?_⟩
    rw [Word.digitPlace_lowerChar]
    exact numeral.digits c member

theorem numeralValue_lowered (text : List Char) :
    Word.numeralValue 16 (text.map lowerChar) = Word.numeralValue 16 text := by
  have places : Word.digitPlace ∘ lowerChar = Word.digitPlace := funext Word.digitPlace_lowerChar
  rw [Word.numeralValue, map_map, places]
  rfl

theorem dropStart?_lowered {digits : List Char} :
    dropStart? ['0', 'x'] (text.map lowerChar) = some digits ↔
      ∃ mark ∈ ["0x", "0X"], ∃ rest, text = mark.toList ++ rest ∧ rest.map lowerChar = digits := by
  rw [dropStart?_eq_some]
  constructor
  · intro same
    obtain ⟨a, more, rfl, zero, behind⟩ := map_eq_cons_iff.mp same
    obtain ⟨b, rest, rfl, letter, lowered⟩ := map_eq_cons_iff.mp behind
    obtain rfl := lowered_mark.1.mp zero
    obtain rfl | rfl := lowered_mark.2.mp letter
    · exact ⟨"0x", by simp, rest, rfl, lowered⟩
    · exact ⟨"0X", by simp, rest, rfl, lowered⟩
  · rintro ⟨mark, listed, rest, rfl, rfl⟩
    have each : ∀ mark ∈ ["0x", "0X"], mark.toList.map lowerChar = ['0', 'x'] := by decide
    rw [map_append, each mark listed]

theorem readWord?_eq_some_iff {value : Nat} :
    readWord? text = some value ↔ SpellsWord text value := by
  have below : value ≤ Word.modulus - 1 ↔ value < 2 ^ 64 := by
    rw [Word.modulus]
    omega
  have read :
      ∀ digits, Word.readUnsigned? 16 (Word.modulus - 1) (digits.map lowerChar) = some value ↔
      Word.IsNumeral 16 digits ∧ Word.numeralValue 16 digits = value ∧ value < 2 ^ 64 := by
    intro digits
    rw [Word.readUnsigned?_eq_some_iff (by omega), isNumeral_lowered, numeralValue_lowered, below]
  rw [readWord?]
  cases marked : dropStart? ['0', 'x'] (text.map lowerChar) with
  | none =>
    rw [Option.getD_none, read]
    refine ⟨fun spelled => ⟨"", by simp, text, rfl, spelled⟩, ?_⟩
    rintro ⟨mark, listed, digits, rfl, spelled⟩
    obtain rfl | listed := mem_cons.mp listed
    · exact spelled
    · rw [dropStart?_lowered.mpr ⟨mark, listed, digits, rfl, rfl⟩] at marked
      cases marked
  | some lowered =>
    obtain ⟨mark, listed, rest, rfl, rfl⟩ := dropStart?_lowered.mp marked
    rw [Option.getD_some, read]
    refine ⟨fun spelled => ⟨mark, mem_cons_of_mem _ listed, rest, rfl, spelled⟩, ?_⟩
    rintro ⟨other, either, digits, same, spelled⟩
    obtain rfl | either := mem_cons.mp either
    · -- The mark has a letter that is no digit.
      have each :
          ∀ mark ∈ ["0x", "0X"], mark.toList.any (Word.digitPlace · = 16) = true := by decide
      obtain ⟨c, member, letter⟩ := any_eq_true.mp (each mark listed)
      refine absurd (spelled.1.digits c ?_) (by simp_all)
      rw [← show _ = digits from same]
      exact mem_append_left _ member
    · have lengths : ∀ mark ∈ ["0x", "0X"], mark.toList.length = 2 := by decide
      obtain ⟨_, rfl⟩ := append_inj same ((lengths _ listed).trans (lengths _ either).symm)
      exact spelled

end Words

section Items

theorem not_mem_of_numeral {base : Nat} (small : base ≤ 16) {digits : List Char}
    (numeral : Word.IsNumeral base digits) {c : Char} (other : Word.digitPlace c = 16) :
    c ∉ digits := fun member => by
  have digit := numeral.digits c member
  omega

theorem separator_other {c : Char} (mark : separatesWords c = true) :
    Word.digitPlace c = 16 ∧ c ∉ ['x', 'X'] := by
  simp only [separatesWords, Bool.or_eq_true, beq_iff_eq] at mark
  obtain (((rfl | rfl) | rfl) | rfl) | rfl := mark <;> decide

theorem SpellsWord.not_mem {value : Nat} (spelled : SpellsWord text value) {c : Char}
    (other : Word.digitPlace c = 16) (unmarked : c ∉ ['x', 'X']) : c ∉ text := by
  obtain ⟨mark, listed, digits, rfl, numeral, _⟩ := spelled
  have each : ∀ mark ∈ ["", "0x", "0X"], ∀ c ∈ mark.toList,
      c ∈ ['x', 'X'] ∨ Word.digitPlace c ≠ 16 := by decide
  rw [mem_append, not_or]
  exact ⟨fun member => (each mark listed c member).elim unmarked fun digit => digit other,
    not_mem_of_numeral (by omega) numeral other⟩

theorem readItem_eq_ok_iff {item : String} {words : List Nat} :
    readItem key item = .ok words ↔
      ∃ count value, SpellsItem item.toList count value ∧ words = replicate count value := by
  by_cases starred : '*' ∈ item.toList
  · obtain ⟨front, rest, whole, unstarred⟩ := eq_append_cons_of_mem starred
    have split : splitFirst? ['*'] item.toList = some (front, rest) := by
      rw [whole, Scan.splitFirst?_append unstarred]
      simp [splitFirst?, dropStart?]
    have bound : Nat.pow 2 32 = 2 ^ 32 := rfl
    have both : ∀ count value, SpellsItem item.toList count value ↔
        Word.readUnsigned? 10 (Nat.pow 2 32 - 1) front = some count ∧
          readWord? rest = some value := by
      intro count value
      rw [readWord?_eq_some_iff, Word.readUnsigned?_eq_some_iff (by omega), whole, bound]
      constructor
      · intro spelled
        generalize chars : front ++ '*' :: rest = starred at spelled
        cases spelled with
        | alone spelled =>
          exact absurd (by simp) (chars ▸ spelled.not_mem (c := '*') (by decide) (by decide))
        | counted numeral number small spelled =>
          have absent := not_mem_of_numeral (c := '*') (by omega) numeral (by decide)
          obtain ⟨rfl, rfl⟩ := split_unique unstarred absent chars
          exact ⟨⟨numeral, number, by omega⟩, spelled⟩
      · rintro ⟨⟨numeral, number, small⟩, spelled⟩
        exact .counted numeral number (by omega) spelled
    simp only [readItem, split, both]
    cases Word.readUnsigned? 10 (Nat.pow 2 32 - 1) front with
    | none => simp
    | some count =>
      cases readWord? rest with
      | none => simp
      | some value => simp [eq_comm]
  · have split : splitFirst? ['*'] item.toList = none := by
      rw [← append_nil item.toList, Scan.splitFirst?_append starred]
      rfl
    have single : ∀ count value, SpellsItem item.toList count value ↔
        count = 1 ∧ readWord? item.toList = some value := by
      intro count value
      rw [readWord?_eq_some_iff]
      generalize item.toList = chars at starred ⊢
      constructor
      · intro spelled
        cases spelled with
        | alone spelled => exact ⟨rfl, spelled⟩
        | counted => exact absurd (by simp) starred
      · rintro ⟨rfl, spelled⟩
        exact .alone spelled
    simp only [readItem, split, single]
    cases readWord? item.toList with
    | none => simp
    | some value => simp [eq_comm]

theorem readItems_of_spelled (entries : List Entry) :
    readItems key (entries.map fun entry => String.ofList entry.text) =
      .ok (entries.flatMap Entry.words) := by
  induction entries with
  | nil => rfl
  | cons entry entries ih =>
    have first : readItem key (String.ofList entry.text) = .ok entry.words :=
      readItem_eq_ok_iff.mpr ⟨_, _, String.toList_ofList ▸ entry.spelled, rfl⟩
    rw [map_cons, readItems, first, ih]
    rfl

theorem readItems_of_misspelled {items : List String} {item : String} (listed : item ∈ items)
    (misspelled : ∀ count value, ¬SpellsItem item.toList count value) :
    ∃ failure, readItems key items = .error failure := by
  induction items with
  | nil => cases listed
  | cons first items ih =>
    cases read : readItem key first with
    | error failure => exact ⟨failure, by rw [readItems, read]⟩
    | ok words =>
      obtain rfl | listed := mem_cons.mp listed
      · obtain ⟨count, value, spelled, _⟩ := readItem_eq_ok_iff.mp read
        exact absurd spelled (misspelled count value)
      · obtain ⟨failure, refused⟩ := ih listed
        exact ⟨failure, by rw [readItems, read, refused]; rfl⟩

end Items

section Pieces

/-- What separators are written between: no separator, and at least one other character. -/
structure IsSolid (item : List Char) : Prop where
  nonempty : item ≠ []
  unseparated : ∀ c ∈ item, separatesWords c = false

/-- Items in a row, with separators between any two of them and perhaps at the ends. -/
inductive Joined : List (List Char) → List Char → Prop
  | blank {gap : List Char} (gaps : ∀ c ∈ gap, separatesWords c = true) : Joined [] gap
  | last {lead item trail : List Char} (gaps : ∀ c ∈ lead ++ trail, separatesWords c = true) :
    Joined [item] (lead ++ item ++ trail)
  | more {lead item gap text : List Char} {items : List (List Char)}
    (gaps : ∀ c ∈ lead ++ gap, separatesWords c = true) (apart : gap ≠ [])
    (joined : Joined items text) : Joined (item :: items) (lead ++ item ++ gap ++ text)

/-- An item that stands in a text between separators or an end of the text. -/
def StandsIn (item text : List Char) : Prop :=
  IsSolid item ∧ ∃ front back, text = front ++ item ++ back ∧
    (∀ c ∈ front.getLast?, separatesWords c = true) ∧ ∀ c ∈ back.head?, separatesWords c = true

def pieces (text : List Char) : List (List Char) :=
  (splitList separatesWords text).filter (!·.isEmpty)

theorem pieces_append {c : Char} (mark : separatesWords c = true) (front text : List Char) :
    pieces (front ++ c :: text) = pieces front ++ pieces text := by
  rw [pieces, splitList_append mark, filter_append]
  rfl

theorem pieces_gap {gap : List Char} (gaps : ∀ c ∈ gap, separatesWords c = true)
    (text : List Char) : pieces (gap ++ text) = pieces text := by
  induction gap with
  | nil => rfl
  | cons c gap ih =>
    obtain ⟨mark, gaps⟩ := forall_mem_cons.mp gaps
    rw [← ih gaps]
    exact pieces_append mark [] (gap ++ text)

theorem pieces_of_blank {gap : List Char} (gaps : ∀ c ∈ gap, separatesWords c = true) :
    pieces gap = [] := by
  rw [← append_nil gap, pieces_gap gaps]
  rfl

theorem IsSolid.pieces_eq (solid : IsSolid item) : pieces item = [item] := by
  rw [pieces, splitList_of_free solid.unseparated]
  simp [solid.nonempty]

theorem IsSolid.pieces_append (solid : IsSolid item) {c : Char} (mark : separatesWords c = true)
    (back : List Char) : pieces (item ++ c :: back) = item :: pieces back := by
  rw [Attributes.pieces_append mark, solid.pieces_eq]
  rfl

theorem Joined.pieces_eq (joined : Joined items text) (solid : ∀ item ∈ items, IsSolid item) :
    pieces text = items := by
  induction joined with
  | blank gaps => exact pieces_of_blank gaps
  | last gaps =>
    rename_i lead item trail
    obtain ⟨leading, trailing⟩ := forall_mem_append.mp gaps
    have whole := solid item (mem_singleton_self item)
    rw [append_assoc, pieces_gap leading]
    cases trail with
    | nil => rw [append_nil, whole.pieces_eq]
    | cons c trail =>
      obtain ⟨mark, trailing⟩ := forall_mem_cons.mp trailing
      rw [whole.pieces_append mark, pieces_of_blank trailing]
  | more gaps apart _ ih =>
    rename_i lead item gap text items
    obtain ⟨leading, between⟩ := forall_mem_append.mp gaps
    obtain ⟨whole, solid⟩ := forall_mem_cons.mp solid
    obtain ⟨c, gap, rfl⟩ := exists_cons_of_ne_nil apart
    obtain ⟨mark, between⟩ := forall_mem_cons.mp between
    rw [append_assoc, append_assoc, cons_append, pieces_gap leading, whole.pieces_append mark,
      pieces_gap between, ih solid]

theorem StandsIn.mem_pieces (stands : StandsIn item text) : item ∈ pieces text := by
  obtain ⟨solid, front, back, rfl, before, behind⟩ := stands
  have start : item ∈ pieces (item ++ back) := by
    cases back with
    | nil => rw [append_nil, solid.pieces_eq]; exact mem_singleton_self item
    | cons c back => rw [solid.pieces_append (behind c rfl)]; exact mem_cons_self ..
  rw [append_assoc]
  cases front using List.reverseRecOn with
  | nil => exact start
  | append_singleton front c =>
    rw [append_assoc, singleton_append, pieces_append (before c getLast?_concat)]
    exact mem_append_right _ start

theorem SpellsItem.solid {count value : Nat} (spelled : SpellsItem item count value) :
    IsSolid item := by
  have word : ∀ {text value}, SpellsWord text value → IsSolid text := by
    intro text value spelled
    refine ⟨?_, fun c member => ?_⟩
    · obtain ⟨mark, _, digits, rfl, numeral, _⟩ := spelled
      simp [numeral.nonempty]
    · rw [← Bool.not_eq_true]
      intro mark
      exact spelled.not_mem (separator_other mark).1 (separator_other mark).2 member
  cases spelled with
  | alone spelled => exact word spelled
  | counted numeral _ _ spelled =>
    refine ⟨by simp, ?_⟩
    rw [forall_mem_append, forall_mem_cons]
    refine ⟨fun c member => ?_, by decide, (word spelled).unseparated⟩
    rw [← Bool.not_eq_true]
    exact fun mark => not_mem_of_numeral (by omega) numeral (separator_other mark).1 member

end Pieces

/-- **Memory contents.** A list of words that are joined by separators, each behind the number of
its copies or alone, is read as these words in their order, each as often as it says; and a text
with an item between separators that is not written so is refused. -/
theorem contents_parse_back {attributes : Attributes} {key text : String}
    (found : attributes.find? key = some text) :
    (∀ entries : List Entry, Joined (entries.map (·.text)) text.toList →
      attributes.words key = .ok (entries.flatMap Entry.words)) ∧
    ∀ item, StandsIn item text.toList → (∀ count value, ¬SpellsItem item count value) →
      ∃ failure, attributes.words key = .error failure := by
  have read : attributes.words key =
      readItems key ((pieces text.toList).map String.ofList) := by
    rw [words, found]
    rfl
  rw [read]
  refine ⟨fun entries joined => ?_, fun item stands misspelled => ?_⟩
  · have solid : ∀ item ∈ entries.map (·.text), IsSolid item :=
      forall_mem_map.mpr fun entry _ => entry.spelled.solid
    rw [joined.pieces_eq solid, map_map]
    exact readItems_of_spelled entries
  · refine readItems_of_misspelled (mem_map_of_mem stands.mem_pieces) ?_
    rwa [String.toList_ofList]

/-- Copies and single words are read, and an item with two stars is not. -/
theorem contents_parse_back_copies :
    words [("contents", ", 3*0XfF\t\n0,")] "contents" = .ok [255, 255, 255, 0] ∧
    ∃ failure, words [("contents", "1 2*3*4")] "contents" = .error failure := by
  refine ⟨?_, ?_⟩
  · have filled : SpellsWord "0XfF".toList 255 :=
      ⟨"0X", by simp, "fF".toList, by decide, ⟨by decide, by decide⟩, by decide, by decide⟩
    have zero : SpellsWord "0".toList 0 :=
      ⟨"", by simp, "0".toList, by decide, ⟨by decide, by decide⟩, by decide, by decide⟩
    have copies : SpellsItem (['3'] ++ '*' :: "0XfF".toList) 3 255 :=
      .counted ⟨by decide, by decide⟩ (by decide) (by decide) filled
    have joined : Joined [['3'] ++ '*' :: "0XfF".toList, "0".toList] ", 3*0XfF\t\n0,".toList :=
      @Joined.more [',', ' '] _ ['\t', '\n'] _ _ (by decide) (by decide)
        (@Joined.last [] _ [','] (by decide))
    exact (contents_parse_back rfl).1 [⟨_, _, _, copies⟩, ⟨_, _, _, .alone zero⟩] joined
  · refine (contents_parse_back rfl).2 "2*3*4".toList
      ⟨⟨by decide, by decide⟩, "1 ".toList, [], by decide⟩ fun count value spelled => ?_
    have read : readItem "contents" "2*3*4" = .ok (replicate count value) :=
      readItem_eq_ok_iff.mpr ⟨count, value, spelled, rfl⟩
    cases read

end Schematic.Attributes
