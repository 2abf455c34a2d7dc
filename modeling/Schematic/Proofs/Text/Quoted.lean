import Mathlib.Algebra.Group.Nat.Defs
import Schematic.Text.Quoted

/-! # Quoted texts can be read back -/

open List

namespace Schematic.Text

variable {α : Type} {n width : Nat} {c d : Char} {first second : List Char}

theorem split_of_not_mem {start rest before behind : List α} {mark : α}
    (absent : mark ∉ start) (same : start ++ rest = before ++ mark :: behind) :
    ∃ between, before = start ++ between ∧ rest = between ++ mark :: behind := by
  obtain ⟨between, longer, tail⟩ | ⟨between, shorter, tail⟩ := append_eq_append_iff.mp same
  · exact ⟨between, longer, tail⟩
  · cases between with
    | nil =>
      rw [append_nil] at shorter
      exact ⟨[], by rw [shorter, append_nil], by simpa using tail.symm⟩
    | cons first between =>
      rw [cons_append, List.cons.injEq] at tail
      exact absurd (by rw [shorter, tail.1]; simp) absent

theorem split_unique {first second firstRest secondRest : List α} {mark : α}
    (firstFree : mark ∉ first) (secondFree : mark ∉ second)
    (same : first ++ mark :: firstRest = second ++ mark :: secondRest) :
    first = second ∧ firstRest = secondRest := by
  obtain ⟨between, longer, tail⟩ := split_of_not_mem firstFree same
  cases between with
  | nil =>
    rw [append_nil] at longer
    exact ⟨longer.symm, by simpa using tail⟩
  | cons next between =>
    rw [cons_append, List.cons.injEq] at tail
    exact absurd (by rw [longer, ← tail.1]; simp) secondFree

def hexValue (c : Char) : Nat :=
  if c.isDigit then c.toNat - '0'.toNat else c.toNat - 'a'.toNat + 10

def ofHexDigits (digits : List Char) : Nat :=
  digits.foldl (fun number c => 16 * number + hexValue c) 0

theorem hexValue_digitChar (small : n < 16) : hexValue (Nat.digitChar n) = n := by
  have all : ∀ n < 16, hexValue (Nat.digitChar n) = n := by decide
  exact all n small

theorem isAlphanum_digitChar (small : n < 16) : (Nat.digitChar n).isAlphanum = true := by
  have all : ∀ n < 16, (Nat.digitChar n).isAlphanum = true := by decide
  exact all n small

theorem ofHexDigits_toDigits (n : Nat) : ofHexDigits (Nat.toDigits 16 n) = n := by
  induction n using Nat.strongRecOn with
  | ind n ih =>
    rw [Nat.toDigits_eq_if (by omega)]
    split
    case isTrue small => simp [ofHexDigits, hexValue_digitChar small]
    case isFalse large =>
      have high := ih (n / 16) (by omega)
      simp only [ofHexDigits] at high
      simp only [ofHexDigits, foldl_append, high, foldl_cons, foldl_nil,
        hexValue_digitChar (Nat.mod_lt n (by omega : 0 < 16))]
      omega

theorem isAlphanum_of_mem_toDigits (member : c ∈ Nat.toDigits 16 n) : c.isAlphanum = true := by
  induction n using Nat.strongRecOn with
  | ind n ih =>
    rw [Nat.toDigits_eq_if (by omega)] at member
    split at member
    case isTrue small =>
      rw [mem_singleton.mp member]
      exact isAlphanum_digitChar small
    case isFalse large =>
      obtain member | member := mem_append.mp member
      · exact ih (n / 16) (by omega) member
      · rw [mem_singleton.mp member]
        exact isAlphanum_digitChar (Nat.mod_lt n (by omega))

theorem ofHexDigits_hexDigits (width n : Nat) : ofHexDigits (hexDigits width n) = n := by
  have zeros : ∀ count, (List.replicate count '0').foldl
      (fun number c => 16 * number + hexValue c) 0 = 0 := by
    intro count
    induction count with
    | zero => rfl
    | succ count ih => simpa [replicate_succ, hexValue] using ih
  have digits := ofHexDigits_toDigits n
  simp only [ofHexDigits] at digits
  simp only [hexDigits, ofHexDigits, foldl_append, zeros, digits]

theorem length_hexDigits (positive : 0 < width) (small : n < 16 ^ width) :
    (hexDigits width n).length = width := by
  have atMost := (Nat.length_toDigits_le_iff (by omega : 1 < 16) positive).mpr small
  simp only [hexDigits, length_append, length_replicate]
  omega

theorem isAlphanum_of_mem_hexDigits (member : c ∈ hexDigits width n) : c.isAlphanum = true := by
  obtain member | member := mem_append.mp member
  · rw [eq_of_mem_replicate member]
    rfl
  · exact isAlphanum_of_mem_toDigits member

def escapeDigits : Char → Nat
  | 'x' => 2
  | 'u' => 4
  | 'U' => 8
  | _ => 0

def unescape (tag : Char) (digits : List Char) : Char :=
  match tag with
  | 'a' => Char.ofNat 7
  | 'b' => Char.ofNat 8
  | 't' => Char.ofNat 9
  | 'n' => Char.ofNat 10
  | 'v' => Char.ofNat 11
  | 'f' => Char.ofNat 12
  | 'r' => Char.ofNat 13
  | 'x' => Char.ofNat (ofHexDigits digits)
  | 'u' => Char.ofNat (ofHexDigits digits)
  | 'U' => Char.ofNat (ofHexDigits digits)
  | other => other

theorem quoteChar_cases (c : Char) : (c ≠ '"' ∧ c ≠ '\\' ∧ quoteChar c = [c]) ∨
      ∃ tag digits, quoteChar c = '\\' :: tag :: digits ∧
        digits.length = escapeDigits tag ∧ unescape tag digits = c := by
  have numbered : ∀ tag digits, (tag = 'x' ∨ tag = 'u' ∨ tag = 'U') →
      ofHexDigits digits = c.toNat → unescape tag digits = c := by
    rintro tag digits (rfl | rfl | rfl) value <;> simp [unescape, value]
  have bounded : c.toNat < 16 ^ 8 := c.val.toNat_lt
  by_cases quote : c = '"'
  · subst quote
    exact .inr ⟨'"', [], rfl, rfl, rfl⟩
  by_cases backslash : c = '\\'
  · subst backslash
    exact .inr ⟨'\\', [], rfl, rfl, rfl⟩
  simp only [quoteChar, beq_iff_eq, quote, backslash, ↓reduceIte, ne_eq, not_false_eq_true,
    true_and]
  by_cases printable : isPrintable c = true
  · exact .inl (by rw [if_pos printable])
  rw [if_neg printable]
  right
  have named : ∀ code, c.toNat = code → Char.ofNat code = c := by
    rintro _ rfl
    exact c.ofNat_toNat
  split
  case h_1 code => exact ⟨'a', [], rfl, rfl, named 7 code⟩
  case h_2 code => exact ⟨'b', [], rfl, rfl, named 8 code⟩
  case h_3 code => exact ⟨'t', [], rfl, rfl, named 9 code⟩
  case h_4 code => exact ⟨'n', [], rfl, rfl, named 10 code⟩
  case h_5 code => exact ⟨'v', [], rfl, rfl, named 11 code⟩
  case h_6 code => exact ⟨'f', [], rfl, rfl, named 12 code⟩
  case h_7 code => exact ⟨'r', [], rfl, rfl, named 13 code⟩
  case h_8 =>
    split
    case isTrue small =>
      exact ⟨'x', _, rfl, length_hexDigits (by omega) (by omega),
        numbered _ _ (.inl rfl) (ofHexDigits_hexDigits 2 _)⟩
    case isFalse =>
      split
      case isTrue small =>
        exact ⟨'u', _, rfl, length_hexDigits (by omega) (by omega),
          numbered _ _ (.inr (.inl rfl)) (ofHexDigits_hexDigits 4 _)⟩
      case isFalse =>
        exact ⟨'U', _, rfl, length_hexDigits (by omega) bounded,
          numbered _ _ (.inr (.inr rfl)) (ofHexDigits_hexDigits 8 _)⟩

theorem quoteChar_append_inj
    (same : quoteChar c ++ first = quoteChar d ++ second) : c = d ∧ first = second := by
  obtain ⟨_, noBackslash, plain⟩ | ⟨tag, digits, escaped, count, value⟩ := quoteChar_cases c
  · obtain ⟨_, _, otherPlain⟩ | ⟨otherTag, otherDigits, otherEscaped, _⟩ := quoteChar_cases d
    · rw [plain, otherPlain] at same
      simpa using same
    · rw [plain, otherEscaped] at same
      exact absurd (List.cons.inj same).1 noBackslash
  · obtain ⟨_, noBackslash, otherPlain⟩ |
      ⟨otherTag, otherDigits, otherEscaped, otherCount, otherValue⟩ := quoteChar_cases d
    · rw [escaped, otherPlain] at same
      exact absurd (List.cons.inj same).1.symm noBackslash
    · rw [escaped, otherEscaped] at same
      simp only [cons_append, List.cons.injEq, true_and] at same
      obtain ⟨sameTag, tails⟩ := same
      have lengths : digits.length = otherDigits.length := by rw [count, otherCount, sameTag]
      obtain ⟨sameDigits, rests⟩ := append_inj tails lengths
      exact ⟨by rw [← value, ← otherValue, sameTag, sameDigits], rests⟩

theorem mem_quoteChar (member : d ∈ quoteChar c) : d = c ∨ d = '\\' ∨ d.isAlphanum = true := by
  have behind : ∀ c : Char, d ∈ ['\\', c] → d = c ∨ d = '\\' ∨ d.isAlphanum = true := by
    intro c member
    obtain rfl | member := mem_cons.mp member
    · exact .inr (.inl rfl)
    · exact .inl (mem_singleton.mp member)
  by_cases quote : c = '"'
  · subst quote
    exact behind _ member
  by_cases backslash : c = '\\'
  · subst backslash
    exact behind _ member
  simp only [quoteChar, beq_iff_eq, quote, backslash, ↓reduceIte] at member
  split at member
  · exact .inl (mem_singleton.mp member)
  have letter : ∀ letter : Char, letter.isAlphanum = true → d ∈ ['\\', letter] →
      d = '\\' ∨ d.isAlphanum = true := by
    intro letter alphanumeric member
    obtain rfl | member := mem_cons.mp member
    · exact .inl rfl
    · rw [mem_singleton.mp member]
      exact .inr alphanumeric
  have number : ∀ letter : Char, letter.isAlphanum = true → ∀ width code,
      d ∈ '\\' :: letter :: hexDigits width code → d = '\\' ∨ d.isAlphanum = true := by
    intro letter alphanumeric width code member
    obtain rfl | member := mem_cons.mp member
    · exact .inl rfl
    obtain rfl | member := mem_cons.mp member
    · exact .inr alphanumeric
    · exact .inr (isAlphanum_of_mem_hexDigits member)
  right
  split at member
  case h_8 =>
    split at member
    · exact number 'x' rfl _ _ member
    split at member
    · exact number 'u' rfl _ _ member
    · exact number 'U' rfl _ _ member
  all_goals exact letter _ rfl member

theorem not_mem_quoteChar {mark : Char} (other : mark ≠ c) (plain : mark ≠ '\\')
    (sign : mark.isAlphanum = false) : mark ∉ quoteChar c := by
  intro member
  obtain same | backslash | letter := mem_quoteChar member
  · exact other same
  · exact plain backslash
  · rw [sign] at letter
    cases letter

/-- What stands between the quotes. -/
def escaped (text : List Char) : List Char :=
  text.flatMap quoteChar

theorem escaped_cons (c : Char) (text : List Char) :
    escaped (c :: text) = quoteChar c ++ escaped text :=
  flatMap_cons ..

theorem toList_quote (text : String) :
    (quote text).toList = '"' :: (escaped text.toList ++ ['"']) := by
  simp only [quote, String.toList_ofList, escaped, cons_append]

theorem quoteChar_append_ne (c : Char) (first second : List Char) :
    quoteChar c ++ first ≠ '"' :: second := by
  intro same
  obtain ⟨noQuote, _, plain⟩ | ⟨tag, digits, escape, _⟩ := quoteChar_cases c
  · rw [plain] at same
    exact noQuote (List.cons.inj same).1
  · rw [escape] at same
    cases same

theorem escaped_append_inj {firstRest secondRest : List Char}
    (same : escaped first ++ '"' :: firstRest = escaped second ++ '"' :: secondRest) :
    first = second ∧ firstRest = secondRest := by
  induction first generalizing second with
  | nil =>
    cases second with
    | nil => exact ⟨rfl, (List.cons.inj same).2⟩
    | cons d second =>
      rw [escaped_cons, append_assoc] at same
      exact absurd same.symm (quoteChar_append_ne _ _ _)
  | cons c first ih =>
    rw [escaped_cons, append_assoc] at same
    cases second with
    | nil => exact absurd same (quoteChar_append_ne _ _ _)
    | cons d second =>
      rw [escaped_cons, append_assoc] at same
      obtain ⟨heads, tails⟩ := quoteChar_append_inj same
      obtain ⟨texts, rests⟩ := ih tails
      exact ⟨by rw [heads, texts], rests⟩

theorem escaped_of_first_quote {text before rest behind : List Char} (absent : '"' ∉ before)
    (unescaped : before.getLast? ≠ some '\\')
    (same : escaped text ++ '"' :: rest = before ++ '"' :: behind) :
    escaped text = before ∧ rest = behind := by
  induction text generalizing before with
  | nil => exact split_unique not_mem_nil absent same
  | cons c text ih =>
    rw [escaped_cons, append_assoc] at same
    by_cases quote : c = '"'
    · -- The quote inside the text is the first one, but a backslash stands before it.
      subst quote
      have escape : quoteChar '"' = ['\\'] ++ ['"'] := rfl
      rw [escape, append_assoc] at same
      have ends := (split_unique (by decide) absent same).1
      rw [← ends] at unescaped
      exact absurd rfl unescaped
    · have apart : '"' ∉ quoteChar c := not_mem_quoteChar (Ne.symm quote) (by decide) rfl
      obtain ⟨between, rfl, tail⟩ := split_of_not_mem apart same
      have later : between.getLast? ≠ some '\\' := by
        intro last
        rw [List.getLast?_append, last] at unescaped
        exact unescaped rfl
      obtain ⟨texts, rests⟩ :=
        ih (fun member => absent (mem_append_right _ member)) later tail
      exact ⟨by rw [escaped_cons, texts], rests⟩

end Schematic.Text
