import Schematic.Proofs.Scan.Line
import Schematic.Proofs.Text.Positional
import Schematic.Scan.Vhdl

/-! # Ranges and their widths -/

open List

namespace Schematic.Scan

open Text Word

variable {text rest : List Char} {c : Char}

/-- The bounds of a range, in decimal digits. -/
structure Bounds where
  left : List Char
  right : List Char
  leftNumeral : IsNumeral 10 left
  rightNumeral : IsNumeral 10 right

namespace Bounds

def low (bounds : Bounds) : Nat :=
  min (numeralValue 10 bounds.left) (numeralValue 10 bounds.right)

def high (bounds : Bounds) : Nat :=
  max (numeralValue 10 bounds.left) (numeralValue 10 bounds.right)

theorem low_le_high (bounds : Bounds) : bounds.low ≤ bounds.high := by
  rw [low, high]
  omega

/-- A range from zero that has more places than a word can count. -/
def Overflows (bounds : Bounds) : Prop :=
  bounds.low = 0 ∧ greatest ≤ bounds.high

instance (bounds : Bounds) : Decidable bounds.Overflows :=
  inferInstanceAs (Decidable (_ ∧ _))

/-- The places between two bounds, where a bound above the greatest word counts as that word. -/
def places (bounds : Bounds) : Int :=
  if bounds.Overflows then least
  else min (bounds.high : Int) greatest - min (bounds.low : Int) greatest + 1

/-- The places between two bounds, and none if a word cannot count them. -/
def count (bounds : Bounds) : Int :=
  if (bounds.high : Int) - bounds.low + 1 ≤ greatest then bounds.high - bounds.low + 1 else 0

theorem places_eq_count_iff (bounds : Bounds) : bounds.places = bounds.count ↔
    bounds.low = bounds.high ∨ (bounds.high : Int) ≤ greatest ∧ ¬bounds.Overflows := by
  have order := bounds.low_le_high
  by_cases wide : bounds.Overflows
  · have apart : ¬(bounds.high : Int) - bounds.low + 1 ≤ greatest ∧ bounds.low ≠ bounds.high := by
      simp only [Overflows, greatest] at wide ⊢
      omega
    rw [places, count, if_pos wide, if_neg apart.1]
    exact iff_of_false (by decide) (by simp [wide, apart.2])
  · rw [places, count, if_neg wide, and_iff_left wide]
    by_cases counted : (bounds.high : Int) - bounds.low + 1 ≤ greatest
    · rw [if_pos counted]
      simp only [Overflows, greatest] at wide counted ⊢
      omega
    · rw [if_neg counted]
      simp only [Overflows, greatest] at wide counted ⊢
      omega

end Bounds

/-- A range in parentheses, its direction in either case. -/
inductive VectorRange (bounds : Bounds) : List Char → Prop
  | spelled {opening before word behind closing : List Char}
    (gaps : ∀ c ∈ opening ++ before ++ behind ++ closing, isGap c = true)
    (apart : before ≠ [] ∧ behind ≠ [])
    (direction : word.map Char.toLower ∈ ["downto".toList, "to".toList]) :
    VectorRange bounds ('(' :: (opening ++ (bounds.left ++ (before ++ (word ++
      (behind ++ (bounds.right ++ (closing ++ [')']))))))))

/-- The text begins with a range in parentheses. -/
def Begins (bounds : Bounds) (text : List Char) : Prop :=
  ∃ range rest, text = range ++ rest ∧ VectorRange bounds range

/-- A text has a range in parentheses, and no other begins before it. -/
def HasVector (bounds : Bounds) (text : List Char) : Prop :=
  ∃ front rest, text = front ++ rest ∧ Begins bounds rest ∧
    ∀ behind, behind <:+ front → behind ≠ [] → ∀ other, ¬Begins other (behind ++ rest)

/-- A range in brackets, with blanks anywhere between its signs. -/
inductive BracketRange (bounds : Bounds) : List Char → Prop
  | spelled {opening before behind closing : List Char}
    (gaps : ∀ c ∈ opening ++ before ++ behind ++ closing, isGap c = true) :
    BracketRange bounds ('[' :: (opening ++ (bounds.left ++ (before ++ (':' ::
      (behind ++ (bounds.right ++ (closing ++ [']']))))))))

/-- A text is a range in brackets, with nothing but blanks around it. -/
def IsBracketed (bounds : Bounds) (text : List Char) : Prop :=
  ∃ lead range trail, (∀ c ∈ lead ++ trail, isBlank c = true) ∧ text = lead ++ (range ++ trail) ∧
    BracketRange bounds range

section Span

theorem saturated_eq {digits : List Char} (numeral : IsNumeral 10 digits) :
    saturated digits = min (numeralValue 10 digits : Int) greatest := by
  rw [saturated, (digitsValue?_eq_some_iff (by omega)).mpr ⟨numeral.digits, rfl⟩]

theorem spanWidth_eq (bounds : Bounds) :
    spanWidth (saturated bounds.left) (saturated bounds.right) = bounds.places := by
  rw [saturated_eq bounds.leftNumeral, saturated_eq bounds.rightNumeral, spanWidth, Bounds.places]
  have order := bounds.low_le_high
  have span : max (min (numeralValue 10 bounds.left : Int) greatest)
        (min (numeralValue 10 bounds.right : Int) greatest) -
      min (min (numeralValue 10 bounds.left : Int) greatest)
        (min (numeralValue 10 bounds.right : Int) greatest) =
      min (bounds.high : Int) greatest - min (bounds.low : Int) greatest := by
    rw [Bounds.low, Bounds.high]
    omega
  rw [span]
  split
  case isTrue wide =>
    obtain ⟨zero, above⟩ := wide
    rw [zero, Int.min_eq_right above]
    decide
  case isFalse narrow =>
    refine wrap_of_fits (fits_iff.mpr ?_)
    rw [Bounds.Overflows] at narrow
    simp only [least, greatest] at narrow ⊢
    omega

theorem places_neg_iff (bounds : Bounds) : bounds.places < 0 ↔ bounds.Overflows := by
  have order := bounds.low_le_high
  rw [Bounds.places]
  split
  case isTrue wide => exact iff_of_true (by decide) wide
  case isFalse narrow =>
    refine iff_of_false ?_ narrow
    omega

theorem neg_iff_overflows {width : Int} {Ranged : Bounds → Prop}
    (ranged : ∀ bounds, Ranged bounds → width = bounds.places)
    (other : (∀ bounds, ¬Ranged bounds) → 0 ≤ width) :
    width < 0 ↔ ∃ bounds, Ranged bounds ∧ bounds.Overflows := by
  constructor
  · intro negative
    have found : ∃ bounds, Ranged bounds := by
      by_contra missing
      exact absurd (other (not_exists.mp missing)) (by omega)
    obtain ⟨bounds, found⟩ := found
    rw [ranged bounds found, places_neg_iff] at negative
    exact ⟨bounds, found, negative⟩
  · rintro ⟨bounds, found, wide⟩
    rw [ranged bounds found]
    exact (places_neg_iff bounds).mpr wide

end Span

section Readers

theorem dropEndWhile_eq {p : Char → Bool} (last : ∀ c ∈ text.getLast?, p c = false) :
    dropEndWhile p text = text := by
  cases text using List.reverseRecOn with
  | nil => rfl
  | append_singleton text c =>
    have kept : p c = false := last c List.getLast?_concat
    rw [dropEndWhile, reverse_concat, dropWhile_cons_of_neg (by simp [kept]),
      reverse_cons, reverse_reverse]

theorem dropWhile_eq {p : Char → Bool} (first : ∀ c ∈ text.head?, p c = false) :
    text.dropWhile p = text := by
  cases text with
  | nil => rfl
  | cons c text => exact dropWhile_cons_of_neg (by simp [first c rfl])

/-- What the readers ask of a character, for each of the basic ones. -/
theorem basic_char (narrow : c.toNat < 0x80) :
    (isDigit c = true ↔ digitPlace c < 10) ∧ isGap c.toLower = isGap c ∧
    c.toLower.toLower = c.toLower ∧ (c.toLower ∈ ['d', 't'] → isGap c = false) ∧
    (c.toLower = '(' ↔ c = '(') ∧ (c.toLower = ')' ↔ c = ')') :=
  forall_narrow (P := fun c => (isDigit c = true ↔ digitPlace c < 10) ∧ isGap c.toLower = isGap c ∧
    c.toLower.toLower = c.toLower ∧ (c.toLower ∈ ['d', 't'] → isGap c = false) ∧
    (c.toLower = '(' ↔ c = '(') ∧ (c.toLower = ')' ↔ c = ')')) (by decide +kernel) c narrow

theorem isDigit_iff : isDigit c = true ↔ digitPlace c < 10 := by
  by_cases narrow : c.toNat < 0x80
  · exact (basic_char narrow).1
  · have wide : 0x80 ≤ c.toNat := by omega
    have above : ¬c ≤ '9' := fun below => by
      have order : c.toNat ≤ '9'.toNat := below
      have nine : '9'.toNat < 0x80 := by decide
      omega
    rw [digitPlace_of_wide wide]
    simp [isDigit, above]

theorem not_gap_of_digit (digit : isDigit c = true) : isGap c = false := by
  refine not_gap_of_word (isFoldedWordChar_of_isWordChar ?_)
  rw [isDigit] at digit
  simp [isWordChar, digit]

theorem mark?_eq_some_iff : mark? c text = some rest ↔ text = c :: rest := by
  cases text with
  | nil => simp [mark?]
  | cons d text =>
    by_cases same : c = d
    · simp [mark?, same]
    · simp [mark?, same, Ne.symm same]

theorem exists_skipGap (text : List Char) :
    ∃ gaps, (∀ c ∈ gaps, isGap c = true) ∧ text = gaps ++ skipGap text :=
  ⟨text.takeWhile isGap, fun _ => mem_takeWhile_imp, takeWhile_append_dropWhile.symm⟩

theorem skipGap_gaps {gaps : List Char} (blank : ∀ c ∈ gaps, isGap c = true)
    (solid : ∀ c ∈ text.head?, isGap c = false) : skipGap (gaps ++ text) = text := by
  rw [skipGap_append blank]
  exact dropWhile_eq solid

theorem run?_eq_some {p : Char → Bool} {found : List Char}
    (read : run? p text = some (found, rest)) :
    found ≠ [] ∧ (∀ c ∈ found, p c = true) ∧ text = found ++ rest := by
  rw [run?] at read
  split at read
  case h_1 => cases read
  case h_2 nonempty =>
    cases read
    exact ⟨nonempty, fun _ => mem_takeWhile_imp, takeWhile_append_dropWhile.symm⟩

theorem gap?_eq_some (read : gap? text = some rest) :
    ∃ gaps, gaps ≠ [] ∧ (∀ c ∈ gaps, isGap c = true) ∧ text = gaps ++ rest := by
  cases text with
  | nil => cases read
  | cons c text =>
    rw [gap?] at read
    split at read
    case isTrue gap =>
      cases read
      obtain ⟨gaps, blank, whole⟩ := exists_skipGap text
      exact ⟨c :: gaps, cons_ne_nil _ _,
        forall_mem_cons.mpr ⟨gap, blank⟩, by rw [cons_append, ← whole]⟩
    case isFalse => cases read

theorem gap?_gaps {gaps : List Char} (nonempty : gaps ≠ []) (blank : ∀ c ∈ gaps, isGap c = true)
    (solid : ∀ c ∈ text.head?, isGap c = false) : gap? (gaps ++ text) = some text := by
  obtain ⟨c, gaps, rfl⟩ := exists_cons_of_ne_nil nonempty
  obtain ⟨gap, blank⟩ := forall_mem_cons.mp blank
  rw [cons_append, gap?, if_pos gap, skipGap_gaps blank solid]

theorem numeral_of_run? {digits : List Char} (read : run? isDigit text = some (digits, rest)) :
    IsNumeral 10 digits ∧ text = digits ++ rest := by
  obtain ⟨nonempty, all, whole⟩ := run?_eq_some read
  exact ⟨⟨nonempty, fun c member => isDigit_iff.mp (all c member)⟩, whole⟩

theorem run?_digits {digits : List Char} (numeral : IsNumeral 10 digits)
    (ends : ∀ c ∈ rest.head?, isDigit c = false) :
    run? isDigit (digits ++ rest) = some (digits, rest) :=
  run?_append numeral.nonempty (fun c member => isDigit_iff.mpr (numeral.digits c member)) ends

theorem head?_digits {digits : List Char} (numeral : IsNumeral 10 digits) (rest : List Char) :
    ∀ c ∈ (digits ++ rest).head?, isGap c = false := by
  intro c first
  rw [head?_append_of_ne_nil _ numeral.nonempty] at first
  exact not_gap_of_digit (isDigit_iff.mpr (numeral.digits c (mem_of_mem_head? first)))

end Readers

section Vectors

theorem firstAlong?_append {α : Type} {reader : List Char → Option α} {front rest : List Char}
    (skips : ∀ behind, behind <:+ front → behind ≠ [] → reader (behind ++ rest) = none) :
    firstAlong? reader (front ++ rest) = firstAlong? reader rest := by
  induction front with
  | nil => rfl
  | cons c front ih =>
    have here := skips (c :: front) (suffix_refl _) (cons_ne_nil _ _)
    rw [cons_append] at here
    rw [cons_append, firstAlong?, here,
      ih fun behind inside => skips behind (inside.trans (suffix_cons ..))]
    rfl

theorem vectorBounds?_of_ne {c : Char} (other : c ≠ '(') (text : List Char) :
    vectorBounds? (c :: text) = none := by
  simp [vectorBounds?, mark?, Ne.symm other]

theorem skips_vector {front : List Char} (plain : '(' ∉ front) (rest : List Char) :
    firstAlong? vectorBounds? (front ++ rest) = firstAlong? vectorBounds? rest := by
  refine firstAlong?_append fun behind inside nonempty => ?_
  cases behind with
  | nil => exact absurd rfl nonempty
  | cons c behind =>
    refine vectorBounds?_of_ne ?_ _
    rintro rfl
    exact plain (inside.subset (mem_cons_self ..))

theorem foldChar_eq_iff {k : Char} (narrow : k.toNat < 0x80) (other : k ∉ ['s', 'k']) :
    foldChar c = k ↔ c.toLower = k := by
  have apart : ∀ d : Char, 0x80 ≤ d.toNat → d.toLower ≠ k := fun d wide same => by
    rw [toLower_of_wide wide] at same
    rw [same] at wide
    omega
  simp only [mem_cons, not_mem_nil, or_false, not_or] at other
  rw [foldChar]
  split
  case isTrue same =>
    rw [beq_iff_eq.mp same]
    exact iff_of_false (Ne.symm other.1) (apart _ (by decide))
  case isFalse =>
    split
    case isTrue same =>
      rw [beq_iff_eq.mp same]
      exact iff_of_false (Ne.symm other.2) (apart _ (by decide))
    case isFalse => rfl

theorem folded?_eq_some_iff {keyword : List Char}
    (plain : ∀ k ∈ keyword, k.toNat < 0x80 ∧ k ∉ ['s', 'k']) :
    folded? keyword text = some rest ↔
      ∃ word, word.map Char.toLower = keyword ∧ text = word ++ rest := by
  induction keyword generalizing text with
  | nil => simp [folded?, eq_comm]
  | cons k keyword ih =>
    obtain ⟨first, plain⟩ := forall_mem_cons.mp plain
    cases text with
    | nil =>
      refine iff_of_false (by simp [folded?]) ?_
      rintro ⟨word, spelled, whole⟩
      rw [(append_eq_nil_iff.mp whole.symm).1] at spelled
      cases spelled
    | cons c text =>
      have letter := foldChar_eq_iff (c := c) first.1 first.2
      by_cases same : c.toLower = k
      · rw [folded?, letter.mpr same, beq_self_eq_true, if_pos rfl, ih plain]
        constructor
        · rintro ⟨word, spelled, rfl⟩
          exact ⟨c :: word, by rw [map_cons, same, spelled], rfl⟩
        · rintro ⟨word, spelled, whole⟩
          obtain ⟨d, word, rfl, _, spelled⟩ := map_eq_cons_iff.mp spelled
          exact ⟨word, spelled, (List.cons.inj whole).2⟩
      · have other : (k == foldChar c) = false :=
          beq_eq_false_iff_ne.mpr fun equal => same (letter.mp equal.symm)
        refine iff_of_false (by simp [folded?, other]) ?_
        rintro ⟨word, spelled, whole⟩
        obtain ⟨d, word, rfl, read, _⟩ := map_eq_cons_iff.mp spelled
        obtain ⟨rfl, _⟩ := List.cons.inj whole
        exact same read

theorem direction_eq_some_iff :
    (folded? "downto".toList text <|> folded? "to".toList text) = some rest ↔
      ∃ word, word.map Char.toLower ∈ ["downto".toList, "to".toList] ∧ text = word ++ rest := by
  have plain : ∀ keyword ∈ ["downto".toList, "to".toList], ∀ k ∈ keyword,
      k.toNat < 0x80 ∧ k ∉ ['s', 'k'] := by decide
  constructor
  · intro found
    cases down : folded? "downto".toList text with
    | some behind =>
      obtain ⟨word, spelled, rfl⟩ := (folded?_eq_some_iff (plain _ (by simp))).mp down
      rw [down] at found
      cases found
      exact ⟨word, by simp [spelled], rfl⟩
    | none =>
      rw [down] at found
      obtain ⟨word, spelled, rfl⟩ := (folded?_eq_some_iff (plain _ (by simp))).mp found
      exact ⟨word, by simp [spelled], rfl⟩
  · rintro ⟨word, listed, rfl⟩
    obtain spelled | listed := mem_cons.mp listed
    · rw [(folded?_eq_some_iff (plain _ (by simp))).mpr ⟨word, spelled, rfl⟩]
      rfl
    · have spelled := mem_singleton.mp listed
      have up : folded? "to".toList (word ++ rest) = some rest :=
        (folded?_eq_some_iff (plain _ (by simp))).mpr ⟨word, spelled, rfl⟩
      have notDown : folded? "downto".toList (word ++ rest) = none := by
        obtain ⟨c, more, rfl, first, _⟩ := map_eq_cons_iff.mp spelled
        have letter : foldChar c = 't' := (foldChar_eq_iff (by decide) (by decide)).mpr first
        have other : ('d' == foldChar c) = false := by rw [letter]; rfl
        have step : folded? "downto".toList (c :: (more ++ rest)) =
            if 'd' == foldChar c then folded? "ownto".toList (more ++ rest) else none := rfl
        rw [cons_append, step, other]
        rfl
      rw [notDown, up]
      rfl

theorem not_gap_of_direction {word : List Char}
    (direction : word.map Char.toLower ∈ ["downto".toList, "to".toList]) (rest : List Char) :
    ∀ c ∈ (word ++ rest).head?, isGap c = false := by
  have letters : ∀ c : Char, c.toLower ∈ ['d', 't'] → isGap c = false := by
    intro c letter
    by_cases narrow : c.toNat < 0x80
    · exact (basic_char narrow).2.2.2.1 letter
    · have basic : ∀ d ∈ ['d', 't'], d.toNat < 0x80 := by decide
      rw [toLower_of_wide (by omega)] at letter
      exact absurd (basic c letter) narrow
  intro c first
  simp only [mem_cons, not_mem_nil, or_false] at direction
  cases word with
  | nil => simp at direction
  | cons d word =>
    obtain rfl : d = c := Option.some.inj first
    rw [map_cons] at direction
    obtain spelled | spelled := direction
    · exact letters d (by rw [(List.cons.inj spelled).1]; decide)
    · exact letters d (by rw [(List.cons.inj spelled).1]; decide)

theorem isDigit_of_gap (gap : isGap c = true) : isDigit c = false := by
  rw [← Bool.not_eq_true]
  intro digit
  rw [not_gap_of_digit digit] at gap
  cases gap

theorem head?_gaps {gaps : List Char} (nonempty : gaps ≠ []) (blank : ∀ c ∈ gaps, isGap c = true)
    (rest : List Char) : ∀ c ∈ (gaps ++ rest).head?, isDigit c = false := by
  intro c first
  rw [head?_append_of_ne_nil _ nonempty] at first
  exact isDigit_of_gap (blank c (mem_of_mem_head? first))

/-- What stands behind a numeral, gaps and a mark, does not go on with a digit. -/
theorem head?_mark {gaps : List Char} (blank : ∀ c ∈ gaps, isGap c = true) {mark : Char}
    (other : isDigit mark = false) (rest : List Char) :
    ∀ c ∈ (gaps ++ mark :: rest).head?, isDigit c = false := by
  cases gaps with
  | nil => rintro _ ⟨⟩; exact other
  | cons d gaps => rintro _ ⟨⟩; exact isDigit_of_gap (blank d (mem_cons_self ..))

theorem vectorBounds?_eq_some_iff {pair : List Char × List Char} :
    vectorBounds? text = some pair ↔
      ∃ bounds, Begins bounds text ∧ pair = (bounds.left, bounds.right) := by
  constructor
  · intro found
    simp only [vectorBounds?, Option.bind_eq_bind, Option.bind_eq_some_iff] at found
    obtain ⟨inner, opened,
      ⟨left, afterLeft⟩, leftRead, word, gapBefore, behind, direction, afterGap,
      gapBehind, ⟨right, afterRight⟩, rightRead, rest, closed, made⟩ := found
    cases made
    obtain rfl := mark?_eq_some_iff.mp opened
    obtain ⟨opening, openingBlank, whole⟩ := exists_skipGap inner
    obtain ⟨leftNumeral, leftWhole⟩ := numeral_of_run? leftRead
    obtain ⟨before, beforeFull, beforeBlank, rfl⟩ := gap?_eq_some gapBefore
    obtain ⟨keyword, spelled, rfl⟩ := direction_eq_some_iff.mp direction
    obtain ⟨between, betweenFull, betweenBlank, rfl⟩ := gap?_eq_some gapBehind
    obtain ⟨rightNumeral, rfl⟩ := numeral_of_run? rightRead
    obtain ⟨closing, closingBlank, closingWhole⟩ := exists_skipGap afterRight
    rw [leftWhole] at whole
    rw [mark?_eq_some_iff.mp closed] at closingWhole
    have gaps : ∀ c ∈ opening ++ before ++ between ++ closing, isGap c = true := by
      simp only [forall_mem_append]
      exact ⟨⟨⟨openingBlank, beforeBlank⟩, betweenBlank⟩, closingBlank⟩
    refine ⟨⟨left, right, leftNumeral, rightNumeral⟩,
      ⟨_, rest, ?_, .spelled gaps ⟨beforeFull, betweenFull⟩ spelled⟩, rfl⟩
    rw [whole, closingWhole]
    simp
  · rintro ⟨bounds, ⟨range, rest, rfl, spelled⟩, rfl⟩
    obtain ⟨gaps, ⟨beforeFull, behindFull⟩, direction⟩ := spelled
    simp only [forall_mem_append] at gaps
    obtain ⟨⟨⟨openingBlank, beforeBlank⟩, behindBlank⟩, closingBlank⟩ := gaps
    simp only [cons_append, append_assoc, nil_append, vectorBounds?, Option.bind_eq_bind]
    rw [mark?_eq_some_iff.mpr rfl, Option.bind_some,
      skipGap_gaps openingBlank (head?_digits bounds.leftNumeral _),
      run?_digits bounds.leftNumeral (head?_gaps beforeFull beforeBlank _), Option.bind_some]
    dsimp only
    rw [gap?_gaps beforeFull beforeBlank (not_gap_of_direction direction _), Option.bind_some,
      direction_eq_some_iff.mpr ⟨_, direction, rfl⟩, Option.bind_some,
      gap?_gaps behindFull behindBlank (head?_digits bounds.rightNumeral _), Option.bind_some,
      run?_digits bounds.rightNumeral (head?_mark closingBlank (by decide) _), Option.bind_some]
    dsimp only
    rw [skipGap_gaps closingBlank (by rintro _ ⟨⟩; decide), mark?_eq_some_iff.mpr rfl]
    rfl

theorem firstAlong?_eq_some_iff {α : Type} {reader : List Char → Option α} {result : α} :
    firstAlong? reader text = some result ↔ ∃ front rest, text = front ++ rest ∧
      reader rest = some result ∧
      ∀ behind, behind <:+ front → behind ≠ [] → reader (behind ++ rest) = none := by
  constructor
  · intro found
    induction text with
    | nil =>
      exact ⟨[], [], rfl, found, fun behind inside some => absurd (suffix_nil.mp inside) some⟩
    | cons c text ih =>
      rw [firstAlong?] at found
      cases here : reader (c :: text) with
      | some other =>
        rw [here] at found
        cases found
        exact ⟨[], c :: text, rfl, here,
          fun behind inside some => absurd (suffix_nil.mp inside) some⟩
      | none =>
        rw [here] at found
        obtain ⟨front, rest, rfl, read, earlier⟩ := ih found
        refine ⟨c :: front, rest, rfl, read, fun behind inside some => ?_⟩
        obtain rfl | inside := suffix_cons_iff.mp inside
        · exact here
        · exact earlier behind inside some
  · rintro ⟨front, rest, rfl, read, earlier⟩
    rw [firstAlong?_append earlier]
    cases rest with
    | nil => exact read
    | cons c rest => rw [firstAlong?, read]; rfl

theorem firstAlong?_vector {pair : List Char × List Char} :
    firstAlong? vectorBounds? text = some pair ↔
      ∃ bounds, HasVector bounds text ∧ pair = (bounds.left, bounds.right) := by
  have absent : ∀ text, vectorBounds? text = none ↔ ∀ other, ¬Begins other text := by
    intro text
    rw [Option.eq_none_iff_forall_ne_some]
    refine ⟨fun none other begins => none _ (vectorBounds?_eq_some_iff.mpr ⟨other, begins, rfl⟩),
      fun none pair found => ?_⟩
    obtain ⟨other, begins, _⟩ := vectorBounds?_eq_some_iff.mp found
    exact none other begins
  simp only [firstAlong?_eq_some_iff, vectorBounds?_eq_some_iff, absent]
  constructor
  · rintro ⟨front, rest, whole, ⟨bounds, begins, made⟩, earlier⟩
    exact ⟨bounds, ⟨front, rest, whole, begins, earlier⟩, made⟩
  · rintro ⟨bounds, ⟨front, rest, whole, begins, earlier⟩, made⟩
    exact ⟨front, rest, whole, ⟨bounds, begins, made⟩, earlier⟩

end Vectors

section Lowered

theorem toNat_of_gap (gap : isGap c = true) : c.toNat < 0x80 := by
  simp only [isGap, Bool.or_eq_true, beq_iff_eq] at gap
  obtain (((rfl | rfl) | rfl) | rfl) | code := gap
  · decide
  · decide
  · decide
  · decide
  · omega

@[simp] theorem isDigit_lowerChar (c : Char) : isDigit (lowerChar c) = isDigit c := by
  rw [Bool.eq_iff_iff, isDigit_iff, isDigit_iff, digitPlace_lowerChar]

@[simp] theorem isGap_lowerChar (c : Char) : isGap (lowerChar c) = isGap c := by
  by_cases narrow : c.toNat < 0x80
  · rw [lowerChar_of_narrow narrow]
    exact (basic_char narrow).2.1
  · have solid : isGap c = false := by
      rw [← Bool.not_eq_true]
      exact fun gap => narrow (toNat_of_gap gap)
    rw [solid, ← Bool.not_eq_true]
    intro gap
    obtain wide | letter := lowerChar_of_wide (by omega : 0x80 ≤ c.toNat)
    · have small := toNat_of_gap gap
      omega
    · have each : ∀ d ∈ ['i', 'k', '\x00'], isGap d = false := by decide
      rw [each _ letter] at gap
      cases gap

theorem skipGap_lowered (text : List Char) :
    skipGap (text.map lowerChar) = (skipGap text).map lowerChar := by
  rw [skipGap, dropWhile_map]
  congr 2
  exact funext isGap_lowerChar

theorem gap?_lowered (text : List Char) :
    gap? (text.map lowerChar) = (gap? text).map (map lowerChar) := by
  cases text with
  | nil => rfl
  | cons c text =>
    rw [map_cons, gap?, isGap_lowerChar, skipGap_lowered, gap?]
    split <;> rfl

theorem run?_lowered (text : List Char) : run? isDigit (text.map lowerChar) =
    (run? isDigit text).map fun parts => (parts.1, parts.2.map lowerChar) := by
  have same : isDigit ∘ lowerChar = isDigit := funext isDigit_lowerChar
  have fixed : ∀ c ∈ text.takeWhile isDigit, lowerChar c = id c := by
    intro c member
    have digit := mem_takeWhile_imp member
    rw [isDigit, Bool.and_eq_true, decide_eq_true_eq, decide_eq_true_eq] at digit
    refine lowerChar_digit ?_
    simp only [Char.isDigit, Bool.and_eq_true, decide_eq_true_eq]
    exact digit
  rw [run?, takeWhile_map, dropWhile_map, same, map_congr_left fixed, map_id, run?]
  split <;> rfl

theorem mark?_lowered {mark : Char} (caseless : ∀ c, lowerChar c = mark ↔ c = mark)
    (text : List Char) :
    mark? mark (text.map lowerChar) = (mark? mark text).map (map lowerChar) := by
  cases text with
  | nil => rfl
  | cons c text =>
    have same : (mark == lowerChar c) = (mark == c) := by
      rw [Bool.eq_iff_iff, beq_iff_eq, beq_iff_eq, eq_comm, caseless, eq_comm]
    rw [map_cons, mark?, same, mark?]
    split <;> rfl

theorem toLower_lowerChar {k : Char} (narrow : k.toNat < 0x80) (other : k ∉ ['i', 'k', '\x00']) :
    (lowerChar c).toLower = k ↔ c.toLower = k := by
  by_cases basic : c.toNat < 0x80
  · rw [lowerChar_of_narrow basic, (basic_char basic).2.2.1]
  · have wide : 0x80 ≤ c.toNat := by omega
    have apart : ∀ d : Char, 0x80 ≤ d.toNat → d ≠ k := by
      rintro d above rfl
      omega
    rw [toLower_of_wide wide]
    refine iff_of_false ?_ (apart c wide)
    obtain outside | letter := lowerChar_of_wide wide
    · rw [toLower_of_wide outside]
      exact apart _ outside
    · have each : ∀ d ∈ ['i', 'k', '\x00'], d.toLower = d := by decide
      rw [each _ letter]
      rintro rfl
      exact other letter

theorem folded?_lowered {keyword : List Char}
    (plain : ∀ k ∈ keyword, k.toNat < 0x80 ∧ k ∉ ['s', 'k'] ∧ k ∉ ['i', 'k', '\x00'])
    (text : List Char) :
    folded? keyword (text.map lowerChar) = (folded? keyword text).map (map lowerChar) := by
  induction keyword generalizing text with
  | nil => rfl
  | cons k keyword ih =>
    obtain ⟨⟨narrow, unfolded, unlowered⟩, plain⟩ := forall_mem_cons.mp plain
    cases text with
    | nil => rfl
    | cons c text =>
      have same : (k == foldChar (lowerChar c)) = (k == foldChar c) := by
        rw [Bool.eq_iff_iff, beq_iff_eq, beq_iff_eq, eq_comm, foldChar_eq_iff narrow unfolded,
          toLower_lowerChar narrow unlowered, ← foldChar_eq_iff narrow unfolded, eq_comm]
      rw [map_cons, folded?, same, folded?, ih plain]
      split <;> rfl

theorem direction_lowered (text : List Char) :
    (folded? "downto".toList (text.map lowerChar) <|> folded? "to".toList (text.map lowerChar)) =
      (folded? "downto".toList text <|> folded? "to".toList text).map (map lowerChar) := by
  rw [folded?_lowered (by decide), folded?_lowered (by decide)]
  cases folded? "downto".toList text <;> rfl

theorem parenthesis_lowered (c : Char) :
    (lowerChar c = '(' ↔ c = '(') ∧ (lowerChar c = ')' ↔ c = ')') := by
  rw [lowerChar_eq_iff (by decide) (by decide), lowerChar_eq_iff (by decide) (by decide)]
  by_cases basic : c.toNat < 0x80
  · exact (basic_char basic).2.2.2.2
  · rw [toLower_of_wide (by omega)]
    exact ⟨.rfl, .rfl⟩

theorem vectorBounds?_lowered (text : List Char) :
    vectorBounds? (text.map lowerChar) = vectorBounds? text := by
  have opened := mark?_lowered fun c => (parenthesis_lowered c).1
  have closed := mark?_lowered fun c => (parenthesis_lowered c).2
  simp only [vectorBounds?, Option.bind_eq_bind, opened, closed, skipGap_lowered, run?_lowered,
    gap?_lowered, direction_lowered, Option.bind_map, Function.comp_def]

end Lowered

section Trimmed

/-- A text is what trimming leaves of it, between blanks. -/
theorem exists_trimmed (text : String) : ∃ lead trail, (∀ c ∈ lead ++ trail, isBlank c = true) ∧
    text.toList = lead ++ ((trim text).toList ++ trail) := by
  have behind : ∀ items : List Char, ∃ trail, (∀ c ∈ trail, isBlank c = true) ∧
      items = dropEndWhile isBlank items ++ trail := by
    intro items
    refine ⟨(items.reverse.takeWhile isBlank).reverse,
      fun c member => mem_takeWhile_imp (mem_reverse.mp member), ?_⟩
    rw [dropEndWhile, ← reverse_append, takeWhile_append_dropWhile, reverse_reverse]
  obtain ⟨trail, blank, whole⟩ := behind (text.toList.dropWhile isBlank)
  refine ⟨text.toList.takeWhile isBlank, trail, ?_, ?_⟩
  · exact forall_mem_append.mpr ⟨fun _ => mem_takeWhile_imp, blank⟩
  · rw [trim, String.toList_ofList, ← whole, takeWhile_append_dropWhile]

theorem VectorRange.getLast?_eq {bounds : Bounds} {range : List Char}
    (spelled : VectorRange bounds range) : range.getLast? = some ')' := by
  cases spelled
  simp only [← append_assoc, ← cons_append, List.getLast?_concat]

theorem vectorBounds?_blanks {trail : List Char} (blanks : ∀ c ∈ trail, isBlank c = true)
    (text : List Char) : vectorBounds? (text ++ trail) = vectorBounds? text := by
  have within : ∀ bounds, Begins bounds (text ++ trail) ↔ Begins bounds text := by
    intro bounds
    constructor
    · rintro ⟨range, rest, whole, spelled⟩
      have last := spelled.getLast?_eq
      obtain ⟨between, rfl, rfl⟩ | ⟨between, rfl, _⟩ := append_eq_append_iff.mp whole
      · cases between using List.reverseRecOn with
        | nil => exact ⟨text, [], by rw [append_nil], by rwa [append_nil] at spelled⟩
        | append_singleton between c =>
          -- The range would end among the blanks.
          rw [← append_assoc, List.getLast?_concat] at last
          cases last
          exact absurd (blanks ')' (by simp)) (by decide)
      · exact ⟨range, between, rfl, spelled⟩
    · rintro ⟨range, rest, rfl, spelled⟩
      exact ⟨range, rest ++ trail, append_assoc .., spelled⟩
  ext pair
  simp only [vectorBounds?_eq_some_iff, within]

theorem not_mem_blanks {mark : Char} {blanks : List Char} (visible : isBlank mark = false)
    (blank : ∀ c ∈ blanks, isBlank c = true) : mark ∉ blanks := fun member => by
  rw [blank mark member] at visible
  cases visible

theorem firstAlong?_blanks {trail : List Char} (blanks : ∀ c ∈ trail, isBlank c = true)
    (text : List Char) :
    firstAlong? vectorBounds? (text ++ trail) = firstAlong? vectorBounds? text := by
  induction text with
  | nil =>
    have skipped := skips_vector (not_mem_blanks (by decide) blanks) []
    rwa [append_nil] at skipped
  | cons c text ih =>
    have here := vectorBounds?_blanks blanks (c :: text)
    rw [cons_append] at here ⊢
    rw [firstAlong?, here, ih, firstAlong?]

theorem firstAlong?_lowered (text : List Char) :
    firstAlong? vectorBounds? (text.map lowerChar) = firstAlong? vectorBounds? text := by
  induction text with
  | nil => rfl
  | cons c text ih =>
    have here := vectorBounds?_lowered (c :: text)
    rw [map_cons] at here ⊢
    rw [firstAlong?, here, ih, firstAlong?]

theorem firstAlong?_trimmed (type : String) :
    firstAlong? vectorBounds? (lower (trim type)).toList =
      firstAlong? vectorBounds? type.toList := by
  obtain ⟨lead, trail, blanks, whole⟩ := exists_trimmed type
  obtain ⟨leading, trailing⟩ := forall_mem_append.mp blanks
  rw [toList_lower, firstAlong?_lowered, whole, skips_vector (not_mem_blanks (by decide) leading),
    firstAlong?_blanks trailing]

theorem typeWidth_of_vector {type : String} {bounds : Bounds}
    (found : HasVector bounds type.toList) : typeWidth type = bounds.places := by
  have vector : firstAlong? vectorBounds? (lower (trim type)).toList =
      some (bounds.left, bounds.right) := by
    rw [firstAlong?_trimmed]
    exact firstAlong?_vector.mpr ⟨bounds, found, rfl⟩
  have plain : ∀ word ∈ ["", "std_logic", "std_ulogic", "bit", "boolean"],
      firstAlong? vectorBounds? word.toList = none := by decide
  have unlisted : lower (trim type) ∉ ["", "std_logic", "std_ulogic", "bit", "boolean"] := by
    intro listed
    rw [plain _ listed] at vector
    cases vector
  rw [mem_cons, not_or] at unlisted
  rw [typeWidth, if_neg unlisted.1, if_neg (by simpa using unlisted.2), vector]
  exact spanWidth_eq bounds

theorem typeWidth_nonneg {type : String} (unranged : ∀ bounds, ¬HasVector bounds type.toList) :
    0 ≤ typeWidth type := by
  have vector : firstAlong? vectorBounds? (lower (trim type)).toList = none := by
    rw [firstAlong?_trimmed, Option.eq_none_iff_forall_ne_some]
    intro pair found
    obtain ⟨bounds, found, _⟩ := firstAlong?_vector.mp found
    exact unranged bounds found
  rw [typeWidth, vector]
  split
  · exact le_refl 0
  · split
    · decide
    · dsimp only
      split <;> omega

end Trimmed

section Brackets

theorem rangeBounds?_eq_some_iff {pair : List Char × List Char} : rangeBounds? text = some pair ↔
    ∃ bounds, BracketRange bounds text ∧ pair = (bounds.left, bounds.right) := by
  constructor
  · intro found
    simp only [rangeBounds?, Option.bind_eq_bind, Option.bind_eq_some_iff] at found
    obtain ⟨inner, opened, ⟨left, afterLeft⟩, leftRead, next, colon, ⟨right, afterRight⟩, rightRead,
      rest, closed, made⟩ := found
    obtain ⟨opening, openingBlank, whole⟩ := exists_skipGap inner
    obtain ⟨leftNumeral, leftWhole⟩ := numeral_of_run? leftRead
    obtain ⟨before, beforeBlank, beforeWhole⟩ := exists_skipGap afterLeft
    obtain ⟨behind, behindBlank, behindWhole⟩ := exists_skipGap next
    obtain ⟨rightNumeral, rightWhole⟩ := numeral_of_run? rightRead
    obtain ⟨closing, closingBlank, closingWhole⟩ := exists_skipGap afterRight
    have gaps : ∀ c ∈ opening ++ before ++ behind ++ closing, isGap c = true := by
      simp only [forall_mem_append]
      exact ⟨⟨⟨openingBlank, beforeBlank⟩, behindBlank⟩, closingBlank⟩
    split at made
    case isFalse => cases made
    case isTrue ended =>
      cases made
      rw [isEmpty_iff.mp ended] at closed
      refine ⟨⟨left, right, leftNumeral, rightNumeral⟩, ?_, rfl⟩
      rw [mark?_eq_some_iff.mp opened, whole, leftWhole, beforeWhole, mark?_eq_some_iff.mp colon,
        behindWhole, rightWhole, closingWhole, mark?_eq_some_iff.mp closed]
      exact .spelled gaps
  · rintro ⟨bounds, spelled, rfl⟩
    obtain ⟨gaps⟩ := spelled
    simp only [forall_mem_append] at gaps
    obtain ⟨⟨⟨openingBlank, beforeBlank⟩, behindBlank⟩, closingBlank⟩ := gaps
    simp only [rangeBounds?, Option.bind_eq_bind]
    rw [mark?_eq_some_iff.mpr rfl, Option.bind_some,
      skipGap_gaps openingBlank (head?_digits bounds.leftNumeral _),
      run?_digits bounds.leftNumeral (head?_mark beforeBlank (by decide) _), Option.bind_some]
    dsimp only
    rw [skipGap_gaps beforeBlank (by rintro _ ⟨⟩; decide), mark?_eq_some_iff.mpr rfl,
      Option.bind_some, skipGap_gaps behindBlank (head?_digits bounds.rightNumeral _),
      run?_digits bounds.rightNumeral (head?_mark closingBlank (by decide) _), Option.bind_some]
    dsimp only
    rw [skipGap_gaps closingBlank (by rintro _ ⟨⟩; decide), mark?_eq_some_iff.mpr rfl]
    rfl

theorem BracketRange.ends {bounds : Bounds} {range : List Char}
    (spelled : BracketRange bounds range) :
    range.head? = some '[' ∧ range.getLast? = some ']' := by
  cases spelled
  refine ⟨rfl, ?_⟩
  simp only [← append_assoc, ← cons_append, List.getLast?_concat]

theorem trim_of_blanks {text : String} {lead range trail : List Char}
    (blanks : ∀ c ∈ lead ++ trail, isBlank c = true)
    (whole : text.toList = lead ++ (range ++ trail))
    (nonempty : range ≠ []) (first : ∀ c ∈ range.head?, isBlank c = false)
    (last : ∀ c ∈ range.getLast?, isBlank c = false) : (trim text).toList = range := by
  obtain ⟨leading, trailing⟩ := forall_mem_append.mp blanks
  have backward : ∀ c ∈ trail.reverse, isBlank c = true := fun c member =>
    trailing c (mem_reverse.mp member)
  rw [trim, String.toList_ofList, whole, dropWhile_append_of_pos leading,
    dropWhile_eq (head?_append_of_ne_nil range nonempty ▸ first), dropEndWhile, reverse_append,
    dropWhile_append_of_pos backward]
  exact dropEndWhile_eq last

theorem rangeBounds?_trimmed {range : String} {pair : List Char × List Char} :
    rangeBounds? (trim range).toList = some pair ↔
      ∃ bounds, IsBracketed bounds range.toList ∧ pair = (bounds.left, bounds.right) := by
  rw [rangeBounds?_eq_some_iff]
  constructor
  · rintro ⟨bounds, spelled, made⟩
    obtain ⟨lead, trail, blanks, whole⟩ := exists_trimmed range
    exact ⟨bounds, ⟨lead, _, trail, blanks, whole, spelled⟩, made⟩
  · rintro ⟨bounds, ⟨lead, core, trail, blanks, whole, spelled⟩, made⟩
    refine ⟨bounds, ?_, made⟩
    rwa [trim_of_blanks blanks whole]
    · rintro rfl
      cases spelled
    · rw [spelled.ends.1]
      decide
    · rw [spelled.ends.2]
      decide

theorem rangeWidth_of_bracketed {range : String} {bounds : Bounds}
    (bracketed : IsBracketed bounds range.toList) : rangeWidth range = bounds.places := by
  have found := rangeBounds?_trimmed.mpr ⟨bounds, bracketed, rfl⟩
  have nonempty : range ≠ "" := by
    rintro rfl
    cases found
  rw [rangeWidth, if_neg nonempty, found]
  exact spanWidth_eq bounds

theorem rangeWidth_nonneg {range : String}
    (unranged : ∀ bounds, ¬IsBracketed bounds range.toList) : 0 ≤ rangeWidth range := by
  have missing : rangeBounds? (trim range).toList = none := by
    rw [Option.eq_none_iff_forall_ne_some]
    intro pair found
    obtain ⟨bounds, found, _⟩ := rangeBounds?_trimmed.mp found
    exact unranged bounds found
  rw [rangeWidth, missing]
  split
  · decide
  · exact le_refl 0

end Brackets

/-- **Widths of ranges.** A type with a range in parentheses and a range in brackets have as many
bits as the range has places, where bounds above the greatest word count as that word, and the least
word for a range of more places than a word can count. This is the right width if the bounds are
equal, or are words with places that a word can count. No other text has a width below zero. -/
theorem widths_of_ranges (type range : String) :
    (∀ bounds, HasVector bounds type.toList → typeWidth type = bounds.places ∧
      (typeWidth type = bounds.count ↔
        bounds.low = bounds.high ∨ (bounds.high : Int) ≤ greatest ∧ ¬bounds.Overflows)) ∧
    (typeWidth type < 0 ↔ ∃ bounds, HasVector bounds type.toList ∧ bounds.Overflows) ∧
    (∀ bounds, IsBracketed bounds range.toList → rangeWidth range = bounds.places ∧
      (rangeWidth range = bounds.count ↔
        bounds.low = bounds.high ∨ (bounds.high : Int) ≤ greatest ∧ ¬bounds.Overflows)) ∧
    (rangeWidth range < 0 ↔ ∃ bounds, IsBracketed bounds range.toList ∧ bounds.Overflows) := by
  refine ⟨fun bounds found => ?_,
    neg_iff_overflows (fun _ => typeWidth_of_vector) typeWidth_nonneg, fun bounds found => ?_,
    neg_iff_overflows (fun _ => rangeWidth_of_bracketed) rangeWidth_nonneg⟩
  · rw [typeWidth_of_vector found]
    exact ⟨rfl, bounds.places_eq_count_iff⟩
  · rw [rangeWidth_of_bracketed found]
    exact ⟨rfl, bounds.places_eq_count_iff⟩

/-- A bound that no word can hold counts as the greatest word. -/
theorem widths_of_ranges_saturated :
    typeWidth "Bus ( 18446744073709551616\tTO 5 ) := x" = 9223372036854775803 ∧
      rangeWidth " [4: 18446744073709551616] " = 9223372036854775804 := by
  refine ⟨?_, ?_⟩
  · have found : firstAlong? vectorBounds? "Bus ( 18446744073709551616\tTO 5 ) := x".toList =
        some ("18446744073709551616".toList, ['5']) := by decide +kernel
    have width : Bounds.places ⟨"18446744073709551616".toList, ['5'], ⟨by decide, by decide⟩,
        ⟨by decide, by decide⟩⟩ = 9223372036854775803 := by decide +kernel
    obtain ⟨⟨left, right, _, _⟩, vector, made⟩ := firstAlong?_vector.mp found
    obtain ⟨rfl, rfl⟩ := Prod.mk.inj made
    exact ((widths_of_ranges _ "").1 _ vector).1.trans width
  · have found : rangeBounds? (trim " [4: 18446744073709551616] ").toList =
        some (['4'], "18446744073709551616".toList) := by decide +kernel
    have width : Bounds.places ⟨['4'], "18446744073709551616".toList, ⟨by decide, by decide⟩,
        ⟨by decide, by decide⟩⟩ = 9223372036854775804 := by decide +kernel
    obtain ⟨⟨left, right, _, _⟩, bracketed, made⟩ := rangeBounds?_trimmed.mp found
    obtain ⟨rfl, rfl⟩ := Prod.mk.inj made
    exact ((widths_of_ranges "" _).2.2.1 _ bracketed).1.trans width

/-- The places from zero to the greatest word are one more than a word can count. -/
theorem widest_range_negative :
    typeWidth "std_logic_vector(9223372036854775807 downto 0)" = -9223372036854775808 ∧
      rangeWidth "[9223372036854775807:0]" = -9223372036854775808 := by
  decide +kernel

end Schematic.Scan
