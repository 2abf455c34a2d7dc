import Schematic.Text.Case

/-! # Numerals in names -/

open List

namespace Schematic.Text

theorem toList_toString (n : Nat) : (toString n).toList = Nat.toDigits 10 n := by
  rw [Nat.toString_eq_repr, Nat.toList_repr]

theorem toDigits_injective {m n : Nat} (same : Nat.toDigits 10 m = Nat.toDigits 10 n) : m = n := by
  have values := congrArg (fun digits => Nat.ofDigitChars 10 digits 0) same
  simpa only [Nat.ofDigitChars_ten_toDigits] using values

theorem toDigits_ne_minus_cons (n : Nat) (rest : List Char) : Nat.toDigits 10 n ≠ '-' :: rest := by
  intro same
  have digit : '-'.isDigit = true :=
    Nat.isDigit_of_mem_toDigits (b := 10) (by omega) (by omega) (n := n)
      (by rw [same]; exact mem_cons_self ..)
  simp at digit

theorem toString_int_injective {m n : Int} (same : toString m = toString n) : m = n := by
  have lists := congrArg String.toList same
  simp only [Int.toString_eq_repr, Int.repr] at lists
  cases m with
  | ofNat m =>
    cases n with
    | ofNat n =>
      simp only [Nat.toList_repr] at lists
      rw [toDigits_injective lists]
    | negSucc n =>
      simp only [String.toList_append, Nat.toList_repr] at lists
      exact absurd lists (toDigits_ne_minus_cons m _)
  | negSucc m =>
    cases n with
    | ofNat n =>
      simp only [String.toList_append, Nat.toList_repr] at lists
      exact absurd lists.symm (toDigits_ne_minus_cons n _)
    | negSucc n =>
      simp only [String.toList_append, Nat.toList_repr, append_cancel_left_eq] at lists
      rw [Nat.succ.inj (toDigits_injective lists)]

theorem append_underscore_inj {first second : List Char} {firstEnd secondEnd : List Char}
    (firstFree : '_' ∉ firstEnd) (secondFree : '_' ∉ secondEnd)
    (same : first ++ '_' :: firstEnd = second ++ '_' :: secondEnd) :
    first = second ∧ firstEnd = secondEnd := by
  induction first generalizing second with
  | nil =>
    cases second with
    | nil => simpa using same
    | cons c second =>
      simp only [nil_append, cons_append, List.cons.injEq] at same
      exact absurd (by rw [same.2]; simp) firstFree
  | cons c first ih =>
    cases second with
    | nil =>
      simp only [nil_append, cons_append, List.cons.injEq] at same
      exact absurd (by rw [← same.2]; simp) secondFree
    | cons d second =>
      simp only [cons_append, List.cons.injEq] at same
      obtain ⟨tails, ends⟩ := ih same.2
      exact ⟨by rw [same.1, tails], ends⟩

theorem numbered_inj {first second : String} {m n : Nat}
    (same : first ++ "_" ++ toString m = second ++ "_" ++ toString n) : first = second ∧ m = n := by
  have lists := congrArg String.toList same
  simp only [String.toList_append, toList_toString, append_assoc] at lists
  obtain ⟨names, digits⟩ := append_underscore_inj Nat.underscore_not_in_toDigits
    Nat.underscore_not_in_toDigits lists
  exact ⟨String.toList_inj.mp names, toDigits_injective digits⟩

theorem toList_lower (text : String) : (lower text).toList = text.toList.map lowerChar := by
  simp only [lower, String.toList_ofList]

theorem lower_append (first second : String) :
    lower (first ++ second) = lower first ++ lower second := by
  rw [← String.toList_inj]
  simp only [toList_lower, String.toList_append, map_append]

theorem lowerChar_digit {c : Char} (digit : c.isDigit = true) : lowerChar c = c := by
  simp only [Char.isDigit, Bool.and_eq_true, decide_eq_true_eq, ge_iff_le,
    UInt32.le_iff_toNat_le] at digit
  have atMost : c.toNat ≤ 57 := digit.2
  have ascii : c.toNat < 0x80 := by omega
  have notCapital : ¬(c.val ≥ 'A'.val ∧ c.val ≤ 'Z'.val) := by
    simp only [ge_iff_le, UInt32.le_iff_toNat_le, not_and]
    intro above
    have atLeast : 65 ≤ c.toNat := above
    omega
  calc
    lowerChar c = c.toLower := if_pos ascii
    _ = c := dif_neg notCapital

theorem lower_toString (n : Nat) : lower (toString n) = toString n := by
  rw [← String.toList_inj, toList_lower, toList_toString]
  have unchanged : ∀ c ∈ Nat.toDigits 10 n, lowerChar c = id c := by
    intro c member
    exact lowerChar_digit (Nat.isDigit_of_mem_toDigits (by omega) (by omega) member)
  rw [map_congr_left unchanged, map_id]

theorem toList_toString_int (n : Int) : ∃ sign : List Char, sign ∈ [[], ['-']] ∧
      (toString n).toList = sign ++ Nat.toDigits 10 n.natAbs := by
  cases n with
  | ofNat n =>
    refine ⟨[], by simp, ?_⟩
    simp only [Int.toString_eq_repr, Int.repr, Nat.toList_repr]
    rfl
  | negSucc n =>
    refine ⟨['-'], by simp, ?_⟩
    simp only [Int.toString_eq_repr, Int.repr, String.toList_append, Nat.toList_repr]
    rfl

theorem not_mem_toString_int {c : Char} (unsigned : c ≠ '-') (other : c.isDigit = false) (n : Int) :
    c ∉ (toString n).toList := by
  obtain ⟨sign, shape, digits⟩ := toList_toString_int n
  rw [digits, mem_append, not_or]
  refine ⟨?_, fun member => ?_⟩
  · simp only [mem_cons, not_mem_nil, or_false] at shape
    obtain rfl | rfl := shape <;> simp [unsigned]
  · have digit := Nat.isDigit_of_mem_toDigits (by omega : 0 < 10) (by omega) member
    rw [other] at digit
    cases digit

theorem lower_toString_int (n : Int) : lower (toString n) = toString n := by
  obtain ⟨sign, shape, digits⟩ := toList_toString_int n
  have unchanged : sign.map lowerChar = sign := by
    simp only [mem_cons, not_mem_nil, or_false] at shape
    obtain rfl | rfl := shape <;> rfl
  have number := lower_toString n.natAbs
  rw [← String.toList_inj, toList_lower, toList_toString] at number
  rw [← String.toList_inj, toList_lower, digits, map_append, unchanged, number]

theorem lower_numbered (name : String) (n : Nat) :
    lower (name ++ "_" ++ toString n) = lower name ++ "_" ++ toString n := by
  rw [lower_append, lower_append, lower_toString]
  rfl

end Schematic.Text
