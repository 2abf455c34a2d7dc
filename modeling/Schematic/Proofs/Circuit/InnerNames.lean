import Schematic.Proofs.Circuit.Connection
import Schematic.Proofs.Circuit.Identifiers

/-! # Names of inner signals -/

open List
open String (toList toList_append)

namespace Schematic

open Text

namespace Text

theorem append_first_underscore_inj {first second firstEnd secondEnd : List Char}
    (firstFree : '_' ∉ first) (secondFree : '_' ∉ second)
    (same : first ++ '_' :: firstEnd = second ++ '_' :: secondEnd) :
    first = second ∧ firstEnd = secondEnd := by
  induction first generalizing second with
  | nil =>
    cases second with
    | nil => exact ⟨rfl, (List.cons.inj same).2⟩
    | cons c second =>
      rw [← (List.cons.inj same).1] at secondFree
      exact absurd (mem_cons_self ..) secondFree
  | cons c first ih =>
    cases second with
    | nil =>
      rw [(List.cons.inj same).1] at firstFree
      exact absurd (mem_cons_self ..) firstFree
    | cons d second =>
      obtain ⟨heads, tails⟩ := List.cons.inj same
      obtain ⟨rest, ends⟩ := ih (fun member => firstFree (mem_cons_of_mem _ member))
        (fun member => secondFree (mem_cons_of_mem _ member)) tails
      exact ⟨by rw [heads, rest], ends⟩

theorem dropStart?_eq_none_of_ne {start text : List Char} (missing : dropStart? start text = none) :
    ∀ rest, text ≠ start ++ rest := by
  induction start generalizing text with
  | nil => cases missing
  | cons s start ih =>
    rintro rest rfl
    rw [cons_append] at missing
    simp only [dropStart?, beq_self_eq_true, ↓reduceIte] at missing
    exact ih missing rest rfl

end Text

def innerStart : List Char → Bool
  | 's' :: '_' :: c :: _ => Naming.isLetter c
  | _ => false

/-- A name like those of inner signals. -/
def looksInner (name : String) : Bool :=
  innerStart (lower name).toList

theorem ne_of_looksInner {first second : String} (inner : looksInner first = true)
    (outer : looksInner second = false) : lower first ≠ lower second := by
  intro same
  rw [looksInner, same, ← looksInner, outer] at inner
  cases inner

theorem exists_of_innerStart {text : List Char} (inner : innerStart text = true) :
    ∃ c rest, text = 's' :: '_' :: c :: rest ∧ Naming.isLetter c = true := by
  unfold innerStart at inner
  split at inner
  case h_1 c rest => exact ⟨c, rest, rfl, inner⟩
  case h_2 => cases inner

theorem innerStart_of_head {c : Char} {rest : List Char} (differs : c ≠ 's') :
    innerStart (c :: rest) = false := by
  by_contra inner
  obtain ⟨_, _, text, _⟩ := exists_of_innerStart (eq_true_of_ne_false inner)
  exact differs (List.cons.inj text).1

theorem isLetter_of_isDigit {c : Char} (digit : c.isDigit = true) : Naming.isLetter c = false := by
  simp only [Char.isDigit, Bool.and_eq_true, decide_eq_true_eq, ge_iff_le,
    UInt32.le_iff_toNat_le] at digit
  have atMost : c.val.toNat ≤ 57 := digit.2
  have lowest : ∀ first : Char, 57 < first.val.toNat → ¬first ≤ c := by
    intro first above reached
    have reached : first.val.toNat ≤ c.val.toNat := reached
    omega
  have small := lowest 'a' (by decide)
  have capital := lowest 'A' (by decide)
  simp only [Naming.isLetter, small, capital, decide_false, Bool.false_and, Bool.or_false]

theorem looksInner_fixed {design : Design} {name : String} (fixed : name ∈ fixedNames design) :
    looksInner name = false := by
  obtain early | tree := mem_append.mp fixed
  · have known : ∀ name ∈ [tickSignal, dynamicClockPort, hiddenInput, hiddenOutput, hiddenInout],
        looksInner name = false := by decide
    exact known name early
  · obtain ⟨tree, _, rfl⟩ := mem_map.mp tree
    rw [looksInner, lower_clockTreePort, toList_append]
    exact innerStart_of_head (by decide)

theorem pinPort_start (path : String) :
    ∀ rest, (lower (pinPort path)).toList ≠ 's' :: '_' :: rest := by
  intro rest
  simp only [pinPort]
  split
  · rw [lower_append, toList_append]
    intro same
    have heads := (List.cons.inj same).1
    revert heads
    decide
  case isFalse plain =>
    simp only [Text.startsWith, Option.isSome_iff_ne_none, ne_eq, not_not] at plain
    exact dropStart?_eq_none_of_ne plain rest

theorem pinPort_ne_nil (path : String) : (lower (pinPort path)).toList ≠ [] := by
  have nonempty : pinPort path ≠ "" := by
    simp only [pinPort]
    split
    · intro empty
      have lists := congrArg toList empty
      rw [toList_append] at lists
      cases lists
    · exact (Naming.isIdentifier_sanitize path).nonempty
  intro empty
  rw [toList_lower, map_eq_nil_iff] at empty
  exact nonempty (String.toList_inj.mp empty)

theorem looksInner_port (path : String) (number : Nat) :
    looksInner (Naming.candidate (pinPort path) number) = false := by
  by_contra inner
  obtain ⟨c, rest, text, letter⟩ := exists_of_innerStart (eq_true_of_ne_false inner)
  have start := pinPort_start path
  cases number with
  | zero => exact start _ text
  | succ number =>
    rw [Naming.candidate_succ, lower_numbered, toList_append, toList_append,
      toList_toString] at text
    cases chars : (lower (pinPort path)).toList with
    | nil => exact pinPort_ne_nil path chars
    | cons first others =>
      rw [chars] at text start
      cases others with
      | nil =>
        have digits : Nat.toDigits 10 (number + 1) = c :: rest :=
          (List.cons.inj (List.cons.inj text).2).2
        have digit : c.isDigit = true :=
          Nat.isDigit_of_mem_toDigits (b := 10) (by omega) (by omega)
            (digits ▸ mem_cons_self ..)
        rw [isLetter_of_isDigit digit] at letter
        cases letter
      | cons second others =>
        have heads := (List.cons.inj text).1
        have seconds := (List.cons.inj (List.cons.inj text).2).1
        exact start others (by rw [heads, seconds])

def instanceCategories : List String :=
  "CIRCUIT" :: "COMPONENT" :: Variant.categories.map upper

theorem Component.instanceCategory_mem (component : Component) :
    component.instanceCategory ∈ instanceCategories := by
  simp only [instanceCategory]
  split
  · exact mem_cons_self ..
  · split
    case h_1 variant _ =>
      exact mem_cons_of_mem _ (mem_cons_of_mem _
        (mem_map.mpr ⟨_, variant.category_mem, rfl⟩))
    case h_2 => exact mem_cons_of_mem _ (mem_cons_self ..)

theorem category_chars : ∀ category ∈ instanceCategories,
    '_' ∉ (lower category).toList ∧ (lower category).toList ∉ ["net".toList, "bus".toList] ∧
      (lower category).toList.headD 's' ≠ 's' ∧
      Naming.isLetter ((lower category).toList.headD 's') = true := by
  decide

namespace Names

theorem lower_label (component : Component) (number : Nat) :
    ∃ rest, (lower (Naming.candidate (labelBase component) number)).toList =
        (lower component.instanceCategory).toList ++
          '_' :: ((toString component.id).toList ++ rest) ∧
      (rest = [] ∨ ∃ behind, rest = '_' :: behind) := by
  cases number with
  | zero =>
    refine ⟨[], ?_, .inl rfl⟩
    rw [Naming.candidate, labelBase, lower_append, lower_append, lower_toString_int]
    simp [toList_append]
    rfl
  | succ number =>
    refine ⟨'_' :: (toString (number + 1)).toList, ?_, .inr ⟨_, rfl⟩⟩
    rw [Naming.candidate_succ, lower_numbered, labelBase, lower_append, lower_append,
      lower_toString_int]
    simp [toList_append]
    rfl

theorem looksInner_label (component : Component) (number : Nat) :
    looksInner (Naming.candidate (labelBase component) number) = false := by
  obtain ⟨rest, chars, _⟩ := lower_label component number
  have word := category_chars _ component.instanceCategory_mem
  rw [looksInner, chars]
  cases category : (lower component.instanceCategory).toList with
  | nil => rw [category] at word; exact absurd rfl word.2.2.1
  | cons c others =>
    rw [category] at word
    exact innerStart_of_head word.2.2.1

end Names

/-- The wire between an instance and its port. -/
def wireOf (label port : String) : String :=
  "s_" ++ label ++ "_" ++ port

theorem PortNeed.wire_eq (need : PortNeed) : need.wire = wireOf need.label need.port := rfl

theorem lower_wireOf (component : Component) (number : Nat) (port : String) :
    ∃ rest, (lower (wireOf (Naming.candidate (Names.labelBase component) number) port)).toList =
      's' :: '_' :: ((lower component.instanceCategory).toList ++
        '_' :: ((toString component.id).toList ++ '_' :: rest)) := by
  obtain ⟨rest, label, behind⟩ := Names.lower_label component number
  have mark : (lower "s_").toList = ['s', '_'] := by decide
  have underscore : (lower "_").toList = ['_'] := by decide
  rw [wireOf, lower_append, lower_append, lower_append, toList_append,
    toList_append, toList_append, label, mark, underscore]
  obtain rfl | ⟨behind, rfl⟩ := behind
  · exact ⟨(lower port).toList, by simp⟩
  · exact ⟨behind ++ '_' :: (lower port).toList, by simp⟩

theorem looksInner_wireOf (component : Component) (number : Nat) (port : String) :
    looksInner (wireOf (Naming.candidate (Names.labelBase component) number) port) = true := by
  obtain ⟨rest, chars⟩ := lower_wireOf component number port
  have word := category_chars _ component.instanceCategory_mem
  rw [looksInner, chars]
  cases category : (lower component.instanceCategory).toList with
  | nil => rw [category] at word; exact absurd rfl word.2.2.1
  | cons c others =>
    rw [category] at word
    exact word.2.2.2

theorem id_of_lower_wireOf {first second : Component} {firstNumber secondNumber : Nat}
    {firstPort secondPort : String}
    (same : lower (wireOf (Naming.candidate (Names.labelBase first) firstNumber) firstPort) =
      lower (wireOf (Naming.candidate (Names.labelBase second) secondNumber) secondPort)) :
    first.id = second.id := by
  obtain ⟨firstRest, firstChars⟩ := lower_wireOf first firstNumber firstPort
  obtain ⟨secondRest, secondChars⟩ := lower_wireOf second secondNumber secondPort
  rw [same, secondChars] at firstChars
  have behind := (List.cons.inj (List.cons.inj firstChars).2).2
  have numbers := (append_first_underscore_inj (category_chars _ second.instanceCategory_mem).1
    (category_chars _ first.instanceCategory_mem).1 behind).2
  have unmarked := not_mem_toString_int (by decide : '_' ≠ '-') (by decide)
  have ids := (append_first_underscore_inj (unmarked _) (unmarked _) numbers).1
  exact toString_int_injective (String.toList_inj.mp ids.symm)

theorem lower_port_of_wireOf {label first second : String}
    (same : lower (wireOf label first) = lower (wireOf label second)) :
    lower first = lower second := by
  rw [wireOf, wireOf, lower_append, lower_append _ second] at same
  exact (String.append_right_inj _).mp same

def Net.word (net : Net) : String :=
  if net.isBus then "bus" else "net"

theorem Net.word_mem (net : Net) : net.word.toList ∈ ["net".toList, "bus".toList] := by
  unfold word
  split <;> decide

theorem Net.underscore_not_mem_word (net : Net) : '_' ∉ net.word.toList := by
  unfold word
  split <;> decide

theorem Net.lower_signal (net : Net) : (lower net.signal).toList = 's' :: '_' :: (net.word.toList ++
      '_' :: (toString net.id).toList) := by
  have words : (lower "s_bus_").toList = 's' :: '_' :: ("bus".toList ++ ['_']) ∧
      (lower "s_net_").toList = 's' :: '_' :: ("net".toList ++ ['_']) := by decide
  rw [Net.signal, lower_append, toList_append, lower_toString_int, word]
  split
  · rw [words.1]; simp
  · rw [words.2]; simp

theorem Net.looksInner_signal (net : Net) : looksInner net.signal = true := by
  rw [looksInner, net.lower_signal, word]
  split <;> rfl

theorem Net.id_of_lower_signal {first second : Net}
    (same : lower first.signal = lower second.signal) : first.id = second.id := by
  have lists := congrArg toList same
  rw [first.lower_signal, second.lower_signal] at lists
  have behind := (List.cons.inj (List.cons.inj lists).2).2
  have ids := (append_first_underscore_inj first.underscore_not_mem_word
    second.underscore_not_mem_word behind).2
  exact toString_int_injective (String.toList_inj.mp ids)

theorem Net.lower_signal_ne (net : Net) (component : Component) (number : Nat) (port : String) :
    lower net.signal ≠
      lower (wireOf (Naming.candidate (Names.labelBase component) number) port) := by
  intro same
  have word := category_chars _ component.instanceCategory_mem
  obtain ⟨rest, chars⟩ := lower_wireOf component number port
  have lists := congrArg toList same
  rw [net.lower_signal, chars] at lists
  have behind := (List.cons.inj (List.cons.inj lists).2).2
  have words := (append_first_underscore_inj net.underscore_not_mem_word word.1 behind).1
  have listed := net.word_mem
  rw [words] at listed
  exact word.2.1 listed

end Schematic
