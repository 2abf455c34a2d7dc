import Schematic.Naming.Template
import Schematic.Proofs.Naming.Registry
import Schematic.Proofs.Text.Split

/-! # Identifiers of modules, and legal names -/

open List

namespace Schematic

namespace Naming

variable {c : Char} {text name : String} {n : Nat}

/-- Whether a character can stand in an identifier. -/
def isNameChar (c : Char) : Bool :=
  isWordChar c || c == '_'

/-- A text that consists of letters, digits and underscores. -/
structure IsIdentifier (name : String) : Prop where
  nonempty : name ≠ ""
  chars : ∀ c ∈ name.toList, isNameChar c = true

theorem isNameChar_of_mem_intercalate {pieces : List String}
    (plain : ∀ piece ∈ pieces, ∀ c ∈ piece.toList, isNameChar c = true)
    (member : c ∈ ("_".intercalate pieces).toList) : isNameChar c = true := by
  rw [String.toList_intercalate] at member
  induction pieces with
  | nil => cases member
  | cons piece pieces ih =>
    have here := plain piece (mem_cons_self ..)
    have rest := ih fun piece listed => plain piece (mem_cons_of_mem _ listed)
    cases pieces with
    | nil =>
      simp only [map_cons, map_nil, intercalate_singleton] at member
      exact here c member
    | cons next pieces =>
      simp only [map_cons, intercalate_cons_cons, mem_append] at member
      obtain (member | member) | member := member
      · exact here c member
      · rw [mem_singleton.mp member]
        rfl
      · exact rest member

theorem isNameChar_of_mem_wordsOf (member : c ∈ (wordsOf text).toList) : isNameChar c = true := by
  refine isNameChar_of_mem_intercalate ?_ member
  intro piece listed c member
  simp only [Text.fields, mem_map, mem_filter] at listed
  obtain ⟨chars, ⟨split, _⟩, rfl⟩ := listed
  rw [String.toList_ofList] at member
  have word := Text.not_separator_of_mem_splitList split member
  rw [Bool.not_eq_false'] at word
  simp only [isNameChar, word, Bool.true_or]

theorem IsIdentifier.append {first second : String} (identifier : IsIdentifier first)
    (plain : ∀ c ∈ second.toList, isNameChar c = true) : IsIdentifier (first ++ second) := by
  refine ⟨?_, ?_⟩
  · intro empty
    have parts := congrArg String.toList empty
    rw [String.toList_append] at parts
    exact identifier.nonempty (String.toList_inj.mp (append_eq_nil_iff.mp parts).1)
  · intro c member
    rw [String.toList_append, mem_append] at member
    obtain member | member := member
    · exact identifier.chars c member
    · exact plain c member

theorem isNameChar_of_all (all : text.toList.all isNameChar = true) :
    ∀ c ∈ text.toList, isNameChar c = true :=
  all_eq_true.mp all

theorem isIdentifier_sanitize (text : String) : IsIdentifier (sanitize text) := by
  have mark : IsIdentifier "L_" := ⟨by decide, isNameChar_of_all (by decide)⟩
  simp only [sanitize]
  split
  · exact mark.append (isNameChar_of_all (by decide))
  case isFalse nonempty =>
    split
    · exact mark.append fun c member => isNameChar_of_mem_wordsOf member
    · exact ⟨nonempty, fun c member => isNameChar_of_mem_wordsOf member⟩

theorem isWordChar_of_isDigit (digit : c.isDigit = true) : isWordChar c = true := by
  simp only [Char.isDigit, Bool.and_eq_true, decide_eq_true_eq] at digit
  have word : ('0' ≤ c && c ≤ '9') = true := by
    simp only [Bool.and_eq_true, decide_eq_true_eq]
    exact digit
  simp only [isWordChar, word, Bool.or_true]

theorem isDigit_of_mem_toString (member : c ∈ (toString n).toList) : c.isDigit = true := by
  rw [Text.toList_toString] at member
  exact Nat.isDigit_of_mem_toDigits (by omega) (by omega) member

theorem isNameChar_of_mem_toString (member : c ∈ (toString n).toList) : isNameChar c = true := by
  rw [isNameChar, isWordChar_of_isDigit (isDigit_of_mem_toString member), Bool.true_or]

theorem IsIdentifier.candidate (identifier : IsIdentifier name) (number : Nat) :
    IsIdentifier (candidate name number) := by
  cases number with
  | zero => exact identifier
  | succ number =>
    rw [candidate_succ]
    exact (identifier.append (isNameChar_of_all (by decide))).append fun c member =>
      isNameChar_of_mem_toString member

theorem Registry.isIdentifier_of_claim {registry later : Registry} {signature module : String}
    (identifiers : ∀ claim ∈ registry.claims, IsIdentifier claim.2) (identifier : IsIdentifier name)
    (claimed : registry.claim name signature = .ok (module, later)) :
    ∀ claim ∈ later.claims, IsIdentifier claim.2 := by
  obtain ⟨_, rfl⟩ | ⟨_, _, ⟨number, rfl, _⟩, rfl⟩ := claim_eq_ok claimed
  · exact identifiers
  · intro claim member
    obtain rfl | member := mem_cons.mp member
    · exact identifier.candidate number
    · exact identifiers claim member

end Naming

end Schematic

/-! ## Legal names -/

namespace Schematic.Naming

open Text

variable {name : String} {c : Char}

/-- Letters and digits, with single underscores between them. -/
inductive Worded : List Char → Prop
  | single {c : Char} : isWordChar c = true → Worded [c]
  | cons {c : Char} {rest : List Char} : isWordChar c = true → Worded rest → Worded (c :: rest)
  | underscore {c : Char} {rest : List Char} :
      isWordChar c = true → Worded rest → Worded (c :: '_' :: rest)

/-- A name that both dialects allow. -/
structure IsLegal (name : String) : Prop where
  worded : Worded name.toList
  letter : startsWithLetter name = true
  unreserved : Hdl.isReserved name = false

namespace Worded

theorem of_word {chars : List Char} (nonempty : chars ≠ [])
    (word : ∀ c ∈ chars, isWordChar c = true) : Worded chars := by
  induction chars with
  | nil => exact absurd rfl nonempty
  | cons c chars ih =>
    have first := word c (mem_cons_self ..)
    cases chars with
    | nil => exact .single first
    | cons next chars =>
      exact .cons first (ih (cons_ne_nil _ _) fun c member =>
        word c (mem_cons_of_mem _ member))

theorem join {first second : List Char} (worded : Worded first) (other : Worded second) :
    Worded (first ++ '_' :: second) := by
  induction worded with
  | single word => exact .underscore word other
  | cons word _ ih => exact .cons word ih
  | underscore word _ ih => exact .underscore word ih

theorem intercalate {pieces : List (List Char)} (nonempty : pieces ≠ [])
    (each : ∀ piece ∈ pieces, Worded piece) : Worded (['_'].intercalate pieces) := by
  induction pieces with
  | nil => exact absurd rfl nonempty
  | cons piece pieces ih =>
    have first := each piece (mem_cons_self ..)
    cases pieces with
    | nil =>
      rw [intercalate_singleton]
      exact first
    | cons next pieces =>
      rw [intercalate_cons_cons, append_assoc]
      exact first.join (ih (cons_ne_nil _ _) fun piece listed =>
        each piece (mem_cons_of_mem _ listed))

end Worded

theorem worded_wordsOf {text : String} (nonempty : wordsOf text ≠ "") :
    Worded (wordsOf text).toList := by
  have pieces : fields (fun c => !isWordChar c) text ≠ [] := by
    intro none
    exact nonempty (by rw [wordsOf, none]; rfl)
  rw [wordsOf, String.toList_intercalate]
  refine Worded.intercalate (fun none => pieces (map_eq_nil_iff.mp none)) ?_
  intro piece listed
  simp only [fields, mem_map, mem_filter] at listed
  obtain ⟨_, ⟨chars, ⟨split, full⟩, rfl⟩, rfl⟩ := listed
  rw [String.toList_ofList]
  refine Worded.of_word (fun none => by simp [none] at full) ?_
  intro c member
  simpa using not_separator_of_mem_splitList split member

theorem toString_ne_nil (n : Nat) : (toString n).toList ≠ [] := by
  rw [toList_toString]
  exact Nat.toDigits_ne_nil

theorem worded_toString (n : Nat) : Worded (toString n).toList :=
  .of_word (toString_ne_nil n) fun _ member =>
    isWordChar_of_isDigit (isDigit_of_mem_toString member)

theorem startsWithLetter_append {first : String} (letter : startsWithLetter first = true)
    (second : String) : startsWithLetter (first ++ second) = true := by
  simp only [startsWithLetter, String.toList_append] at letter ⊢
  cases chars : first.toList with
  | nil => rw [chars] at letter; cases letter
  | cons c rest => rwa [chars] at letter

theorem isReserved_eq_false (test : List Char → Bool)
    (words : (Hdl.vhdlReserved ++ Hdl.verilogReserved).all (fun word => !test word.toList) = true)
    (holds : test (lower name).toList = true) : Hdl.isReserved name = false := by
  have absent : lower name ∉ Hdl.vhdlReserved ++ Hdl.verilogReserved := by
    intro listed
    have other := all_eq_true.mp words _ listed
    rw [holds] at other
    cases other
  rw [mem_append, not_or] at absent
  simp [Hdl.isReserved, absent]

theorem isReserved_mark (name : String) : Hdl.isReserved ("L_" ++ name) = false := by
  refine isReserved_eq_false (fun word => word.take 2 == "l_".toList) (by decide +kernel) ?_
  have mark : lower "L_" = "l_" := by decide
  rw [lower_append, mark, String.toList_append]
  rfl

theorem isReserved_numbered (name : String) (n : Nat) :
    Hdl.isReserved (name ++ "_" ++ toString n) = false := by
  refine isReserved_eq_false
    (fun word => word.contains '_' && word.getLast?.any Char.isDigit) (by decide +kernel) ?_
  have last := List.getLast?_eq_some_getLast (toString_ne_nil n)
  have digit := isDigit_of_mem_toString (getLast_mem (toString_ne_nil n))
  rw [lower_numbered, String.toList_append, List.getLast?_append, last, Option.some_or,
    Option.any_some, digit, Bool.and_true, contains_iff_mem, String.toList_append]
  exact mem_append_left _ (mem_append_right _ (mem_singleton_self _))

theorem isLegal_mark (worded : Worded name.toList) : IsLegal ("L_" ++ name) where
  worded := by
    rw [String.toList_append]
    exact .underscore rfl worded
  letter := startsWithLetter_append rfl name
  unreserved := isReserved_mark name

theorem isLegal_numbered (worded : Worded name.toList)
    (letter : startsWithLetter name = true) (n : Nat) : IsLegal (name ++ "_" ++ toString n) where
  worded := by
    rw [String.toList_append, String.toList_append, append_assoc]
    exact worded.join (worded_toString n)
  letter := startsWithLetter_append (startsWithLetter_append letter _) _
  unreserved := isReserved_numbered name n

theorem IsLegal.candidate (legal : IsLegal name) (number : Nat) :
    IsLegal (candidate name number) := by
  cases number with
  | zero => exact legal
  | succ number =>
    rw [candidate_succ]
    exact isLegal_numbered legal.worded legal.letter _

theorem Worded.chars {chars : List Char} (worded : Worded chars) :
    chars ≠ [] ∧ ∀ c ∈ chars, isNameChar c = true := by
  refine ⟨by cases worded <;> simp, ?_⟩
  induction worded with
  | single word => simp [isNameChar, word]
  | cons word _ ih => simpa [isNameChar, word] using ih
  | underscore word _ ih => simpa [isNameChar, word] using ih

theorem IsLegal.identifier (legal : IsLegal name) : IsIdentifier name := by
  obtain ⟨nonempty, chars⟩ := legal.worded.chars
  exact ⟨fun empty => nonempty (String.toList_eq_nil_iff.mpr empty), chars⟩

theorem isLegal_sanitize (text : String) : IsLegal (sanitize text) := by
  simp only [sanitize]
  split
  · exact isLegal_mark (.of_word (by decide) (all_eq_true.mp (by decide)))
  case isFalse nonempty =>
    have worded := worded_wordsOf nonempty
    split
    · exact isLegal_mark worded
    case isFalse plain =>
      rw [Bool.or_eq_true, not_or, Bool.not_eq_true', Bool.not_eq_false,
        Bool.not_eq_true] at plain
      exact ⟨worded, plain.1, plain.2⟩

end Schematic.Naming
