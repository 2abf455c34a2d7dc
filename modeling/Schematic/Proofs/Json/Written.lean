import Schematic.Json.Reader
import Schematic.Proofs.Text.Numeral

/-! # Reading written JSON back -/

open List
open String (ofList ofList_toList toList_append toList_ofList)

namespace Schematic.Json

def unitCodes : List Nat :=
  range 0x20 ++ [0x3c, 0x3e, 0x26, 0x2028, 0x2029]

theorem readUnit?_hexDigits {code : Nat} (listed : code ∈ unitCodes) (rest : List Char) :
    readUnit? (Text.hexDigits 4 code ++ rest) = some (code, rest) ∧
      joinUnit code rest = (Char.ofNat code, rest) := by
  have each : ∀ code ∈ unitCodes, (Text.hexDigits 4 code).length = 4 ∧
      Word.digitsValue? 16 (Text.hexDigits 4 code) = some code ∧ code < 0xD800 := by decide
  obtain ⟨size, value, small⟩ := each code listed
  constructor
  · generalize Text.hexDigits 4 code = digits at size value
    obtain ⟨a, b, c, d, rfl⟩ : ∃ a b c d, digits = [a, b, c, d] := by
      match digits, size with
      | [a, b, c, d], _ => exact ⟨a, b, c, d, rfl⟩
    simp [readUnit?, value]
  · have high : ¬ 0xD800 ≤ code := by omega
    have low : ¬ 0xDC00 ≤ code := by omega
    simp [joinUnit, high, low]

theorem readString?_writeChar (done : List Char) (steps : Nat) (c : Char) (rest : List Char) :
    readString? done (steps + 1) (writeChar c ++ rest) = readString? (c :: done) steps rest := by
  have coded : Char.ofNat c.toNat = c := Char.ofNat_toNat c
  rw [writeChar.eq_def]
  split
  any_goals rfl
  case _ other quote backslash _ _ _ =>
    dsimp only
    split
    case isTrue code =>
      rw [← coded, beq_iff_eq.mp code]
      rfl
    split
    case isTrue code =>
      rw [← coded, beq_iff_eq.mp code]
      rfl
    split
    case isTrue escaped =>
      have listed : c.toNat ∈ unitCodes := by
        simp only [Bool.or_eq_true, decide_eq_true_eq, beq_iff_eq] at escaped
        rw [unitCodes, mem_append, mem_range]
        obtain ((((small | rfl) | rfl) | rfl) | code) | code := escaped
        · exact .inl small
        all_goals simp [*]
      obtain ⟨read, joined⟩ := readUnit?_hexDigits listed rest
      rw [cons_append, cons_append, readString?, read]
      dsimp only
      rw [joined, coded]
    case isFalse plain =>
      simp only [Bool.or_eq_true, decide_eq_true_eq, not_or] at plain
      rw [singleton_append, readString?]
      · exact if_neg plain.1.1.1.1.1
      all_goals simp_all

theorem length_writeChar_pos (c : Char) : 0 < (writeChar c).length := by
  rw [writeChar.eq_def]
  split
  any_goals exact Nat.succ_pos _
  dsimp only
  repeat' split
  all_goals simp

theorem toList_writeString (text : String) :
    (writeString text).toList = '"' :: (text.toList.flatMap writeChar ++ ['"']) := by
  rw [writeString, toList_ofList]
  rfl

theorem readString?_flatMap {text rest : List Char} {steps : Nat} (done : List Char)
    (enough : (text.flatMap writeChar).length < steps) :
    readString? done steps (text.flatMap writeChar ++ '"' :: rest) =
      some (ofList (done.reverse ++ text), rest) := by
  obtain ⟨steps, rfl⟩ := Nat.exists_eq_succ_of_ne_zero (by omega : steps ≠ 0)
  induction text generalizing done steps with
  | nil =>
    rw [append_nil]
    rfl
  | cons c text ih =>
    have shorter := length_writeChar_pos c
    rw [flatMap_cons, length_append] at enough
    obtain ⟨steps, rfl⟩ := Nat.exists_eq_succ_of_ne_zero (by omega : steps ≠ 0)
    rw [flatMap_cons, append_assoc, readString?_writeChar, ih _ _ (by omega), reverse_cons,
      append_assoc, singleton_append]

/-- A numeral cannot go on with these characters. -/
def Ends (rest : List Char) : Prop :=
  ∀ c ∈ rest.head?, isDigit c = false ∧ c ∉ ['.', 'e', 'E']

theorem head_toDigits {n : Nat} (positive : 0 < n) : (Nat.toDigits 10 n).head? ≠ some '0' := by
  induction n using Nat.strongRecOn with
  | ind n ih =>
    rw [Nat.toDigits_eq_if (by omega)]
    split
    case isTrue small =>
      have each : ∀ n < 10, 0 < n → [Nat.digitChar n].head? ≠ some '0' := by decide
      exact each n small positive
    case isFalse large =>
      have first := ih (n / 10) (by omega) (by omega)
      have filled := Nat.toDigits_ne_nil (n := n / 10) (b := 10)
      cases digits : Nat.toDigits 10 (n / 10) with
      | nil => exact absurd digits filled
      | cons c digits' => rwa [digits] at first

theorem readWhole?_toDigits (n : Nat) {rest : List Char} (ends : Ends rest) :
    readWhole? (Nat.toDigits 10 n ++ rest) = some (Nat.toDigits 10 n, rest) := by
  obtain rfl | positive := Nat.eq_zero_or_pos n
  · rfl
  have first := head_toDigits positive
  have digits : ∀ c ∈ Nat.toDigits 10 n, isDigit c = true := fun c member =>
    Nat.isDigit_of_mem_toDigits (by omega) (by omega) member
  have parts : (Nat.toDigits 10 n ++ rest).takeWhile isDigit = Nat.toDigits 10 n ∧
      (Nat.toDigits 10 n ++ rest).dropWhile isDigit = rest := by
    rw [takeWhile_append_of_pos digits, dropWhile_append_of_pos digits]
    cases rest with
    | nil => simp
    | cons c rest => simp [(ends c rfl).1]
  obtain ⟨c, more, whole⟩ := exists_cons_of_ne_nil (Nat.toDigits_ne_nil (n := n) (b := 10))
  rw [whole] at first parts ⊢
  rw [readWhole?, readDigits?, parts.1, parts.2]
  rintro more ⟨⟩
  exact first rfl

theorem readNumeral?_toString (n : Int) {rest : List Char} (ends : Ends rest) :
    readNumeral? ((toString n).toList ++ rest) = some (toString n, rest) := by
  obtain ⟨sign, signs, text⟩ := Text.toList_toString_int n
  have whole := readWhole?_toDigits n.natAbs ends
  have fraction : readFraction? rest = some ([], rest) := by
    cases rest with
    | nil => rfl
    | cons c rest =>
      rw [readFraction?]
      rintro rest ⟨⟩
      exact (ends '.' rfl).2 (by simp)
  have exponent : readExponent? rest = some ([], rest) := by
    cases rest with
    | nil => rfl
    | cons c rest =>
      have other := (ends c rfl).2
      simp only [mem_cons, not_mem_nil, or_false, not_or] at other
      simp [readExponent?, other]
  have result : some (ofList (sign ++ Nat.toDigits 10 n.natAbs ++ [] ++ []), rest) =
      some (toString n, rest) := by
    rw [append_nil, append_nil, ← text, ofList_toList]
  rw [text, append_assoc, readNumeral?.eq_def]
  obtain rfl | rfl : sign = [] ∨ sign = ['-'] := by simpa using signs
  · split
    case _ _ digits same =>
      split at same
      case _ start =>
        obtain ⟨c, more, first⟩ :=
          exists_cons_of_ne_nil (Nat.toDigits_ne_nil (n := n.natAbs) (b := 10))
        rw [first] at start
        cases start
        exact absurd first (Text.toDigits_ne_minus_cons _ _)
      case _ =>
        cases same
        simpa [whole, fraction, exponent] using result
  · simpa [whole, fraction, exponent] using result

/-- A value nested at most this deep whose numbers are integers. -/
def Readable : Nat → Json → Prop
  | _, .null => True
  | _, .bool _ => True
  | _, .string _ => True
  | _, .number numeral => ∃ n : Int, numeral = toString n
  | 0, .array _ => False
  | 0, .object _ => False
  | depth + 1, .array items => ∀ item ∈ items, Readable depth item
  | depth + 1, .object members => ∀ member ∈ members, Readable depth member.2

theorem skipSpace_newline (level : Nat) {text : List Char}
    (shown : ∀ c ∈ text.head?, isSpace c = false) :
    skipSpace ((newline level).toList ++ text) = text := by
  have blank : ∀ c ∈ (newline level).toList, isSpace c = true := by
    intro c member
    rw [newline, toList_ofList] at member
    obtain rfl | member := mem_cons.mp member
    · rfl
    · rw [eq_of_mem_replicate member]
      rfl
  rw [skipSpace, dropWhile_append_of_pos blank]
  cases text with
  | nil => rfl
  | cons c text => exact dropWhile_cons_of_neg (by simp [shown c rfl])

theorem ends_newline (level : Nat) (rest : List Char) : Ends ((newline level).toList ++ rest) := by
  rw [newline, toList_ofList]
  rintro c ⟨⟩
  decide

variable {depth level limit steps : Nat} {rest : List Char} {value : Json}

/-- What follows an entry of a list: the other entries, each on its own line, and the bracket. -/
def behind (level : Nat) (close : Char) (rest : List Char) : List String → List Char
  | [] => (newline level).toList ++ close :: rest
  | text :: texts =>
    ',' :: ((newline (level + 1)).toList ++ (text.toList ++ behind level close rest texts))

theorem intercalate_append (level : Nat) (close : Char) (rest : List Char) (text : String)
    (texts : List String) :
    (("," ++ newline (level + 1)).intercalate (text :: texts)).toList ++
      ((newline level).toList ++ close :: rest) = text.toList ++ behind level close rest texts := by
  induction texts generalizing text with
  | nil => simp [behind]
  | cons next texts ih =>
    rw [behind, ← ih, String.intercalate_cons_cons]
    simp

theorem length_behind_le (level : Nat) (close : Char) (rest : List Char) (texts : List String) :
    rest.length + 1 < (behind level close rest texts).length := by
  induction texts with
  | nil =>
    rw [behind, newline, toList_ofList, length_append, length_cons, length_cons]
    omega
  | cons text texts ih =>
    rw [behind, length_cons, length_append, length_append]
    omega

theorem ends_behind (level : Nat) (close : Char) (rest : List Char) (texts : List String) :
    Ends (behind level close rest texts) := by
  cases texts with
  | nil => exact ends_newline level _
  | cons =>
    rintro c ⟨⟩
    decide

/-- One entry of a bracketed list is read, up to the bracket or the comma behind it. -/
structure ReadsEntry {α : Type} (read : Nat → List Char → Option (List α × List Char))
    (close : Char) (text : String) (item : α) : Prop where
  starts : ∃ c more, text.toList = c :: more ∧ isSpace c = false ∧ c ≠ close
  last : ∀ {steps more next}, text.toList.length < steps → Ends more →
    skipSpace more = close :: next → read (steps + 1) (text.toList ++ more) = some ([item], next)
  other : ∀ {steps more next}, text.toList.length < steps → Ends more →
    skipSpace more = ',' :: next → read (steps + 1) (text.toList ++ more) =
      (read steps (skipSpace next)).map fun found => (item :: found.1, found.2)

section Entries

variable {α : Type} {read : Nat → List Char → Option (List α × List Char)} {close : Char}
  {text : α → String} {item : α} {items : List α}

theorem ReadsEntry.skipSpace_eq {text : String} (entry : ReadsEntry read close text item)
    (level : Nat) (rest : List Char) :
    skipSpace ((newline level).toList ++ (text.toList ++ rest)) = text.toList ++ rest := by
  obtain ⟨c, more, starts, visible, -⟩ := entry.starts
  refine skipSpace_newline level ?_
  rw [starts]
  rintro _ ⟨⟩
  exact visible

theorem read_behind (visible : isSpace close = false)
    (each : ∀ item' ∈ item :: items, ReadsEntry read close (text item') item')
    (enough : ((text item).toList ++ behind level close rest (items.map text)).length <
      steps + rest.length) :
    read steps ((text item).toList ++ behind level close rest (items.map text)) =
      some (item :: items, rest) := by
  have longer := length_behind_le level close rest (items.map text)
  have ends := ends_behind level close rest (items.map text)
  rw [length_append] at enough
  obtain ⟨steps, rfl⟩ := Nat.exists_eq_succ_of_ne_zero (by omega : steps ≠ 0)
  obtain ⟨here, later⟩ := forall_mem_cons.mp each
  induction items generalizing item steps with
  | nil =>
    refine here.last (by omega) ends (skipSpace_newline level ?_)
    rintro _ ⟨⟩
    exact visible
  | cons next items ih =>
    have shorter := length_behind_le level close rest (items.map text)
    rw [map_cons, behind] at ends ⊢
    rw [map_cons, behind, length_cons, length_append, length_append] at enough
    rw [here.other (by omega) ends rfl, (later next (mem_cons_self ..)).skipSpace_eq]
    obtain ⟨steps, rfl⟩ := Nat.exists_eq_succ_of_ne_zero (by omega : steps ≠ 0)
    rw [ih later shorter (ends_behind _ _ _ _) steps (by omega) (later next (mem_cons_self ..))
      (forall_mem_cons.mp later).2]
    rfl

end Entries

/-- The value is read back wherever it is written, with fuel for each of its characters. -/
structure ReadsBack (limit level : Nat) (value : Json) : Prop where
  read : ∀ steps rest, (value.indentedAt level).toList.length < steps → Ends rest →
    readValue? limit steps ((value.indentedAt level).toList ++ rest) = some (value, rest)
  starts : ∃ c text, (value.indentedAt level).toList = c :: text ∧ isSpace c = false ∧ c ≠ ']'

theorem ReadsBack.item (back : ReadsBack limit level value) :
    ReadsEntry (readItems? limit) ']' (value.indentedAt level) value := by
  refine ⟨back.starts, fun enough ends close => ?_, fun enough ends comma => ?_⟩
  · rw [readItems?, back.read _ _ enough ends]
    simp only [close]
  · rw [readItems?, back.read _ _ enough ends]
    simp only [comma]

def memberText (level : Nat) (member : String × Json) : String :=
  writeString member.1 ++ ": " ++ member.2.indentedAt level

theorem ReadsBack.member {member : String × Json} (back : ReadsBack limit level member.2) :
    ReadsEntry (readMembers? limit) '\x7d' (memberText level member) member := by
  have text : ∀ more, (memberText level member).toList ++ more = '"' ::
      (member.1.toList.flatMap writeChar ++
        '"' :: ':' :: ' ' :: ((member.2.indentedAt level).toList ++ more)) := by
    intro more
    simp [memberText, toList_writeString]
  have size := congrArg length (text [])
  simp only [append_nil, length_cons, length_append] at size
  have blank : ∀ more, skipSpace (' ' :: ((member.2.indentedAt level).toList ++ more)) =
      (member.2.indentedAt level).toList ++ more := by
    intro more
    obtain ⟨c, rest, starts, visible, -⟩ := back.starts
    simp [skipSpace, starts, visible, show isSpace ' ' = true by rfl]
  have colon : ∀ text, skipSpace (':' :: text) = ':' :: text := fun _ => rfl
  refine ⟨⟨_, _, by simpa using text [], by decide, by decide⟩, ?_, ?_⟩
  all_goals
    intro steps more next enough ends found
    rw [text, readMembers?, readString?_flatMap [] (by omega)]
    simp only [colon, blank, back.read steps more (by omega) ends, found, reverse_nil, nil_append,
      ofList_toList]

theorem indentedItems_eq (level : Nat) (items : List Json) :
    indentedItems level items = items.map (indentedAt level) := by
  induction items with
  | nil => rfl
  | cons item items ih => rw [indentedItems, ih, map_cons]

theorem indentedMembers_eq (level : Nat) (members : List (String × Json)) :
    indentedMembers level members = members.map (memberText level) := by
  induction members with
  | nil => rfl
  | cons member members ih => rw [indentedMembers, ih, map_cons, memberText]

theorem readsBack_string (text : String) : ReadsBack limit level (.string text) := by
  have written : (indentedAt level (.string text)).toList =
      '"' :: (text.toList.flatMap writeChar ++ ['"']) := by
    rw [indentedAt, toList_writeString]
  refine ⟨fun steps rest enough ends => ?_, ⟨_, _, written, by decide, by decide⟩⟩
  rw [written] at enough ⊢
  simp only [length_cons, length_append] at enough
  obtain ⟨steps, rfl⟩ := Nat.exists_eq_succ_of_ne_zero (by omega : steps ≠ 0)
  rw [cons_append, append_assoc, singleton_append, readValue?,
    readString?_flatMap [] (by omega), reverse_nil, nil_append, ofList_toList]
  rfl

theorem readsBack_number (n : Int) : ReadsBack limit level (.number (toString n)) := by
  obtain ⟨c, more, first⟩ : ∃ c more, (toString n).toList = c :: more := by
    obtain ⟨sign, -, digits⟩ := Text.toList_toString_int n
    refine exists_cons_of_ne_nil ?_
    rw [digits]
    exact append_ne_nil_of_right_ne_nil _ Nat.toDigits_ne_nil
  have plain : ∀ other ∈ "ntf\"[\x7b] \t\n\r".toList, c ≠ other := by
    have each : ("ntf\"[\x7b] \t\n\r".toList.all fun c => c != '-' && !c.isDigit) = true := by
      decide
    rintro other listed rfl
    have sign := all_eq_true.mp each c listed
    simp only [Bool.and_eq_true, bne_iff_ne, Bool.not_eq_true'] at sign
    exact Text.not_mem_toString_int sign.1 sign.2 n (first ▸ mem_cons_self ..)
  simp at plain
  refine ⟨fun steps rest enough ends => ?_, ⟨c, more, by rw [indentedAt, first], ?_, ?_⟩⟩
  · obtain ⟨steps, rfl⟩ := Nat.exists_eq_succ_of_ne_zero (by omega : steps ≠ 0)
    have read := readNumeral?_toString n ends
    rw [first, cons_append] at read
    rw [indentedAt, first, cons_append, readValue?, read]
    · rfl
    all_goals simp [plain]
  · simp [isSpace, plain]
  · simp [plain]

theorem readsBack_array {items : List Json}
    (each : ∀ item ∈ items, ReadsBack limit (level + 1) item) :
    ReadsBack (limit + 1) level (.array items) := by
  cases items with
  | nil =>
    have written : (indentedAt level (.array [])).toList = ['[', ']'] := by
      rw [indentedAt]
      rfl
    refine ⟨fun steps rest enough _ => ?_, ⟨_, _, written, by decide, by decide⟩⟩
    obtain ⟨steps, rfl⟩ := Nat.exists_eq_succ_of_ne_zero (by omega : steps ≠ 0)
    rw [written]
    rfl
  | cons item items =>
    have written : ∀ rest, (indentedAt level (.array (item :: items))).toList ++ rest =
        '[' :: ((newline (level + 1)).toList ++ ((item.indentedAt (level + 1)).toList ++
          behind level ']' rest (items.map (indentedAt (level + 1))))) := by
      intro rest
      rw [← intercalate_append, indentedAt, indentedItems_eq]
      · simp
      · simp
    have entries := fun item listed => (each item listed).item
    have entry := entries item (mem_cons_self ..)
    refine ⟨fun steps rest enough ends => ?_, ⟨_, _, by simpa using written [], rfl, by decide⟩⟩
    have size := congrArg length (written rest)
    simp only [length_cons, length_append] at size
    obtain ⟨steps, rfl⟩ := Nat.exists_eq_succ_of_ne_zero (by omega : steps ≠ 0)
    rw [written, readValue?, if_neg (by simp), entry.skipSpace_eq]
    split
    case _ closed =>
      obtain ⟨c, text, starts, -, other⟩ := entry.starts
      rw [starts] at closed
      cases closed
      exact absurd rfl other
    case _ =>
      rw [Nat.add_sub_cancel, read_behind (by decide) entries]
      · rfl
      · rw [length_append]
        omega

theorem readsBack_object {members : List (String × Json)}
    (each : ∀ member ∈ members, ReadsBack limit (level + 1) member.2) :
    ReadsBack (limit + 1) level (.object members) := by
  cases members with
  | nil =>
    have written : (indentedAt level (.object [])).toList = ['\x7b', '\x7d'] := by
      rw [indentedAt]
      rfl
    refine ⟨fun steps rest enough _ => ?_, ⟨_, _, written, by decide, by decide⟩⟩
    obtain ⟨steps, rfl⟩ := Nat.exists_eq_succ_of_ne_zero (by omega : steps ≠ 0)
    rw [written]
    rfl
  | cons member members =>
    have written : ∀ rest, (indentedAt level (.object (member :: members))).toList ++ rest =
        '\x7b' :: ((newline (level + 1)).toList ++ ((memberText (level + 1) member).toList ++
          behind level '\x7d' rest (members.map (memberText (level + 1))))) := by
      intro rest
      rw [← intercalate_append, indentedAt, indentedMembers_eq]
      · simp
      · simp
    have entries := fun member listed => (each member listed).member
    have entry := entries member (mem_cons_self ..)
    refine ⟨fun steps rest enough ends => ?_, ⟨_, _, by simpa using written [], rfl, by decide⟩⟩
    have size := congrArg length (written rest)
    simp only [length_cons, length_append] at size
    obtain ⟨steps, rfl⟩ := Nat.exists_eq_succ_of_ne_zero (by omega : steps ≠ 0)
    rw [written, readValue?, if_neg (by simp), entry.skipSpace_eq]
    split
    case _ closed =>
      obtain ⟨c, text, starts, -, other⟩ := entry.starts
      rw [starts] at closed
      cases closed
      exact absurd rfl other
    case _ =>
      rw [Nat.add_sub_cancel, read_behind (by decide) entries]
      · rfl
      · rw [length_append]
        omega

theorem readsBack_literal (literal : value = .null ∨ ∃ truth, value = .bool truth) :
    ReadsBack limit level value := by
  obtain rfl | ⟨_ | _, rfl⟩ := literal
  all_goals
    refine ⟨fun steps rest enough _ => ?_, ?_⟩
    · obtain ⟨steps, rfl⟩ := Nat.exists_eq_succ_of_ne_zero (by omega : steps ≠ 0)
      rw [indentedAt]
      rfl
    · rw [indentedAt]
      exact ⟨_, _, rfl, by decide, by decide⟩

theorem readsBack (readable : Readable depth value) (deep : depth ≤ limit) (level : Nat) :
    ReadsBack limit level value := by
  fun_induction Readable depth value generalizing limit level with
  | case1 => exact readsBack_literal (.inl rfl)
  | case2 _ truth => exact readsBack_literal (.inr ⟨truth, rfl⟩)
  | case3 _ text => exact readsBack_string text
  | case4 =>
    obtain ⟨n, rfl⟩ := readable
    exact readsBack_number n
  | case5 => exact readable.elim
  | case6 => exact readable.elim
  | case7 depth items ih =>
    obtain ⟨limit, rfl⟩ := Nat.exists_eq_succ_of_ne_zero (by omega : limit ≠ 0)
    exact readsBack_array fun item listed => ih item (readable item listed) (by omega) _
  | case8 depth members ih =>
    obtain ⟨limit, rfl⟩ := Nat.exists_eq_succ_of_ne_zero (by omega : limit ≠ 0)
    exact readsBack_object fun member listed => ih member (readable member listed) (by omega) _

/-- What is written of a value that is not too deep is read as that value. -/
theorem read?_indented (readable : Readable depth value) (deep : depth ≤ greatestDepth) :
    read? value.indented = some value := by
  have back := readsBack readable deep 0
  obtain ⟨c, text, starts, visible, -⟩ := back.starts
  have read := back.read (value.indented.toList.length + 1) [] (Nat.lt_succ_self _) (by simp [Ends])
  have first : skipSpace value.indented.toList = value.indented.toList := by
    rw [indented, starts]
    exact dropWhile_cons_of_neg (by simp [visible])
  rw [append_nil, ← indented] at read
  rw [read?, readFirst?, first, read]
  rfl

end Schematic.Json
