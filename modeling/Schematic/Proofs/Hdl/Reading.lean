import Schematic.Proofs.Hdl.Bits
import Schematic.Proofs.Hdl.Spelled
import Schematic.Proofs.Scan.Line

/-! # Reading expressions back -/

open List
open Option (bind_eq_bind bind_some map_some)

namespace Schematic.Hdl

open Text Naming

variable {mark : Char}

/-- A part of an expression: a number, a constant bit, a whole signal or a range of one. Signals may
be complemented. -/
inductive Piece where
  | number (value : Int)
  | constant (value : Bool)
  | whole (name : String) (inverted : Bool)
  | part (name : String) (high low : Int) (inverted : Bool)
  deriving DecidableEq, Repr

namespace Piece

def complement : Piece → Piece
  | .number value => .number value
  | .constant value => .constant !value
  | .whole name inverted => .whole name !inverted
  | .part name high low inverted => .part name high low !inverted

def inside (depth : Nat) (piece : Piece) : Piece :=
  if depth % 2 = 1 then piece.complement else piece

end Piece

theorem splitFirst?_pattern {head : List Char} (plain : mark ∉ head) (marks rest : List Char) :
    splitFirst? (mark :: marks) (head ++ (mark :: marks ++ rest)) = some (head, rest) := by
  have found : dropStart? (mark :: marks) (mark :: (marks ++ rest)) = some rest :=
    dropStart?_eq_some.mpr rfl
  rw [Scan.splitFirst?_append plain, cons_append, splitFirst?, found, map_some,
    append_nil]

theorem splitFirst?_eq_none {text : List Char} (plain : mark ∉ text)
    (marks : List Char) : splitFirst? (mark :: marks) text = none := by
  have whole : splitFirst? (mark :: marks) (text ++ []) = none := by
    rw [Scan.splitFirst?_append plain]
    rfl
  rwa [append_nil] at whole

def readNat? (digits : List Char) : Option Nat :=
  if digits ≠ [] ∧ digits.all Char.isDigit then some (Nat.ofDigitChars 10 digits 0) else none

/-- The number that decimal digits with a sign stand for. -/
def readInt? : List Char → Option Int
  | '-' :: digits => (readNat? digits).map Int.negOfNat
  | digits => (readNat? digits).map Int.ofNat

theorem readNat?_toDigits (n : Nat) : readNat? (Nat.toDigits 10 n) = some n := by
  have digits : (Nat.toDigits 10 n).all Char.isDigit = true :=
    all_eq_true.mpr fun c member => Nat.isDigit_of_mem_toDigits (by omega) (by omega) member
  rw [readNat?, if_pos ⟨Nat.toDigits_ne_nil, digits⟩, Nat.ofDigitChars_ten_toDigits]

theorem readInt?_toString (n : Int) : readInt? (toString n).toList = some n := by
  cases n with
  | ofNat n =>
    have form : (toString (Int.ofNat n)).toList = Nat.toDigits 10 n := by
      simp only [Int.toString_eq_repr, Int.repr, Nat.toList_repr]
    rw [form, readInt?, readNat?_toDigits, map_some]
    exact fun rest => toDigits_ne_minus_cons n rest
  | negSucc n =>
    have form : (toString (Int.negSucc n)).toList = '-' :: Nat.toDigits 10 (n + 1) := by
      simp only [Int.toString_eq_repr, Int.repr, String.toList_append, Nat.toList_repr]
      rfl
    rw [form, readInt?, readNat?_toDigits, map_some]
    rfl

def readDigit? (c : Char) : Option Bool :=
  if c = '1' then some true else if c = '0' then some false else none

theorem mapM_readDigit? (bits : List Bool) :
    (bits.map Dialect.digit).mapM readDigit? = some bits := by
  have each : readDigit? ∘ Dialect.digit = some := by
    funext bit
    cases bit <;> rfl
  rw [mapM_map, each]
  induction bits with
  | nil => rfl
  | cons bit bits ih => rw [mapM_cons, ih]; rfl

namespace Dialect

def opening : Dialect → Char
  | .vhdl => '('
  | .verilog => '['

def closing : Dialect → Char
  | .vhdl => ')'
  | .verilog => ']'

/-- What stands between the bounds of a selection. -/
def between : Dialect → List Char
  | .vhdl => " downto ".toList
  | .verilog => [':']

def negation : Dialect → List Char
  | .vhdl => "not".toList
  | .verilog => ['~']

/-- The bits that a word stands for, if it is a constant. -/
def constant? (dialect : Dialect) (word : List Char) : Option (List Bool) :=
  match dialect with
  | .vhdl =>
    match word with
    | ['\'', digit, '\''] => [digit].mapM readDigit?
    | '"' :: rest => if rest.getLast? = some '"' then rest.dropLast.mapM readDigit? else none
    | _ => none
  | .verilog =>
    match word.dropWhile (· != '\'') with
    | '\'' :: 'b' :: digits =>
      if word.takeWhile (· != '\'') = (toString digits.length).toList then digits.mapM readDigit?
      else none
    | _ => none

theorem constant?_eq_none {word : List Char} (tick : '\'' ∉ word) (quote : '"' ∉ word)
    (dialect : Dialect) : dialect.constant? word = none := by
  cases dialect with
  | vhdl =>
    simp only [constant?]
    split
    · exact absurd (mem_cons_self ..) tick
    · exact absurd (mem_cons_self ..) quote
    · rfl
  | verilog =>
    have none : word.dropWhile (· != '\'') = [] := by
      rw [dropWhile_eq_nil_iff]
      intro c member
      rw [bne_iff_ne]
      rintro rfl
      exact tick member
    rw [constant?, none]

/-- What a word stands for: nothing, a constant, a number or a signal. -/
def readWord (dialect : Dialect) (word : List Char) : List Piece :=
  if word = [] ∨ dialect = .vhdl ∧ word = "open".toList then []
  else
    match dialect.constant? word with
    | some bits => bits.map .constant
    | none =>
      match readInt? word with
      | some value => [.number value]
      | none => [.whole (String.ofList word) false]

/-- One position, or two bounds. -/
def readBounds? (dialect : Dialect) (text : List Char) : Option (Int × Int) :=
  match splitFirst? dialect.between text with
  | some (high, low) => do return (← readInt? high, ← readInt? low)
  | none => do
    let position ← readInt? text
    return (position, position)

end Dialect

/-- How far an expression is read: the pieces found, the word at hand, the signal whose bounds are
being read, and the negations and braces that are open. -/
structure Reading where
  pieces : List Piece := []
  word : List Char := []
  selected : Option String := none
  depth : Nat := 0
  braces : Nat := 0

namespace Reading

def add (reading : Reading) (found : List Piece) : Reading :=
  { reading with
    pieces := reading.pieces ++ found.map (Piece.inside reading.depth)
    word := [] }

def flush (dialect : Dialect) (reading : Reading) : Reading :=
  reading.add (dialect.readWord reading.word)

def separate (dialect : Dialect) (reading : Reading) (c : Char) : Option Reading :=
  if c = ' ' then some reading
  else if dialect = .vhdl ∧ c = '&' then some (reading.flush dialect)
  else if dialect = .verilog ∧ c = '\x7b' then
    if reading.word = [] then some { reading with braces := reading.braces + 1 } else none
  else if dialect = .verilog ∧ c = ',' then
    if 0 < reading.braces then some (reading.flush dialect) else none
  else if dialect = .verilog ∧ c = '\x7d' then
    if 0 < reading.braces then
      some { reading.flush dialect with braces := reading.braces - 1 }
    else none
  else some { reading with word := reading.word ++ [c] }

/-- Reads one character. -/
def step (dialect : Dialect) (reading : Reading) (c : Char) : Option Reading :=
  match reading.selected with
  | some name =>
    if c = dialect.closing then do
      let (high, low) ← dialect.readBounds? reading.word
      return { reading.add [.part name high low false] with selected := none }
    else some { reading with word := reading.word ++ [c] }
  | none =>
    if c = '(' ∧ reading.word = dialect.negation then
      some { reading with word := [], depth := reading.depth + 1 }
    else if c = dialect.opening then
      some { reading with word := [], selected := some (String.ofList reading.word) }
    else if c = ')' then
      if 0 < reading.depth then
        some { reading.flush dialect with depth := reading.depth - 1 }
      else none
    else reading.separate dialect c

/-- Whether everything that was opened is closed. -/
def isClosed (reading : Reading) : Bool :=
  reading.selected.isNone && reading.depth == 0 && reading.braces == 0

end Reading

/-- The pieces of an expression, from the most significant down. -/
def Dialect.read (dialect : Dialect) (text : List Char) : Option (List Piece) := do
  let reading ← text.foldlM (Reading.step dialect) {}
  if reading.isClosed then some (reading.flush dialect).pieces else none

def isBreak (c : Char) : Bool :=
  " ()[]\x7b\x7d,&".toList.contains c

def isSign (c : Char) : Bool :=
  isBreak c || "~'\"<=;:.\n".toList.contains c

structure Plain (name : String) : Prop where
  free : ∀ c ∈ name.toList, isSign c = false
  ordinary : name ≠ "not" ∧ name ≠ "open"
  lettered : ∀ c ∈ name.toList.head?, c.isDigit = false ∧ c ≠ '-'

namespace Plain

variable {name : String} (plain : Plain name)
include plain

theorem unbreaking : ∀ c ∈ name.toList, isBreak c = false := by
  intro c member
  have free := plain.free c member
  rw [isSign, Bool.or_eq_false_iff] at free
  exact free.1

theorem not_mem {c : Char} (sign : isSign c = true) : c ∉ name.toList := by
  intro member
  rw [plain.free c member] at sign
  cases sign

theorem readInt?_eq_none : readInt? name.toList = none := by
  cases chars : name.toList with
  | nil => rfl
  | cons c rest =>
    obtain ⟨other, sign⟩ := plain.lettered c (by rw [chars]; rfl)
    have none : readNat? (c :: rest) = none := by
      rw [readNat?, if_neg]
      rintro ⟨_, digits⟩
      rw [all_cons, other] at digits
      cases digits
    rw [readInt?, none, Option.map_none]
    rintro digits same
    exact sign (List.cons.inj same).1

theorem constant?_eq_none (dialect : Dialect) : dialect.constant? name.toList = none :=
  Dialect.constant?_eq_none (plain.not_mem (by decide)) (plain.not_mem (by decide)) dialect

theorem readWord_eq (named : name ≠ "") (dialect : Dialect) :
    dialect.readWord name.toList = [.whole name false] := by
  have word : name.toList ≠ [] := fun none => named (String.toList_inj.mp none)
  have used : name.toList ≠ "open".toList := fun same =>
    plain.ordinary.2 (String.toList_inj.mp same)
  rw [Dialect.readWord,
    if_neg (by simp only [word, used, and_false, or_self, not_false_eq_true]),
    plain.constant?_eq_none, plain.readInt?_eq_none]
  simp

end Plain

namespace Reading

variable {word text : List Char} {name : String} {dialect : Dialect} {reading : Reading}

structure Fresh (reading : Reading) : Prop where
  word : reading.word = []
  outside : reading.selected = none

theorem add_nil (fresh : reading.Fresh) : reading.add [] = reading := by
  obtain ⟨pieces, word, selected, depth, braces⟩ := reading
  obtain rfl : word = [] := fresh.word
  simp [add]

theorem Fresh.add (fresh : reading.Fresh) (found : List Piece) : (reading.add found).Fresh :=
  ⟨rfl, fresh.outside⟩

theorem flush_of_fresh (fresh : reading.Fresh) : reading.flush dialect = reading := by
  rw [flush, fresh.word]
  exact add_nil fresh

def Reads (dialect : Dialect) (reading : Reading) (text : List Char) (found : List Piece) : Prop :=
  ∃ later, text.foldlM (step dialect) reading = some later ∧ later.selected = none ∧
    later.flush dialect = reading.add found

def ReadsAs (dialect : Dialect) (text : List Char) (found : List Piece) : Prop :=
  ∀ reading : Reading, reading.Fresh → reading.Reads dialect text found

theorem step_of_unbreaking {c : Char} (free : isBreak c = false)
    (outside : reading.selected = none) :
    reading.step dialect c = some { reading with word := reading.word ++ [c] } := by
  have apart : ∀ mark, isBreak mark = true → c ≠ mark := by
    rintro mark breaks rfl
    rw [free] at breaks
    cases breaks
  have opening : c ≠ dialect.opening := by
    cases dialect
    · exact apart '(' (by decide)
    · exact apart '[' (by decide)
  simp only [step, outside, separate, opening, apart '(' (by decide), apart ')' (by decide),
    apart ' ' (by decide), apart '&' (by decide), apart '\x7b' (by decide),
    apart ',' (by decide), apart '\x7d' (by decide), false_and, and_false, ↓reduceIte]

theorem foldlM_word (free : ∀ c ∈ word, isBreak c = false) (outside : reading.selected = none) :
    word.foldlM (step dialect) reading = some { reading with word := reading.word ++ word } := by
  induction word generalizing reading with
  | nil => rw [foldlM_nil, append_nil]; rfl
  | cons c word ih =>
    rw [foldlM_cons, step_of_unbreaking (free c (mem_cons_self ..)) outside,
      bind_eq_bind, bind_some]
    refine (ih ?_ ?_).trans ?_
    · exact fun c member => free c (mem_cons_of_mem _ member)
    · exact outside
    · rw [append_assoc, singleton_append]

theorem readsAs_word (free : ∀ c ∈ word, isBreak c = false) :
    ReadsAs dialect word (dialect.readWord word) := by
  intro reading fresh
  refine ⟨_, foldlM_word free fresh.outside, fresh.outside, ?_⟩
  rw [flush, fresh.word]
  rfl

theorem foldlM_blanks {blanks : List Char} (blank : ∀ c ∈ blanks, c = ' ')
    (outside : reading.selected = none) : blanks.foldlM (step dialect) reading = some reading := by
  have idle : reading.step dialect ' ' = some reading := by
    cases dialect <;> simp [step, outside, separate, Dialect.opening]
  induction blanks with
  | nil => rfl
  | cons c blanks ih =>
    rw [foldlM_cons, blank c (mem_cons_self ..), idle]
    exact ih fun c member => blank c (mem_cons_of_mem _ member)

theorem ReadsAs.blanks {found : List Piece} (reads : ReadsAs dialect text found)
    {before behind : List Char} (blank : ∀ c ∈ before, c = ' ') (further : ∀ c ∈ behind, c = ' ') :
    ReadsAs dialect (before ++ text ++ behind) found := by
  intro reading fresh
  obtain ⟨later, read, outside, flushed⟩ := reads reading fresh
  refine ⟨later, ?_, outside, flushed⟩
  simp only [foldlM_append, foldlM_blanks blank fresh.outside, bind_eq_bind,
    bind_some, read, foldlM_blanks further outside]

theorem ReadsAs.read_eq {found : List Piece}
    (reads : ReadsAs dialect text found) : dialect.read text = some found := by
  obtain ⟨later, read, outside, flushed⟩ := reads {} ⟨rfl, rfl⟩
  have depth : later.depth = 0 := congrArg Reading.depth flushed
  have braces : later.braces = 0 := congrArg Reading.braces flushed
  have pieces : (later.flush dialect).pieces = found := by
    have same : Piece.inside 0 = id := rfl
    rw [flushed]
    simp [add, same]
  simp [Dialect.read, read, isClosed, outside, depth, braces, pieces]

theorem foldlM_selection (free : dialect.closing ∉ text) (selected : reading.selected = some name) :
    text.foldlM (step dialect) reading = some { reading with word := reading.word ++ text } := by
  induction text generalizing reading with
  | nil => rw [foldlM_nil, append_nil]; rfl
  | cons c text ih =>
    have apart : c ≠ dialect.closing := fun same => free (same ▸ mem_cons_self ..)
    have here : reading.step dialect c = some { reading with word := reading.word ++ [c] } := by
      simp [step, selected, apart]
    rw [foldlM_cons, here, bind_eq_bind, bind_some]
    refine (ih ?_ ?_).trans ?_
    · exact fun member => free (mem_cons_of_mem _ member)
    · exact selected
    · rw [append_assoc, singleton_append]

theorem readsAs_selection (plain : Plain name) {bounds : List Char} {high low : Int}
    (free : dialect.closing ∉ bounds) (known : dialect.readBounds? bounds = some (high, low)) :
    ReadsAs dialect (name.toList ++ (dialect.opening :: bounds ++ [dialect.closing]))
      [.part name high low false] := by
  intro reading fresh
  have named : ¬(dialect.opening = '(' ∧ name.toList = dialect.negation) := by
    cases dialect with
    | vhdl => exact fun both => plain.ordinary.1 (String.toList_inj.mp both.2)
    | verilog => exact fun both => absurd both.1 (by decide)
  have opened : ({ reading with word := name.toList } : Reading).step dialect dialect.opening =
      some { reading with word := [], selected := some name } := by
    simp only [step, fresh.outside, named, ↓reduceIte, String.ofList_toList]
  have closed : ({ reading with word := bounds, selected := some name } : Reading).step dialect
      dialect.closing = some (reading.add [.part name high low false]) := by
    simp [step, known, add, fresh.outside]
  refine ⟨reading.add [.part name high low false], ?_, fresh.outside,
    flush_of_fresh (fresh.add _)⟩
  rw [foldlM_append, foldlM_word plain.unbreaking fresh.outside, bind_eq_bind,
    bind_some, fresh.word, nil_append, cons_append, foldlM_cons, opened,
    bind_eq_bind, bind_some, foldlM_append, foldlM_selection free rfl,
    bind_eq_bind, bind_some, nil_append, foldlM_cons, closed]
  rfl

end Reading

namespace Dialect

variable {name : String} {dialect : Dialect}

theorem unbreaking_digit {c : Char} (digit : c.isDigit = true) : isBreak c = false ∧ c ≠ ':' := by
  have none : ∀ mark ∈ " ()[]\x7b\x7d,&:".toList, mark.isDigit = false := by decide
  have apart : ¬c ∈ " ()[]\x7b\x7d,&:".toList := by
    intro listed
    rw [none c listed] at digit
    cases digit
  constructor
  · rw [isBreak, ← Bool.not_eq_true, contains_iff_mem]
    exact fun listed => apart (mem_append_left [':'] listed)
  · rintro rfl
    exact apart (by decide)

theorem unbreaking_int (n : Int) : ∀ c ∈ (toString n).toList, isBreak c = false ∧ c ≠ ':' := by
  obtain ⟨sign, shape, form⟩ := toList_toString_int n
  intro c member
  rw [form, mem_append] at member
  obtain member | member := member
  · simp only [mem_cons, not_mem_nil, or_false] at shape
    obtain rfl | rfl := shape
    · cases member
    · rw [mem_singleton.mp member]
      decide
  · exact unbreaking_digit (Nat.isDigit_of_mem_toDigits (by omega) (by omega) member)

theorem readWord_of_constant {word : List Char} {bits : List Bool} (nonempty : word ≠ [])
    (used : word ≠ "open".toList) (known : dialect.constant? word = some bits) :
    dialect.readWord word = bits.map .constant := by
  rw [readWord, if_neg (by simp only [nonempty, used, and_false, or_self, not_false_eq_true]),
    known]

theorem constant?_digits (bits : List Bool) :
    dialect.constant? (dialect.digits bits.length (bits.map digit)).toList = some bits := by
  cases dialect with
  | vhdl =>
    have form : (Dialect.vhdl.digits bits.length (bits.map digit)).toList =
        '"' :: (bits.map digit ++ ['"']) := by
      simp [digits]
    simp only [form, constant?, List.getLast?_append, List.getLast?_singleton, Option.some_or,
      ↓reduceIte, dropLast_concat, mapM_readDigit?]
  | verilog =>
    have form : (Dialect.verilog.digits bits.length (bits.map digit)).toList =
        (toString (bits.length : Int)).toList ++ '\'' :: 'b' :: bits.map digit := by
      simp [digits]
    have size : (toString (bits.length : Int)).toList = (toString bits.length).toList := rfl
    have ticks : ∀ c ∈ (toString bits.length).toList, (c != '\'') = true := by
      intro c member
      have digit := isDigit_of_mem_toString member
      simp only [bne_iff_ne]
      rintro rfl
      exact absurd digit (by decide)
    have behind : ('\'' :: 'b' :: bits.map digit).dropWhile (· != '\'') =
        '\'' :: 'b' :: bits.map digit := rfl
    have before : ('\'' :: 'b' :: bits.map digit).takeWhile (· != '\'') = [] := rfl
    simp only [form, size, constant?, dropWhile_append_of_pos ticks, behind,
      takeWhile_append_of_pos ticks, before, append_nil, length_map,
      ↓reduceIte, mapM_readDigit?]

theorem mem_digits {bits : List Bool} {c : Char}
    (member : c ∈ (dialect.digits bits.length (bits.map digit)).toList) :
    c.isDigit = true ∨ c ∈ ['\'', '"', 'b'] := by
  have figures : ∀ bit, (digit bit).isDigit = true := by decide
  cases dialect with
  | vhdl =>
    simp only [digits, String.toList_ofList, mem_append, mem_cons, mem_map, not_mem_nil,
      or_false] at member ⊢
    obtain (rfl | ⟨bit, _, rfl⟩) | rfl := member
    · exact .inr (.inr (.inl rfl))
    · exact .inl (figures bit)
    · exact .inr (.inr (.inl rfl))
  | verilog =>
    have size : (toString (bits.length : Int)).toList = (toString bits.length).toList := rfl
    have mark : "'b".toList = ['\'', 'b'] := rfl
    simp only [digits, String.toList_append, String.toList_ofList, toString_text, size, mark,
      mem_append, mem_cons, mem_map, not_mem_nil, or_false] at member ⊢
    obtain (member | rfl | rfl) | ⟨bit, _, rfl⟩ := member
    · exact .inl (isDigit_of_mem_toString member)
    · exact .inr (.inl rfl)
    · exact .inr (.inr (.inr rfl))
    · exact .inl (figures bit)

theorem constant?_literal (value width : Nat) :
    dialect.constant? (dialect.literal value width).toList =
      some ((List.range width).reverse.map value.testBit) := by
  rw [literal]
  split
  case isTrue single =>
    obtain rfl : width = 1 := Int.ofNat_inj.mp (beq_iff_eq.mp single)
    simp only [List.range_one, reverse_singleton, map_singleton]
    cases dialect <;> cases value.testBit 0 <;> decide
  case isFalse =>
    have read := @constant?_digits dialect ((List.range width).reverse.map value.testBit)
    simpa [binaryDigits, Function.comp_def] using read

theorem mem_literal {value width : Nat} {c : Char}
    (member : c ∈ (dialect.literal value width).toList) :
    c.isDigit = true ∨ c ∈ ['\'', '"', 'b'] := by
  rw [literal] at member
  split at member
  case isTrue =>
    have each : ∀ dialect ∈ [Dialect.vhdl, .verilog], ∀ bit, ∀ c ∈ (dialect.bit bit).toList,
        c.isDigit = true ∨ c ∈ ['\'', '"', 'b'] := by decide
    exact each dialect (by cases dialect <;> simp) _ c member
  case isFalse =>
    refine @mem_digits dialect ((List.range width).reverse.map value.testBit) c ?_
    simpa [binaryDigits, Function.comp_def] using member

theorem readsAs_literal (value width : Nat) :
    Reading.ReadsAs dialect (dialect.literal value width).toList
      ((List.range width).reverse.map fun position => .constant (value.testBit position)) := by
  have known := @constant?_literal dialect value width
  have free : ∀ c, c.isDigit = true ∨ c ∈ ['\'', '"', 'b'] → isBreak c = false := by
    rintro c (digit | listed)
    · exact (unbreaking_digit digit).1
    · revert c
      decide
  have word : dialect.readWord (dialect.literal value width).toList =
      (List.range width).reverse.map fun position => .constant (value.testBit position) := by
    rw [readWord_of_constant ?_ ?_ known, map_map]
    · rfl
    · intro empty
      rw [empty] at known
      cases dialect <;> cases known
    · intro same
      rw [same] at known
      cases dialect <;> cases known
  exact word ▸ Reading.readsAs_word fun c member => free c (mem_literal member)

theorem splitFirst?_between {high : List Char} (free : ∀ c ∈ high, isBreak c = false ∧ c ≠ ':')
    (rest : List Char) : splitFirst? dialect.between high = none ∧
      splitFirst? dialect.between (high ++ dialect.between ++ rest) = some (high, rest) := by
  obtain ⟨mark, marks, form, apart⟩ : ∃ mark marks, dialect.between = mark :: marks ∧
      mark ∉ high := by
    cases dialect with
    | vhdl =>
      refine ⟨' ', "downto ".toList, rfl, fun member => ?_⟩
      exact absurd (free ' ' member).1 (by decide)
    | verilog => exact ⟨':', [], rfl, fun member => (free ':' member).2 rfl⟩
  rw [form, append_assoc]
  exact ⟨splitFirst?_eq_none apart marks, splitFirst?_pattern apart marks rest⟩

theorem toList_index (name : String) (position : Int) : (dialect.index name position).toList =
    name.toList ++ (dialect.opening :: (toString position).toList ++ [dialect.closing]) := by
  cases dialect <;> simp [index, opening, closing]

theorem readsAs_index (plain : Plain name) (position : Int) :
    Reading.ReadsAs dialect (dialect.index name position).toList
      [.part name position position false] := by
  have free : dialect.closing ∉ (toString position).toList := by
    intro member
    have breaks := (unbreaking_int position _ member).1
    cases dialect <;> exact absurd breaks (by decide)
  rw [toList_index]
  refine Reading.readsAs_selection plain free ?_
  simp only [readBounds?, (splitFirst?_between (unbreaking_int position) []).1,
    readInt?_toString, bind_eq_bind, bind_some]
  rfl

theorem toList_slice (name : String) {high low : Int} (differ : ¬(high == low) = true) :
    (dialect.slice name high low).toList = name.toList ++ (dialect.opening ::
      ((toString high).toList ++ dialect.between ++ (toString low).toList) ++
        [dialect.closing]) := by
  rw [slice.eq_def, if_neg differ]
  cases dialect <;> simp only [String.toList_append, toString_text, append_assoc,
    cons_append] <;> rfl

theorem readsAs_slice (plain : Plain name) (high low : Int) :
    Reading.ReadsAs dialect (dialect.slice name high low).toList [.part name high low false] := by
  by_cases same : (high == low) = true
  · rw [slice.eq_def, if_pos same, ← beq_iff_eq.mp same]
    exact readsAs_index plain high
  · rw [toList_slice name same]
    refine Reading.readsAs_selection plain ?_ ?_
    · intro member
      have breaks : isBreak dialect.closing = true := by cases dialect <;> decide
      simp only [mem_append] at member
      obtain (member | member) | member := member
      · rw [(unbreaking_int high _ member).1] at breaks
        cases breaks
      · cases dialect <;> exact absurd member (by decide)
      · rw [(unbreaking_int low _ member).1] at breaks
        cases breaks
    · simp only [readBounds?, (splitFirst?_between (unbreaking_int high) _).2,
        readInt?_toString, bind_eq_bind, bind_some]
      rfl

end Dialect

namespace Expr

/-- The pieces that a place or a literal is read as. -/
inductive Shows : Expr → List Piece → Prop
  | whole {name : String} (plain : Plain name) (named : name ≠ "") :
      Shows (.signal name) [.whole name false]
  | part {name : String} (plain : Plain name) (high low : Int) :
      Shows (.slice name high low) [.part name high low false]
  | literal (value width : Nat) : Shows (.literal value width)
      ((List.range width).reverse.map fun position => .constant (value.testBit position))

theorem Shows.readsAs_spell {dialect : Dialect} {expression : Expr} {pieces : List Piece}
    (shows : expression.Shows pieces) :
    Reading.ReadsAs dialect (expression.spell dialect).toList pieces := by
  cases shows with
  | whole plain named =>
    have read : Reading.ReadsAs dialect _ _ := Reading.readsAs_word plain.unbreaking
    rwa [plain.readWord_eq named] at read
  | part plain high low => exact Dialect.readsAs_slice plain high low
  | literal value width => exact Dialect.readsAs_literal value width

theorem Shows.read_spell {dialect : Dialect} {expression : Expr} {pieces : List Piece}
    (shows : expression.Shows pieces) {before behind : List Char}
    (blank : ∀ c ∈ before, c = ' ') (further : ∀ c ∈ behind, c = ' ') :
    dialect.read (before ++ (expression.spell dialect).toList ++ behind) = some pieces :=
  (shows.readsAs_spell.blanks blank further).read_eq

end Expr

end Schematic.Hdl
