import Mathlib.Algebra.Group.Nat.Defs
import Schematic.Component.Memory
import Schematic.Proofs.Outcome

/-! # Memory payloads

What a file of a memory lane says is read back digit by digit, with as many digits for a word as the
loader takes from a line. -/

open List

namespace Schematic.MemoryContents

open Text

def hexDigits : List Char := "0123456789ABCDEF".toList

/-- The value of capital hexadecimal digits. -/
def readHex? (text : List Char) : Option Nat :=
  text.foldlM (fun value c => (hexDigits.idxOf? c).map (16 * value + ·)) 0

/-- A word is read from as many digits as it takes, and from no more. -/
def readWord? (digits : Nat) (text : List Char) : Option Nat :=
  if text.length = digits then readHex? text else none

theorem readHex?_append {front : List Char} {value : Nat} (read : readHex? front = some value)
    (c : Char) : readHex? (front ++ [c]) = (hexDigits.idxOf? c).map (16 * value + ·) := by
  rw [readHex?, foldlM_append, ← readHex?, read]
  simp

theorem capitalHex_eq (n : Nat) : capitalHex n =
    if n < 16 then [(Nat.digitChar n).toUpper]
    else capitalHex (n / 16) ++ [(Nat.digitChar (n % 16)).toUpper] := by
  rw [capitalHex, Nat.toDigits_eq_if (by omega)]
  split
  · rfl
  · rw [map_append]
    rfl

theorem readHex?_capitalHex (n : Nat) : readHex? (capitalHex n) = some n := by
  have digit : ∀ d < 16, hexDigits.idxOf? (Nat.digitChar d).toUpper = some d := by decide
  induction n using Nat.strongRecOn with
  | ind n ih =>
    rw [capitalHex_eq]
    split
    case isTrue small =>
      have single := readHex?_append (rfl : readHex? [] = some 0) (Nat.digitChar n).toUpper
      rwa [nil_append, digit n small, Option.map_some, Nat.mul_zero, Nat.zero_add] at single
    case isFalse large =>
      have front := ih (n / 16) (Nat.div_lt_self (by omega) (by omega))
      rw [readHex?_append front, digit _ (Nat.mod_lt _ (by omega)), Option.map_some,
        Nat.div_add_mod]

theorem readHex?_zeros (count : Nat) (text : List Char) :
    readHex? (replicate count '0' ++ text) = readHex? text := by
  induction count with
  | zero => rfl
  | succ count ih =>
    rw [replicate_succ, cons_append, readHex?, foldlM_cons]
    exact ih

section Words

variable {width : Nat} (narrow : width ≤ 4 * widestField)
include narrow

theorem digitCount_eq : digitCount width = ((width + 3) / 4 : Nat) := by
  rw [widestField] at narrow
  have fitting : Word.fits ((width : Int) + 3) = true := by
    rw [Word.fits_iff, Word.least, Word.greatest]
    omega
  rw [digitCount, Word.wrap_of_fits fitting, Int.tdiv_eq_ediv_of_nonneg (by omega)]
  omega

theorem readWord?_wordText (wide : 0 < width) {word : Nat} (small : word < 16 ^ ((width + 3) / 4)) :
    readWord? ((width + 3) / 4) (wordText (digitCount width) word).toList = some word := by
  have fits : (capitalHex word).length ≤ (width + 3) / 4 := by
    rw [capitalHex, length_map]
    exact (Nat.length_toDigits_le_iff (by omega) (by omega)).mpr small
  have printable : ¬(((width + 3) / 4 : Nat) < (0 : Int) ∨ widestField < (width + 3) / 4) := by
    omega
  rw [digitCount_eq narrow, wordText]
  simp only [Int.natAbs_natCast, Bool.or_eq_true, decide_eq_true_eq, if_neg printable,
    String.toList_ofList]
  rw [readWord?, if_pos, readHex?_zeros, readHex?_capitalHex]
  rw [length_append, length_replicate]
  omega

end Words

theorem cut_eq {word : Nat} (stored : word < 2 ^ 64) (width : Nat) :
    cut width word = word % 2 ^ min width 64 := by
  rw [cut]
  split
  case isTrue all =>
    rw [Nat.min_eq_right (by simp at all; omega), Nat.mod_eq_of_lt stored]
  case isFalse some =>
    rw [Nat.min_eq_left (by simp at some; omega)]
    rfl

theorem mod_lt_digits (word width : Nat) : word % 2 ^ min width 64 < 16 ^ ((width + 3) / 4) :=
  calc
    word % 2 ^ min width 64 < 2 ^ min width 64 := Nat.mod_lt _ (Nat.two_pow_pos _)
    _ ≤ 2 ^ (4 * ((width + 3) / 4)) := Nat.pow_le_pow_right (by omega) (by omega)
    _ = 16 ^ ((width + 3) / 4) := Nat.pow_mul ..

/-- A text of lines, each of them ended. -/
def unlines (lines : List String) : String :=
  String.join (lines.map (· ++ "\n"))

/-- The text of a lane that holds a word at every address: its data lines, with addresses and a
header that gives the size if the vendor wants them. -/
def IsPayload (vendor : Hdl.Vendor) (depth width : Nat) (word : Nat → Nat) (text : String) : Prop :=
  ∃ data : List String, data.length = depth ∧
    (∀ address line, data[address]? = some line →
      readWord? ((width + 3) / 4) line.toList = some (word address)) ∧
    if vendor = .altera then
      ∃ places : List String, places.length = depth ∧
        (∀ address place, places[address]? = some place → readHex? place.toList = some address) ∧
        text = "-- Generated by hdlgen\n" ++ s!"DEPTH = {depth};\n" ++ s!"WIDTH = {width};\n" ++
          "ADDRESS_RADIX = HEX;\nDATA_RADIX = HEX;\nCONTENT\nBEGIN\n" ++
          unlines
            (zipWith (fun place line => "   " ++ place ++ " : " ++ line ++ ";") places data) ++
          "END;\n"
    else text = unlines data

theorem initializationHeader_eq (depth width : Nat) : initializationHeader depth width =
    "-- Generated by hdlgen\n" ++ s!"DEPTH = {depth};\n" ++ s!"WIDTH = {width};\n" ++
      "ADDRESS_RADIX = HEX;\nDATA_RADIX = HEX;\nCONTENT\nBEGIN\n" := rfl

theorem initializationFile_eq (words : List Nat) (width : Int) :
    initializationFile words width = initializationHeader words.length width ++
      unlines (zipWith (fun place line => "   " ++ place ++ " : " ++ line ++ ";")
        ((range words.length).map fun address => String.ofList (capitalHex address))
        (words.map (wordText (digitCount width)))) ++ "END;\n" := by
  have ended : ";\n" = ";" ++ "\n" := by rfl
  rw [unlines, zipWith_map, map_zipWith, zipWith_comm, initializationFile, zipIdx_eq_zip_range',
    ← range_eq_range', zip_eq_zipWith, map_zipWith]
  simp only [ended, String.append_assoc]

/-- What is written for words that fit their digits. -/
theorem isPayload_fileText (vendor : Hdl.Vendor) {depth width : Nat} (wide : 0 < width)
    (narrow : width ≤ 4 * widestField) {word : Nat → Nat}
    (small : ∀ address, word address < 16 ^ ((width + 3) / 4)) :
    IsPayload vendor depth width word (fileText vendor ((range depth).map word) width) := by
  refine ⟨(range depth).map fun address => wordText (digitCount width) (word address), by simp,
    ?_, ?_⟩
  · intro address line written
    obtain ⟨_, rfl⟩ := List.getElem?_eq_some_iff.mp written
    rw [getElem_map, getElem_range]
    exact readWord?_wordText narrow wide (small address)
  · split
    case isTrue altera =>
      subst altera
      refine ⟨(range depth).map fun address => String.ofList (capitalHex address), by simp, ?_, ?_⟩
      · intro address place written
        obtain ⟨_, rfl⟩ := List.getElem?_eq_some_iff.mp written
        rw [getElem_map, getElem_range, String.toList_ofList, readHex?_capitalHex]
      · rw [fileText, initializationFile_eq, length_map, length_range, map_map, Function.comp_def,
          initializationHeader_eq]
    case isFalse other =>
      have plain : ∀ words, fileText vendor words width = wordFile words width := by
        cases vendor with
        | altera => exact absurd rfl other
        | xilinx => exact fun _ => rfl
        | generic => exact fun _ => rfl
      rw [plain, wordFile, unlines, map_map, map_map, Function.comp_def, Function.comp_def]

section Dealing

variable {contents : List Nat} {depth lanes lane : Nat} (indexed : depth * lanes ≤ 2 ^ 63)
include indexed

theorem dealtWord_eq {address : Nat} (within : address < depth) (below : lane < lanes) :
    dealtWord contents.toArray lanes lane address =
      .ok (contents[address * lanes + lane]?.getD 0) := by
  have end_le : (address + 1) * lanes ≤ depth * lanes := Nat.mul_le_mul_right lanes within
  rw [Nat.succ_mul] at end_le
  have fitting : Word.fits ((address * lanes + lane : Nat) : Int) = true := by
    rw [Word.fits_iff, Word.least, Word.greatest]
    omega
  rw [dealtWord, ← Int.natCast_mul, ← Int.natCast_add, Word.wrap_of_fits fitting]
  rw [if_neg (by omega), Int.toNat_natCast, getElem?_toArray]

theorem laneWords_eq (width : Nat) (below : lane < lanes) :
    laneWords contents.toArray depth lanes width lane = .ok ((range depth).map fun address =>
        cut width (contents[address * lanes + lane]?.getD 0)) := by
  refine mapM_eq_pure_map fun address within => ?_
  rw [dealtWord_eq indexed (mem_range.mp within) below]
  rfl

end Dealing

theorem storable_of_le {size length : Nat} (fits : length * size ≤ greatestSize) :
    storable size length = .ok length := by
  rw [storable, if_neg]
  · rfl
  · simp
    exact_mod_cast fits

theorem dealt_eq {contents : List Nat} {addressBits lanes : Nat} (width : Nat)
    (addressed : 2 ^ addressBits * 8 ≤ greatestSize) (several : 0 < lanes)
    (allocated : lanes * 24 ≤ greatestSize) (indexed : 2 ^ addressBits * lanes ≤ 2 ^ 63) :
    dealt contents (Variant.memoryDepth addressBits) lanes width =
      .ok ((range lanes).map fun lane => (range (2 ^ addressBits)).map fun address =>
        cut width (contents[address * lanes + lane]?.getD 0)) := by
  have limit : greatestSize = 2 ^ 48 := rfl
  have short : addressBits < 63 := by
    refine Nat.lt_of_not_le fun long => ?_
    have large := Nat.pow_le_pow_right (show 0 < 2 by omega) long
    omega
  have depth : Variant.memoryDepth addressBits = (2 ^ addressBits : Nat) := by
    rw [Variant.memoryDepth, Word.shiftOne, if_pos (by omega)]
    refine Word.wrap_of_fits ?_
    have below : 2 ^ addressBits < 2 ^ 63 := Nat.pow_lt_pow_right (by omega) short
    rw [Word.fits_iff, Word.least, Word.greatest]
    change _ ≤ ((2 ^ addressBits : Nat) : Int) ∧ ((2 ^ addressBits : Nat) : Int) ≤ _
    omega
  simp only [dealt, depth, storable_of_le allocated, storable_of_le addressed, bind, Except.bind,
    if_neg (Nat.ne_of_gt several)]
  exact mapM_eq_pure_map fun lane below => laneWords_eq indexed width (mem_range.mp below)

/-- **Payloads carry the contents.** For words of 64 bits that are no wider than the greatest field,
and for sizes that can be stored with indices that are numbers of 64 bits, every lane has a file of
one data line for each address. The word at an address is the one that the contents deal to the lane
there, cut to its width, and zero behind the contents. The loader takes as many bits from a line as
it has digits. -/
theorem payloads_carry_contents {contents : List Nat} {addressBits lanes width : Nat}
    (stored : ∀ word ∈ contents, word < 2 ^ 64) (addressed : 2 ^ addressBits * 8 ≤ greatestSize)
    (several : 0 < lanes) (allocated : lanes * 24 ≤ greatestSize)
    (indexed : 2 ^ addressBits * lanes ≤ 2 ^ 63) (wide : 0 < width)
    (narrow : width ≤ 4 * widestField) (module : String) (vendor : Hdl.Vendor) :
    (∃ attachments, files contents module (Variant.memoryDepth addressBits) lanes width vendor =
        .ok attachments ∧ attachments.length = lanes ∧
      ∀ lane < lanes, ∃ attachment, attachments[lane]? = some attachment ∧
        attachment.name = fileName module lane lanes vendor ∧
        IsPayload vendor (2 ^ addressBits) width (fun address =>
          contents[address * lanes + lane]?.getD 0 % 2 ^ min width 64) attachment.content) ∧
    ∀ name depth, Hdl.Lines.place 1
        s!"variable v_word : std_logic_vector({4 * ((width + 3) / 4) - 1} downto 0);" ∈
      Hdl.Interface.vhdlLoader ⟨name, depth, width⟩ := by
  have cutting : ∀ place : Nat, cut width (contents[place]?.getD 0) =
      contents[place]?.getD 0 % 2 ^ min width 64 := by
    intro place
    refine cut_eq ?_ width
    cases dealt : contents[place]? with
    | none => exact Nat.two_pow_pos 64
    | some word => exact stored word (mem_of_getElem? dealt)
  constructor
  · simp only [files, dealt_eq width addressed several allocated indexed, cutting, bind,
      Except.bind]
    refine ⟨_, rfl, by simp, fun lane below => ?_⟩
    rw [getElem?_map, getElem?_zipIdx, getElem?_map, getElem?_range below]
    refine ⟨_, rfl, congrArg (fileName module · lanes vendor) (Nat.zero_add lane), ?_⟩
    exact isPayload_fileText vendor wide narrow fun _ => mod_lt_digits ..
  · intro name depth
    have bits : Word.wrap (digitCount width * 4 - 1) = (4 * ((width + 3) / 4) - 1 : Nat) := by
      rw [digitCount_eq narrow, Word.wrap_of_fits]
      · omega
      · rw [widestField] at narrow
        rw [Word.fits_iff, Word.least, Word.greatest]
        omega
    rw [digitCount] at bits
    simp only [Hdl.Interface.vhdlLoader, bits, Hdl.Lines.nest, map_append, map_cons, map_nil,
      append_assoc]
    exact mem_append_right _ (mem_cons_of_mem _ (mem_cons_of_mem _ (mem_cons_self ..)))

/-- Words of 70 bits for two lanes, of which the contents fill one address and a half. -/
theorem payloads_carry_contents_half :
    let contents := [5, 2 ^ 64 - 1, 7]
    ∃ attachments, files contents "m" 4 2 70 .altera = .ok attachments ∧
      ∃ attachment, attachments[1]? = some attachment ∧ attachment.name = "m_1.mif" ∧
        IsPayload .altera 4 70 (fun address => contents[address * 2 + 1]?.getD 0 % 2 ^ 64)
          attachment.content := by
  intro contents
  obtain ⟨⟨attachments, made, _, each⟩, _⟩ := payloads_carry_contents
    (by decide : ∀ word ∈ contents, word < 2 ^ 64) (by decide : 2 ^ 2 * 8 ≤ greatestSize)
    (by decide : 0 < 2) (by decide) (by decide) (by decide : 0 < 70) (by decide) "m" .altera
  obtain ⟨attachment, listed, named, payload⟩ := each 1 (by decide)
  exact ⟨attachments, made, attachment, listed, named, payload⟩

/-- Words that take one digit more than the greatest field are written without padding, behind a
complaint, and cannot be read. -/
theorem wide_word_unreadable :
    files [1, 2] "m" (Variant.memoryDepth 1) 1 4000001 .generic =
        .ok [⟨"m.mem", "%!(BADWIDTH)1\n%!(BADWIDTH)2\n"⟩] ∧
      readWord? ((4000001 + 3) / 4) "%!(BADWIDTH)1".toList = none :=
  ⟨rfl, rfl⟩

end Schematic.MemoryContents
