import Mathlib.Algebra.Group.Nat.Defs
import Schematic.Component.Unit
import Schematic.Proofs.Component.Ports
import Schematic.Proofs.Hdl.Listing
import Schematic.Proofs.Outcome

/-! # Multiplexers

The process of a multiplexer is read back as a whole, with every line in its place: the condition
on the enable input, the value without it, the selector and the arms. What it says drives the output
with the selected input. -/

open List

namespace Schematic.Hdl

open Text

/-- What a process says: its target takes the idle value while the enable signal is low, and else
that of the first arm whose choice covers the selector. -/
structure Selection where
  enable : List Char
  idle : String × String
  selector : List Char
  arms : List (List Char × String × String)
  deriving DecidableEq, Repr

namespace Dialect

/-- An assignment, read as its two sides. -/
def readDrive? (text : List Char) : Option (String × String) := do
  let (target, source) ← splitFirst? "<= ".toList text
  return (String.ofList (← withoutLast? ' ' target), String.ofList (← withoutLast? ';' source))

/-- One choice, with the assignment behind it. -/
def readArm? (dialect : Dialect) (line : String) : Option (List Char × String × String) := do
  let (choice, drive) ← match dialect with
    | .vhdl => (dropStart? "when ".toList line.toList).bind (splitFirst? " => ".toList)
    | .verilog => splitFirst? ": ".toList line.toList
  return (choice, ← readDrive? drive)

def inner? (front back : String) (line : String) : Option (List Char) := do
  let (inner, rest) ← splitFirst? back.toList (← dropStart? front.toList line.toList)
  if rest = [] then some inner else none

/-- The arms before the lines that have to come last. -/
def readArms? (dialect : Dialect) (last lines : List String) :
    Option (List (List Char × String × String)) := do
  (← dropStart? last.reverse lines.reverse).reverse.mapM dialect.readArm?

/-- The lines behind the beginning of a process, without their indentation. -/
def readSelection? (dialect : Dialect) (lines : List String) : Option Selection :=
  match dialect, lines with
  | .vhdl, condition :: idle :: "else" :: head :: lines => do
    return ⟨← inner? "if (" " = '0') then" condition, ← readDrive? idle.toList,
      ← inner? "case (" ") is" head,
      ← readArms? .vhdl ["end case;", "end if;", "end process make_mux;"] lines⟩
  | .verilog, condition :: head :: lines => do
    let (enable, idle) ← splitFirst? ") ".toList
      (← dropStart? "if (~".toList condition.toList)
    return ⟨enable, ← readDrive? idle, ← inner? "else case (" ")" head,
      ← readArms? .verilog ["endcase", "end"] lines⟩
  | _, _ => none

/-- A choice applies to a selector if it is the last resort or spells its levels. -/
def covers (dialect : Dialect) (choice : List Char) (selected : List Bool) : Bool :=
  choice == (Variant.muxOthers dialect).toList || dialect.constant? choice == some selected

/-- The assignment that is made at given levels of the signals. -/
def taken? (dialect : Dialect) (selection : Selection) (levels : String → List Bool) :
    Option (String × String) :=
  if levels (String.ofList selection.enable) = [false] then some selection.idle
  else (selection.arms.find? fun arm =>
    dialect.covers arm.1 (levels (String.ofList selection.selector))).map (·.2)

def unindented (line : String) : String :=
  String.ofList (line.toList.dropWhile isBlank)

/-- What a port takes from a body at the levels of its inputs. The process assigns the port or a
signal that the port is assigned from. -/
def output? (dialect : Dialect) (body : List String) (port : String)
    (levels : String → List Bool) : Option String :=
  let source? (target : String) (lines : List String) : Option String := do
    let taken ← dialect.taken? (← dialect.readSelection? (lines.map unindented)) levels
    if taken.1 = target then some taken.2 else none
  match dialect, body with
  | .vhdl, _ :: "begin" :: lines => source? port lines
  | .verilog, wire :: "" :: "always @(*)" :: "begin" :: lines => do
    source? (String.ofList (← inner? ("assign " ++ port ++ " = ") ";" wire)) lines
  | _, _ => none

/-- The bits that a constant gives to a target of some width. -/
def spread? (dialect : Dialect) (width : Nat) (text : List Char) : Option (List Bool) :=
  match dialect with
  | .vhdl =>
    if width = 1 then dialect.constant? text
    else do
      let bit ← withoutLast? ')' (← dropStart? "(others => ".toList text)
      let [value] ← dialect.constant? bit | none
      return List.replicate width value
  | .verilog => (readNat? text).map fun value => (List.range width).reverse.map value.testBit

/-- The names between the brackets of a process. -/
def sensitivity? (body : List String) : Option (List String) := do
  let (_, rest) ← splitFirst? ['('] (← body.head?).toList
  return fields (fun c => c == ',' || c == ' ') (String.ofList (← withoutLast? ')' rest))

variable {dialect : Dialect} {lines : List String}

theorem map_unindented_nest (lines : List String) :
    (Lines.nest lines).map unindented = lines.map unindented := by
  rw [Lines.nest, map_map]
  refine map_congr_left fun line _ => ?_
  rw [Function.comp_apply, Lines.place]
  split
  case isTrue blank =>
    have none : line.toList.dropWhile isBlank = [] :=
      dropWhile_eq_nil_iff.mpr (all_eq_true.mp blank)
    rw [unindented, unindented, none]
    rfl
  case isFalse =>
    have indent : ∀ c ∈ (repeated 1 indentUnit).toList, isBlank c = true := by decide
    rw [unindented, unindented, String.toList_append, dropWhile_append_of_pos indent]

theorem map_unindented
    (starts : ∀ line ∈ lines, ∃ c rest, line.toList = c :: rest ∧ isBlank c = false) :
    lines.map unindented = lines := by
  refine (map_congr_left fun line listed => ?_).trans (map_id lines)
  obtain ⟨c, rest, chars, visible⟩ := starts line listed
  rw [unindented, chars, dropWhile_cons_of_neg (by simp [visible]), ← chars, String.ofList_toList,
    id]

theorem isBlank_of_isDigit {c : Char} (digit : c.isDigit = true) : isBlank c = false := by
  have bounds : 48 ≤ c.toNat ∧ c.toNat ≤ 57 := by
    simpa [Char.isDigit, UInt32.le_iff_toNat_le] using digit
  simp only [isBlank, Bool.or_eq_false_iff, Bool.and_eq_false_iff, beq_eq_false_iff_ne,
    decide_eq_false_iff_not]
  omega

theorem readDrive?_eq {target : String} (free : '<' ∉ target.toList) (source : String) :
    readDrive? (target ++ " <= " ++ source ++ ";").toList = some (target, source) := by
  have form : (target ++ " <= " ++ source ++ ";").toList =
      (target.toList ++ [' ']) ++ ("<= ".toList ++ (source.toList ++ [';'])) := by
    simp
  have apart : '<' ∉ target.toList ++ [' '] := by simpa using free
  rw [readDrive?, form]
  have split := splitFirst?_pattern apart "= ".toList (source.toList ++ [';'])
  rw [show "<= ".toList = '<' :: "= ".toList from rfl, split]
  simp [withoutLast?_concat]

theorem readArm?_arm {choice : String} (plain : ' ' ∉ choice.toList ∧ ':' ∉ choice.toList)
    (input : String) : dialect.readArm? (Variant.muxArm dialect choice input) =
      some (choice.toList, Variant.muxTarget dialect, input) := by
  have drive :=
    readDrive?_eq (by cases dialect <;> decide : '<' ∉ (Variant.muxTarget dialect).toList) input
  unfold Variant.muxArm
  generalize Variant.muxTarget dialect ++ " <= " ++ input ++ ";" = rest at drive ⊢
  cases dialect with
  | vhdl =>
    have form : ("when " ++ choice ++ " => " ++ rest).toList =
        "when ".toList ++ (choice.toList ++ (' ' :: "=> ".toList ++ rest.toList)) := by simp
    have split : splitFirst? " => ".toList
        (choice.toList ++ (' ' :: "=> ".toList ++ rest.toList)) =
          some (choice.toList, rest.toList) :=
      splitFirst?_pattern plain.1 "=> ".toList rest.toList
    simp only [readArm?, form, dropStart?_eq_some.mpr rfl, split, drive, Option.bind_eq_bind,
      Option.bind_some]
    rfl
  | verilog =>
    have form : (choice ++ ": " ++ rest).toList =
        choice.toList ++ (':' :: [' '] ++ rest.toList) := by simp
    have split : splitFirst? ": ".toList (choice.toList ++ (':' :: [' '] ++ rest.toList)) =
        some (choice.toList, rest.toList) := splitFirst?_pattern plain.2 [' '] rest.toList
    simp only [readArm?, form, split, drive, Option.bind_eq_bind, Option.bind_some]
    rfl

section

variable {condition idle head : String} {lines : List String} {enable selector : List Char}
  {drive : String × String} {arms : List (List Char × String × String)}

theorem readSelection?_vhdl_eq
    (enabled : inner? "if (" " = '0') then" condition = some enable)
    (idles : readDrive? idle.toList = some drive)
    (selects : inner? "case (" ") is" head = some selector)
    (listed : readArms? .vhdl ["end case;", "end if;", "end process make_mux;"] lines = some arms) :
    readSelection? .vhdl (condition :: idle :: "else" :: head :: lines) =
      some ⟨enable, drive, selector, arms⟩ := by
  simp only [readSelection?, enabled, idles, selects, listed, Option.bind_eq_bind, Option.bind_some]
  rfl

theorem readSelection?_verilog_eq {rest behind : List Char}
    (begun : dropStart? "if (~".toList condition.toList = some rest)
    (enabled : splitFirst? ") ".toList rest = some (enable, behind))
    (idles : readDrive? behind = some drive)
    (selects : inner? "else case (" ")" head = some selector)
    (listed : readArms? .verilog ["endcase", "end"] lines = some arms) :
    readSelection? .verilog (condition :: head :: lines) =
      some ⟨enable, drive, selector, arms⟩ := by
  simp only [readSelection?, begun, enabled, idles, selects, listed, Option.bind_eq_bind,
    Option.bind_some]
  rfl

end

theorem readArms?_append {arms : List (List Char × String × String)}
    (read : lines.mapM dialect.readArm? = some arms) (last : List String) :
    dialect.readArms? last (lines ++ last) = some arms := by
  rw [readArms?, reverse_append, dropStart?_eq_some.mpr rfl]
  simpa using read

theorem testBits_injective {width value other : Nat} (low : value < 2 ^ width)
    (bounded : other < 2 ^ width) (same : (List.range width).reverse.map value.testBit =
      (List.range width).reverse.map other.testBit) : value = other := by
  refine Nat.eq_of_testBit_eq fun place => ?_
  by_cases inside : place < width
  · exact map_inj_left.mp same place (by simpa using inside)
  · have above : 2 ^ width ≤ 2 ^ place := Nat.pow_le_pow_right (by omega) (by omega)
    rw [Nat.testBit_lt_two_pow (by omega), Nat.testBit_lt_two_pow (by omega)]

theorem covers_literal {value other width : Nat} (low : value < 2 ^ width)
    (bounded : other < 2 ^ width) :
    dialect.covers (dialect.literal value width).toList
      ((List.range width).reverse.map other.testBit) = decide (value = other) := by
  have special : (dialect.literal value width).toList ≠ (Variant.muxOthers dialect).toList := by
    intro same
    obtain ⟨c, member, foreign⟩ : ∃ c ∈ (Variant.muxOthers dialect).toList,
        ¬(c.isDigit = true ∨ c ∈ ['\'', '"', 'b']) := by
      cases dialect
      · exact ⟨'o', by decide⟩
      · exact ⟨'d', by decide⟩
    exact foreign (mem_literal (same ▸ member))
  have bits : some ((List.range width).reverse.map value.testBit) =
      some ((List.range width).reverse.map other.testBit) ↔ value = other :=
    ⟨fun same => testBits_injective low bounded (Option.some.inj same), fun same => by rw [same]⟩
  rw [covers, constant?_literal, beq_eq_false_iff_ne.mpr special, Bool.false_or,
    Bool.eq_iff_iff, beq_iff_eq, decide_eq_true_iff]
  exact bits

theorem find?_arms {selected : List Bool} {values : List Nat} {choice : Nat → String} {value : Nat}
    (covered : ∀ other ∈ values,
      dialect.covers (choice other).toList selected = decide (other = value))
    (source : Nat → String) (target last : String) :
    ((values.map (fun other => ((choice other).toList, target, source other)) ++
        [((Variant.muxOthers dialect).toList, target, last)]).find? fun arm =>
          dialect.covers arm.1 selected).map (·.2) =
      some (target, if value ∈ values then source value else last) := by
  induction values with
  | nil => simp [covers]
  | cons other values ih =>
    obtain ⟨here, rest⟩ := forall_mem_cons.mp covered
    rw [map_cons, cons_append, find?_cons, here]
    by_cases same : other = value
    · simp [same]
    · simp only [decide_eq_false same, ih rest]
      simp [Ne.symm same]

theorem fields_intercalate {names : List String} (some : names ≠ [])
    (plain : ∀ name ∈ names, name ≠ "" ∧ ∀ c ∈ name.toList, (c == ',' || c == ' ') = false) :
    fields (fun c => c == ',' || c == ' ') (", ".intercalate names) = names := by
  induction names with
  | nil => exact absurd rfl some
  | cons name names ih =>
    obtain ⟨⟨filled, free⟩, rest⟩ := forall_mem_cons.mp plain
    have shown : name.toList ≠ [] := by simpa using filled
    cases names with
    | nil => simp [fields, splitList_of_free free, shown]
    | cons next names =>
      have form : (", ".intercalate (name :: next :: names)).toList =
          name.toList ++ ',' :: ([] ++ ' ' :: (", ".intercalate (next :: names)).toList) := by
        simp
      have later := ih (by simp) rest
      rw [fields] at later ⊢
      rw [form, splitList_append (by rfl), splitList_append (by rfl), splitList_of_free free]
      generalize (", ".intercalate (next :: names)).toList = text at later ⊢
      simp [splitList, shown, later]

end Dialect

end Schematic.Hdl

namespace Schematic.Variant

open Hdl Text

theorem muxSize_eq {select : Nat} (bounded : select < 63) :
    muxSize select = (2 ^ select : Nat) := by
  have below : 2 ^ select < 2 ^ 63 := Nat.pow_lt_pow_right (by omega) bounded
  rw [muxSize, Word.shiftOne, if_pos (by omega)]
  change Word.wrap ((2 ^ select : Nat) : Int) = _
  generalize 2 ^ select = size at below ⊢
  exact Word.wrap_of_fits (Word.fits_iff.mpr (by simp only [Word.least, Word.greatest]; omega))

/-- What the process of a multiplexer says: the last input stands behind the choice of all
others. -/
def muxSelection (dialect : Dialect) (select : Nat) (bus : Bool) : Selection where
  enable := "Enable".toList
  idle := (muxTarget dialect, muxZero dialect bus)
  selector := "Sel".toList
  arms := ((muxArms select).map fun arm =>
      ((dialect.literal arm.1 select).toList, muxTarget dialect, arm.2)) ++
    [((Variant.muxOthers dialect).toList, muxTarget dialect, muxDefault select)]

theorem mapM_readArm? (dialect : Dialect) (select : Nat) (bus : Bool) :
    (muxArmLines dialect select).mapM dialect.readArm? =
      some (muxSelection dialect select bus).arms := by
  have arms : ((muxArms select).map fun arm =>
      muxArm dialect (dialect.literal arm.1 select) arm.2).mapM dialect.readArm? =
        some ((muxArms select).map fun arm =>
          ((dialect.literal arm.1 select).toList, muxTarget dialect, arm.2)) := by
    rw [mapM_map]
    refine mapM_eq_pure_map fun arm _ => Dialect.readArm?_arm ⟨?_, ?_⟩ _
    all_goals
      intro member
      have found := Dialect.mem_literal member
      revert found
      decide
  have last := @Dialect.readArm?_arm dialect (muxOthers dialect) (by cases dialect <;> decide)
    (muxDefault select)
  rw [muxArmLines, mapM_append, arms, mapM_cons, last, mapM_nil]
  rfl

theorem map_unindented_muxArmLines (dialect : Dialect) (select : Nat) :
    (muxArmLines dialect select).map Dialect.unindented = muxArmLines dialect select := by
  refine Dialect.map_unindented ?_
  simp only [muxArmLines, forall_mem_append, forall_mem_map, forall_mem_singleton]
  cases dialect with
  | vhdl =>
    have starts : ∀ choice input : String, ∃ c rest,
        (muxArm .vhdl choice input).toList = c :: rest ∧ isBlank c = false :=
      fun _ _ => ⟨'w', _, by simp [muxArm]; rfl, by decide⟩
    exact ⟨fun _ _ => starts _ _, starts _ _⟩
  | verilog =>
    refine ⟨fun arm _ => ?_, 'd', _, by simp [muxArm, muxOthers]; rfl, by decide⟩
    have read := @Dialect.constant?_literal .verilog arm.1 select
    cases chars : (Dialect.literal .verilog arm.1 select).toList with
    | nil => rw [chars] at read; cases read
    | cons c rest =>
      refine ⟨c, _, by simp [muxArm, chars]; rfl, ?_⟩
      obtain digit | sign := Dialect.mem_literal (chars ▸ mem_cons_self ..)
      · exact Dialect.isBlank_of_isDigit digit
      · clear read chars
        revert c
        decide

theorem readSelection?_vhdl (select : Nat) (bus : Bool) :
    ∃ front lines, muxBody .vhdl select bus = front :: "begin" :: lines ∧
      Dialect.vhdl.readSelection? (lines.map Dialect.unindented) =
        some (muxSelection .vhdl select bus) := by
  have fixed : Dialect.unindented ("MuxOut <= " ++ muxZero .vhdl bus ++ ";") =
        "MuxOut <= " ++ muxZero .vhdl bus ++ ";" ∧
      ∀ line ∈ ["if (Enable = '0') then", "else", "case (Sel) is", "end case;", "end if;",
        "end process make_mux;"], Dialect.unindented line = line := by
    cases bus <;> decide
  have idle : Dialect.readDrive? ("MuxOut <= " ++ muxZero .vhdl bus ++ ";").toList =
      some ("MuxOut", muxZero .vhdl bus) := by cases bus <;> decide
  have arms := Dialect.readArms?_append (mapM_readArm? .vhdl select bus)
    ["end case;", "end if;", "end process make_mux;"]
  simp only [forall_mem_cons] at fixed
  simp only [muxBody, cons_append, nil_append]
  refine ⟨_, _, rfl, ?_⟩
  simp only [map_append, Dialect.map_unindented_nest, map_unindented_muxArmLines, map_cons, map_nil,
    fixed, append_assoc, cons_append, nil_append]
  exact Dialect.readSelection?_vhdl_eq (by decide) idle (by decide) arms

theorem readSelection?_verilog (select : Nat) (bus : Bool) :
    ∃ lines, muxBody .verilog select bus =
        "assign MuxOut = s_selected_vector;" :: "" :: "always @(*)" :: "begin" :: lines ∧
      Dialect.verilog.readSelection? (lines.map Dialect.unindented) =
        some (muxSelection .verilog select bus) := by
  have fixed : ∀ line ∈ ["if (~Enable) s_selected_vector <= 0;", "else case (Sel)", "endcase",
      "end"], Dialect.unindented line = line := by decide
  have arms := Dialect.readArms?_append (mapM_readArm? .verilog select bus) ["endcase", "end"]
  simp only [forall_mem_cons] at fixed
  simp only [muxBody, cons_append, nil_append]
  refine ⟨_, rfl, ?_⟩
  simp only [map_append, Dialect.map_unindented_nest, map_unindented_muxArmLines, map_cons, map_nil,
    fixed, append_assoc, cons_append, nil_append]
  have enable : dropStart? "if (~".toList "if (~Enable) s_selected_vector <= 0;".toList =
      some "Enable) s_selected_vector <= 0;".toList := by decide
  have idle : splitFirst? ") ".toList "Enable) s_selected_vector <= 0;".toList =
      some ("Enable".toList, "s_selected_vector <= 0;".toList) := by decide
  exact Dialect.readSelection?_verilog_eq enable idle (by cases bus <;> decide) (by decide) arms

theorem output?_muxBody {dialect : Dialect} {select : Nat} {bus : Bool}
    {levels : String → List Bool} {source : String}
    (taken : dialect.taken? (muxSelection dialect select bus) levels =
      some (muxTarget dialect, source)) :
    dialect.output? (muxBody dialect select bus) "MuxOut" levels = some source := by
  cases dialect with
  | vhdl =>
    obtain ⟨front, lines, form, read⟩ := readSelection?_vhdl select bus
    simp only [form, Dialect.output?, read, Option.bind_eq_bind, Option.bind_some, taken]
    rfl
  | verilog =>
    obtain ⟨lines, form, read⟩ := readSelection?_verilog select bus
    have wire : Dialect.inner? ("assign " ++ "MuxOut" ++ " = ") ";"
        "assign MuxOut = s_selected_vector;" = some "s_selected_vector".toList := by decide
    simp only [form, Dialect.output?, wire, read, Option.bind_eq_bind, Option.bind_some, taken]
    rfl

theorem plain_muxSensitivity (select : Nat) : ∀ name ∈ muxSensitivity select,
    name ≠ "" ∧ ∀ c ∈ name.toList, (c == ',' || c == ' ') = false := by
  simp only [muxSensitivity, forall_mem_cons]
  refine ⟨by decide, by decide, fun name listed => ?_⟩
  obtain ⟨number, _, rfl⟩ := mem_map.mp listed
  have form : (muxInput number).toList = "MuxIn_".toList ++ (toString (number : Int)).toList := by
    rw [← String.toList_append]
    rfl
  refine ⟨fun same => by simp [same] at form, fun c member => ?_⟩
  rw [form, mem_append] at member
  obtain stem | digits := member
  · revert c
    decide
  · rw [Bool.or_eq_false_iff, beq_eq_false_iff_ne, beq_eq_false_iff_ne]
    constructor <;> rintro rfl
    · exact not_mem_toString_int (by decide) (by decide) _ digits
    · exact not_mem_toString_int (by decide) (by decide) _ digits

theorem sensitivity?_muxBody (select : Nat) (bus : Bool) :
    Dialect.sensitivity? (muxBody .vhdl select bus) = some (muxSensitivity select) := by
  have first : (muxBody .vhdl select bus).head? =
      some ("make_mux : process(" ++ ", ".intercalate (muxSensitivity select) ++ ")") := rfl
  have form : ("make_mux : process(" ++ ", ".intercalate (muxSensitivity select) ++ ")").toList =
      "make_mux : process".toList ++ ('(' :: [] ++
        ((", ".intercalate (muxSensitivity select)).toList ++ [')'])) := by
    simp only [String.toList_append]
    rfl
  have names := Dialect.fields_intercalate (by simp [muxSensitivity]) (plain_muxSensitivity select)
  simp only [Dialect.sensitivity?, first, form, Option.bind_eq_bind, Option.bind_some,
    splitFirst?_pattern (show '(' ∉ "make_mux : process".toList by decide),
    Dialect.withoutLast?_concat, String.ofList_toList, names]
  rfl

theorem nodup_muxPorts (select : Nat) :
    (muxInputNames select ++ ["Sel", "Enable", "MuxOut"]).Nodup := by
  have apart : ((Variant.mux select false).openEntries.map fun entry => lower entry.name).Nodup :=
    nodup_openEntries rfl
  have names : ((muxInputNames select ++ ["Sel", "Enable", "MuxOut"]).map lower).Nodup := by
    simpa [openEntries, Function.comp_def] using apart
  exact names.of_map

theorem inputs_mux (dialect : Dialect) (vendor : Vendor) (module : String) (select : Nat)
    (bus : Bool) :
    ((Variant.mux select bus).interface dialect vendor module).inputs.map Prod.fst ~
      muxInputNames select ++ ["Sel", "Enable"] := by
  have unchanged : ((Variant.mux select bus).interface dialect vendor module).inputs =
      ((Variant.mux select bus).generics.addPorts
        (Variant.mux select bus).entries).side .input := by
    rw [← ports]
    cases dialect <;> rfl
  have portless := portless_generics (.mux select bus)
  have apart : (muxInputNames select ++ ["Sel", "Enable"]).Nodup :=
    (nodup_muxPorts select).sublist (Sublist.append_left (by decide) _)
  have ordered : (((Variant.mux select bus).generics.addPorts
      (Variant.mux select bus).entries).side .input).Ordered := by
    rw [Interface.side_addPorts, portless]
    exact Table.ordered_nil.insertAll _
  rw [unchanged]
  refine (perm_ext_iff_of_nodup ordered.nodup apart).mpr fun name => ?_
  rw [Interface.mem_side_addPorts portless]
  have shown : (Variant.mux select bus).entries = (Variant.mux select bus).openEntries :=
    append_nil _
  simp only [shown, openEntries, mem_append, mem_map, mem_cons, PortEntry.mk.injEq, not_mem_nil]
  grind

theorem taken?_selected {dialect : Dialect} {select value : Nat} (bus : Bool)
    (bounded : select < 63) (low : value < 2 ^ select) {levels : String → List Bool}
    (enabled : levels "Enable" = [true])
    (selected : levels "Sel" = (List.range select).reverse.map value.testBit) :
    dialect.taken? (muxSelection dialect select bus) levels =
      some (muxTarget dialect, muxInput value) := by
  have count : (muxSize select - 1).toNat = 2 ^ select - 1 := by
    rw [muxSize_eq bounded]
    omega
  have last : muxDefault select = muxInput (2 ^ select - 1 : Nat) := by
    rw [muxDefault, muxSize_eq bounded]
    congr 1
    omega
  have covered : ∀ other ∈ List.range (2 ^ select - 1),
      dialect.covers (dialect.literal other select).toList
        ((List.range select).reverse.map value.testBit) = decide (other = value) := by
    intro other listed
    rw [mem_range] at listed
    exact Dialect.covers_literal (by omega) low
  calc
    _ = some (muxTarget dialect,
          if value ∈ List.range (2 ^ select - 1) then muxInput value else muxDefault select) := by
      rw [← Dialect.find?_arms covered (fun other => muxInput other), Dialect.taken?, muxSelection,
        String.ofList_toList, String.ofList_toList, enabled, selected, muxArms, count, map_map]
      rfl
    _ = some (muxTarget dialect, muxInput value) := by
      split
      case isTrue => rfl
      case isFalse above =>
        rw [mem_range] at above
        rw [last, show value = 2 ^ select - 1 by omega]

theorem spread?_muxZero (dialect : Dialect) {width : Nat} (filled : 1 ≤ width) :
    dialect.spread? width (muxZero dialect (1 < width)).toList =
      some (List.replicate width false) := by
  cases dialect with
  | vhdl =>
    by_cases single : width = 1
    · subst single
      rfl
    · rw [show decide (1 < width) = true by simp; omega]
      simp only [Dialect.spread?, if_neg single]
      rfl
  | verilog =>
    have zero : readNat? "0".toList = some 0 := by decide
    have bits : (List.range width).reverse.map (Nat.testBit 0) = replicate width false := by
      rw [eq_replicate_iff]
      simp
    simp only [Dialect.spread?, muxZero, zero, Option.map_some, bits]

/-- **Multiplexers select by index.** For every count of select bits, every width of the data and
both dialects, the output takes the input whose number the select input has when the enable input is
high, and zeros when it is low. The inputs of the interface, of an instance and of the sensitivity
list are the data inputs, the select and the enable input, each once. -/
theorem mux_selects_by_index (dialect : Dialect) (vendor : Vendor) (module : String)
    {select width : Nat} (bounded : select < 63) (filled : 1 ≤ width) :
    let variant := Variant.mux select (1 < width)
    let body := variant.body dialect
    let names :=
      (List.range (2 ^ select)).map (fun number : Nat => muxInput number) ++ ["Sel", "Enable"]
    (∀ value : Nat, value < 2 ^ select → ∀ levels, levels "Enable" = [true] →
      levels "Sel" = (List.range select).reverse.map value.testBit →
        dialect.output? body "MuxOut" levels = some (muxInput value)) ∧
    (∀ levels, levels "Enable" = [false] → ∃ zero,
      dialect.output? body "MuxOut" levels = some zero ∧
        dialect.spread? width zero.toList = some (List.replicate width false)) ∧
    names.Nodup ∧
    (variant.interface dialect vendor module).inputs.map Prod.fst ~ names ∧
    variant.specs.map (·.name) = names ++ ["MuxOut"] ∧
    (dialect = .vhdl → ∃ listed, Dialect.sensitivity? body = some listed ∧ listed ~ names) := by
  intro variant body names
  have size := muxSize_eq bounded
  have inputs : muxInputNames select =
      (List.range (2 ^ select)).map (fun number : Nat => muxInput number) := by
    rw [muxInputNames, size, Int.toNat_natCast]
  have sized : (Variant.mux select (1 < width)).specs.map (·.name) = names ++ ["MuxOut"] := by
    rw [specs_names, openEntries, inputs]
    simp [names, Function.comp_def]
  refine ⟨fun value low levels enabled selected =>
      output?_muxBody (taken?_selected _ bounded low enabled selected), fun levels disabled =>
    ⟨muxZero dialect (1 < width), output?_muxBody (if_pos disabled),
      spread?_muxZero dialect filled⟩, ?_, ?_, sized, ?_⟩
  · have apart := nodup_muxPorts select
    rw [inputs] at apart
    exact apart.sublist (Sublist.append_left (by decide) _)
  · have declared := inputs_mux dialect vendor module select (1 < width)
    rwa [inputs] at declared
  · rintro rfl
    refine ⟨_, sensitivity?_muxBody select _, ?_⟩
    rw [muxSensitivity, inputs]
    change ["Enable", "Sel"] ++ _ ~ _
    exact perm_append_comm.trans (Perm.append_left _ (Perm.swap ..))

/-- The last of four inputs of eight bits, which stands behind the choice of all others. -/
theorem last_of_four_selected : 2 < 63 ∧ 1 ≤ 8 ∧
    Dialect.output? .verilog ((Variant.mux 2 true).body .verilog) "MuxOut"
      (fun signal => if signal = "Enable" then [true] else [true, true]) = some "MuxIn_3" :=
  have selects := (mux_selects_by_index .verilog .altera "MUX" (show 2 < 63 by decide)
    (show 1 ≤ 8 by decide)).1 3 (by decide) _ rfl rfl
  ⟨by decide, by decide, selects⟩

end Schematic.Variant
