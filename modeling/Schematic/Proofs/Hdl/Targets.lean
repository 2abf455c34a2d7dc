import Schematic.Component.Memory
import Schematic.Proofs.File.Path
import Schematic.Proofs.Naming.Legal
import Schematic.Proofs.Text.Quoted

/-! # Files of design units -/

open List

namespace Schematic

open Hdl

def Hdl.Vendor.memoryExtension : Vendor → String
  | .altera => "mif"
  | _ => "mem"

namespace MemoryContents

def laneStem (module : String) (lane lanes : Nat) : String :=
  if 1 < lanes then module ++ "_" ++ toString lane else module

theorem fileName_eq (module : String) (lane lanes : Nat) (vendor : Vendor) :
    fileName module lane lanes vendor =
      laneStem module lane lanes ++ "." ++ vendor.memoryExtension := by
  have several : (1 < (lanes : Int)) ↔ 1 < lanes := by omega
  rw [String.append_assoc]
  unfold fileName laneStem
  simp only [several]
  cases vendor <;> rfl

theorem laneStem_eq_iff {first second : String} (differ : first ≠ second)
    (lane other lanes others : Nat) : laneStem first lane lanes = laneStem second other others ↔
      (lanes ≤ 1 ∧ 1 < others ∧ first = second ++ "_" ++ toString other) ∨
        (others ≤ 1 ∧ 1 < lanes ∧ second = first ++ "_" ++ toString lane) := by
  unfold laneStem
  by_cases several : 1 < lanes
  · by_cases othersSeveral : 1 < others
    · simp only [several, othersSeveral, ↓reduceIte, Nat.not_le.mpr several,
        Nat.not_le.mpr othersSeveral, false_and, or_self, iff_false]
      exact fun same => differ (Text.numbered_inj same).1
    · simp only [several, othersSeveral, ↓reduceIte, Nat.not_le.mpr several, false_and, false_or,
        Nat.not_lt.mp othersSeveral, true_and]
      exact eq_comm
  · by_cases othersSeveral : 1 < others
    · simp only [several, othersSeveral, ↓reduceIte, Nat.not_le.mpr othersSeveral, false_and,
        or_false, Nat.not_lt.mp several, true_and]
    · simp only [several, othersSeveral, ↓reduceIte, false_and, and_false, or_self, iff_false]
      exact differ

theorem isIdentifier_laneStem {module : String} (identifier : Naming.IsIdentifier module)
    (lane lanes : Nat) : Naming.IsIdentifier (laneStem module lane lanes) := by
  unfold laneStem
  split
  · exact (identifier.append (Naming.isNameChar_of_all (by decide))).append fun c member =>
      Naming.isNameChar_of_mem_toString member
  · exact identifier

end MemoryContents

namespace Naming.IsIdentifier

variable {stem : String}

theorem dot_not_mem (identifier : IsIdentifier stem) : '.' ∉ stem.toList := by
  intro member
  have dot := identifier.chars '.' member
  revert dot
  decide

theorem isName_file (identifier : IsIdentifier stem) {extension : String}
    (free : '/' ∉ extension.toList) : Path.IsName (stem ++ "." ++ extension) := by
  obtain ⟨c, rest, chars⟩ := exists_cons_of_ne_nil
    (mt String.toList_inj.mp identifier.nonempty : stem.toList ≠ "".toList)
  have other : c ≠ '.' := by
    rintro rfl
    exact identifier.dot_not_mem (by rw [chars]; exact mem_cons_self ..)
  have start : (stem ++ "." ++ extension).toList.head? = some c := by
    rw [String.toList_append, String.toList_append, chars]
    rfl
  have differs : ∀ text : String, text.toList.head? ≠ some c → stem ++ "." ++ extension ≠ text := by
    rintro _ wrong rfl
    exact wrong start
  refine ⟨⟨differs "" (by simp), differs "." ?_, ?_⟩, differs ".." ?_⟩
  · exact fun same => other (Option.some.inj same).symm
  · intro member
    simp only [String.toList_append, mem_append] at member
    obtain (member | member) | member := member
    · have slash := identifier.chars '/' member
      revert slash
      decide
    · revert member
      decide
    · exact free member
  · exact fun same => other (Option.some.inj same).symm

end Naming.IsIdentifier

namespace Hdl.DesignUnit

def sourceStems (unit : DesignUnit) (dialect : Dialect) : List String :=
  match unit.verbatim, dialect with
  | some _, _ => [unit.name]
  | none, .vhdl =>
    (if unit.entity.isEmpty then [] else [unit.name ++ entitySuffix]) ++
      [unit.name ++ behaviorSuffix]
  | none, .verilog => [unit.name]

def fileParts (unit : DesignUnit) (dialect : Dialect) (vendor : Vendor) : List (String × String) :=
  (unit.sourceStems dialect).map (·, dialect.extension) ++
    (List.range unit.attachments.length).map fun lane =>
      (MemoryContents.laneStem unit.name lane unit.attachments.length, vendor.memoryExtension)

structure Regular (unit : DesignUnit) (dialect : Dialect) (vendor : Vendor) : Prop where
  named : Naming.IsIdentifier unit.name
  placed : Path.IsName unit.category
  divided : dialect = .vhdl → unit.verbatim = none → unit.entity ≠ []
  attached : unit.attachments.map (·.name) =
    (List.range unit.attachments.length).map fun lane =>
      MemoryContents.fileName unit.name lane unit.attachments.length vendor
  memory : unit.attachments ≠ [] → unit.category = "memory"

def partPath (root : String) (dialect : Dialect) (category : String) (part : String × String) :
    String :=
  Path.join [root, dialect.directory, category, part.1 ++ "." ++ part.2]

theorem isName_directory (dialect : Dialect) : Path.IsName dialect.directory := by
  cases dialect <;> exact ⟨⟨by decide, by decide, by decide⟩, by decide⟩

theorem isIdentifier_of_mem_sourceStems {unit : DesignUnit} {dialect : Dialect} {stem : String}
    (named : Naming.IsIdentifier unit.name) (member : stem ∈ unit.sourceStems dialect) :
    Naming.IsIdentifier stem := by
  have suffixed : ∀ suffix ∈ [entitySuffix, behaviorSuffix],
      Naming.IsIdentifier (unit.name ++ suffix) := by
    have plain : ∀ suffix ∈ [entitySuffix, behaviorSuffix],
        suffix.toList.all Naming.isNameChar = true := by decide
    intro suffix listed
    exact named.append (Naming.isNameChar_of_all (plain suffix listed))
  simp only [sourceStems] at member
  split at member
  · rw [mem_singleton.mp member]
    exact named
  · obtain member | member := mem_append.mp member
    · split at member
      · cases member
      · rw [mem_singleton.mp member]
        exact suffixed _ (by simp)
    · rw [mem_singleton.mp member]
      exact suffixed _ (by simp)
  · rw [mem_singleton.mp member]
    exact named

theorem targets_eq_sources (unit : DesignUnit) (root : String) (dialect : Dialect) :
    unit.targets root dialect =
      (unit.sourceStems dialect).map (sourcePath root dialect unit.category) ++
        unit.attachments.map fun file =>
          Path.join [Path.join [root, dialect.directory, unit.category], file.name] := by
  simp only [targets, files, sourceStems, map_append, map_map]
  congr 1
  cases unit.verbatim with
  | some text => rfl
  | none =>
    cases dialect with
    | verilog => rfl
    | vhdl =>
      dsimp only
      split <;> rfl

/-- A text that was written elsewhere is called as a source file of the other unit. -/
def ImitatesSource (dialect : Dialect) (first second : DesignUnit) : Prop :=
  dialect = .vhdl ∧ first.verbatim.isSome = true ∧ second.verbatim = none ∧
    (first.name = second.name ++ entitySuffix ∨ first.name = second.name ++ behaviorSuffix)

/-- A memory with one lane is called as a lane of the other unit. -/
def ImitatesLane (first second : DesignUnit) : Prop :=
  first.attachments.length = 1 ∧ ∃ lane < second.attachments.length,
    1 < second.attachments.length ∧ first.name = second.name ++ "_" ++ toString lane

/-- A file of a unit is called as one of another unit in the same directory. -/
def Clashes (dialect : Dialect) (first second : DesignUnit) : Prop :=
  (first.category = second.category ∧ first.ImitatesSource dialect second) ∨
    first.ImitatesLane second

instance (dialect : Dialect) (first second : DesignUnit) :
    Decidable (first.ImitatesSource dialect second) :=
  inferInstanceAs (Decidable (_ ∧ _ ∧ _ ∧ _))

instance (first second : DesignUnit) : Decidable (first.ImitatesLane second) :=
  inferInstanceAs (Decidable (_ ∧ _))

instance (dialect : Dialect) (first second : DesignUnit) :
    Decidable (first.Clashes dialect second) :=
  inferInstanceAs (Decidable (_ ∨ _))

namespace Regular

variable {unit first second : DesignUnit} {dialect : Dialect} {vendor : Vendor}

section

variable {part : String × String} (regular : unit.Regular dialect vendor)
  (member : part ∈ unit.fileParts dialect vendor)
include regular member

theorem isIdentifier_part : Naming.IsIdentifier part.1 := by
  obtain member | member := mem_append.mp member
  · obtain ⟨stem, listed, rfl⟩ := mem_map.mp member
    exact isIdentifier_of_mem_sourceStems regular.named listed
  · obtain ⟨lane, _, rfl⟩ := mem_map.mp member
    exact MemoryContents.isIdentifier_laneStem regular.named ..

theorem isName_part : Path.IsName (part.1 ++ "." ++ part.2) := by
  refine (regular.isIdentifier_part member).isName_file ?_
  obtain member | member := mem_append.mp member
  · have free : '/' ∉ dialect.extension.toList := by cases dialect <;> decide
    obtain ⟨stem, listed, rfl⟩ := mem_map.mp member
    exact free
  · have free : '/' ∉ vendor.memoryExtension.toList := by cases vendor <;> decide
    obtain ⟨lane, _, rfl⟩ := mem_map.mp member
    exact free

theorem isName_place :
    ∀ name ∈ [dialect.directory, unit.category, part.1 ++ "." ++ part.2], Path.IsName name := by
  intro name listed
  simp only [mem_cons, not_mem_nil, or_false] at listed
  obtain rfl | rfl | rfl := listed
  · exact isName_directory dialect
  · exact regular.placed
  · exact regular.isName_part member

end

theorem targets_eq (regular : unit.Regular dialect vendor) (root : String) :
    unit.targets root dialect =
      (unit.fileParts dialect vendor).map (partPath root dialect unit.category) := by
  rw [targets_eq_sources, fileParts, map_append, map_map]
  congr 1
  have byName : (unit.attachments.map fun file =>
      Path.join [Path.join [root, dialect.directory, unit.category], file.name]) =
      (unit.attachments.map (·.name)).map fun file =>
        Path.join [Path.join [root, dialect.directory, unit.category], file] := by
    rw [map_map]
    rfl
  rw [byName, regular.attached, map_map, map_map]
  refine map_congr_left fun lane listed => ?_
  have member : (MemoryContents.laneStem unit.name lane unit.attachments.length,
      vendor.memoryExtension) ∈ unit.fileParts dialect vendor :=
    mem_append_right _ (mem_map.mpr ⟨lane, listed, rfl⟩)
  simp only [Function.comp_apply, MemoryContents.fileName_eq, partPath]
  have plain := regular.isName_place member
  refine Path.join_join (by simp) (fun name listed => ?_) (by simp) (fun name listed => ?_)
  · exact plain name (mem_append_left [_] listed)
  · exact plain name (mem_append_right [_, _] listed)

theorem part_eq (firstRegular : first.Regular dialect vendor)
    (secondRegular : second.Regular dialect vendor) {firstPart secondPart : String × String}
    (firstListed : firstPart ∈ first.fileParts dialect vendor)
    (secondListed : secondPart ∈ second.fileParts dialect vendor)
    (same : firstPart.1 ++ "." ++ firstPart.2 = secondPart.1 ++ "." ++ secondPart.2) :
    firstPart = secondPart := by
  have lists := congrArg String.toList same
  simp only [String.toList_append, append_assoc] at lists
  obtain ⟨stems, extensions⟩ := Text.split_unique
    (firstRegular.isIdentifier_part firstListed).dot_not_mem
    (secondRegular.isIdentifier_part secondListed).dot_not_mem lists
  exact Prod.ext (String.toList_inj.mp stems) (String.toList_inj.mp extensions)

theorem exists_target_iff (firstRegular : first.Regular dialect vendor)
    (secondRegular : second.Regular dialect vendor) (root : String) :
    (∃ path, path ∈ first.targets root dialect ∧ path ∈ second.targets root dialect) ↔
      first.category = second.category ∧ ∃ part, part ∈ first.fileParts dialect vendor ∧
        part ∈ second.fileParts dialect vendor := by
  rw [firstRegular.targets_eq, secondRegular.targets_eq]
  constructor
  · rintro ⟨path, firstPath, secondPath⟩
    obtain ⟨part, firstListed, rfl⟩ := mem_map.mp firstPath
    obtain ⟨other, secondListed, same⟩ := mem_map.mp secondPath
    have places := Path.join_injective (by simp) (secondRegular.isName_place secondListed) (by simp)
      (firstRegular.isName_place firstListed) same
    simp only [List.cons.injEq, and_true, true_and] at places
    refine ⟨places.1.symm, part, firstListed, ?_⟩
    rw [← part_eq secondRegular firstRegular secondListed firstListed places.2]
    exact secondListed
  · rintro ⟨directory, part, firstListed, secondListed⟩
    refine ⟨partPath root dialect first.category part, mem_map.mpr ⟨part, firstListed, rfl⟩, ?_⟩
    rw [directory]
    exact mem_map.mpr ⟨part, secondListed, rfl⟩

theorem sourceStems_eq (regular : unit.Regular dialect vendor) : unit.sourceStems dialect =
      if dialect = .vhdl ∧ unit.verbatim = none then
        [unit.name ++ entitySuffix, unit.name ++ behaviorSuffix] else [unit.name] := by
  cases verbatim : unit.verbatim with
  | some text => simp [sourceStems, verbatim]
  | none =>
    cases dialect with
    | verilog => simp [sourceStems, verbatim]
    | vhdl => simp [sourceStems, verbatim, regular.divided rfl verbatim]

theorem suffixed_inj {name other suffix otherSuffix : String}
    (listed : suffix ∈ [entitySuffix, behaviorSuffix])
    (otherListed : otherSuffix ∈ [entitySuffix, behaviorSuffix])
    (same : name ++ suffix = other ++ otherSuffix) : name = other := by
  have lists := congrArg String.toList same
  rw [String.toList_append, String.toList_append] at lists
  have nonempty : ∀ word ∈ [entitySuffix, behaviorSuffix], word.toList ≠ [] := by decide
  -- The two words end in different characters, so the end of a joined name tells which one it is.
  have told : ∀ word ∈ [entitySuffix, behaviorSuffix], ∀ other ∈ [entitySuffix, behaviorSuffix],
      word.toList.getLast? = other.toList.getLast? → word = other := by decide
  have ends := congrArg List.getLast? lists
  rw [List.getLast?_append_of_ne_nil _ (nonempty suffix listed),
    List.getLast?_append_of_ne_nil _ (nonempty otherSuffix otherListed)] at ends
  rw [told suffix listed otherSuffix otherListed ends] at lists
  exact String.toList_inj.mp (append_cancel_right lists)

theorem exists_sourceStem_iff (firstRegular : first.Regular dialect vendor)
    (secondRegular : second.Regular dialect vendor) (differ : first.name ≠ second.name) :
    (∃ stem, stem ∈ first.sourceStems dialect ∧ stem ∈ second.sourceStems dialect) ↔
      first.ImitatesSource dialect second ∨ second.ImitatesSource dialect first := by
  rw [firstRegular.sourceStems_eq, secondRegular.sourceStems_eq]
  unfold ImitatesSource
  cases dialect with
  | verilog => simpa using differ
  | vhdl =>
    cases firstVerbatim : first.verbatim with
    | some text =>
      cases secondVerbatim : second.verbatim with
      | some other => simpa using differ
      | none => simp
    | none =>
      cases secondVerbatim : second.verbatim with
      | some other => simp [or_comm, eq_comm]
      | none =>
        simp only [and_self, ↓reduceIte, Option.isSome_none, Bool.false_eq_true, false_and,
          and_false, or_self, iff_false, not_exists, not_and]
        intro stem firstListed secondListed
        have marked : ∀ name : String, [name ++ entitySuffix, name ++ behaviorSuffix] =
            [entitySuffix, behaviorSuffix].map (name ++ ·) := fun _ => rfl
        rw [marked] at firstListed secondListed
        obtain ⟨suffix, known, rfl⟩ := mem_map.mp firstListed
        obtain ⟨other, otherKnown, same⟩ := mem_map.mp secondListed
        exact differ (suffixed_inj otherKnown known same).symm

theorem exists_filePart_iff :
    (∃ part, part ∈ first.fileParts dialect vendor ∧ part ∈ second.fileParts dialect vendor) ↔
      (∃ stem, stem ∈ first.sourceStems dialect ∧ stem ∈ second.sourceStems dialect) ∨
        ∃ lane < first.attachments.length, ∃ other < second.attachments.length,
          MemoryContents.laneStem first.name lane first.attachments.length =
            MemoryContents.laneStem second.name other second.attachments.length := by
  have differ : dialect.extension ≠ vendor.memoryExtension := by
    cases dialect <;> cases vendor <;> decide
  have listed : ∀ (unit : DesignUnit) (part : String × String),
      part ∈ unit.fileParts dialect vendor ↔
        (∃ stem ∈ unit.sourceStems dialect, (stem, dialect.extension) = part) ∨
          ∃ lane < unit.attachments.length, (MemoryContents.laneStem unit.name lane
            unit.attachments.length, vendor.memoryExtension) = part := by
    intro unit part
    simp only [fileParts, mem_append, mem_map, mem_range]
  simp only [listed]
  constructor
  · rintro ⟨part, ⟨stem, known, rfl⟩ | ⟨lane, known, rfl⟩, ⟨other, otherKnown, same⟩ |
      ⟨other, otherKnown, same⟩⟩
    · rw [Prod.mk.injEq] at same
      exact .inl ⟨stem, known, same.1 ▸ otherKnown⟩
    · exact absurd (congrArg Prod.snd same).symm differ
    · exact absurd (congrArg Prod.snd same) differ
    · rw [Prod.mk.injEq] at same
      exact .inr ⟨lane, known, other, otherKnown, same.1.symm⟩
  · rintro (⟨stem, known, otherKnown⟩ | ⟨lane, known, other, otherKnown, same⟩)
    · exact ⟨_, .inl ⟨stem, known, rfl⟩, .inl ⟨stem, otherKnown, rfl⟩⟩
    · exact ⟨_, .inr ⟨lane, known, rfl⟩, .inr ⟨other, otherKnown, by rw [same]⟩⟩

theorem exists_laneStem_iff (differ : first.name ≠ second.name) :
    (∃ lane < first.attachments.length, ∃ other < second.attachments.length,
        MemoryContents.laneStem first.name lane first.attachments.length =
          MemoryContents.laneStem second.name other second.attachments.length) ↔
      first.ImitatesLane second ∨ second.ImitatesLane first := by
  simp only [MemoryContents.laneStem_eq_iff differ]
  constructor
  · rintro ⟨lane, known, other, otherKnown, ⟨single, several, same⟩ | ⟨single, several, same⟩⟩
    · exact .inl ⟨by omega, other, otherKnown, several, same⟩
    · exact .inr ⟨by omega, lane, known, several, same⟩
  · rintro (⟨single, lane, known, several, same⟩ | ⟨single, lane, known, several, same⟩)
    · exact ⟨0, by omega, lane, known, .inl ⟨by omega, several, same⟩⟩
    · exact ⟨lane, known, 0, by omega, .inr ⟨by omega, several, same⟩⟩

theorem clashes_iff (firstRegular : first.Regular dialect vendor)
    (secondRegular : second.Regular dialect vendor) (differ : first.name ≠ second.name)
    (root : String) :
    (∃ path, path ∈ first.targets root dialect ∧ path ∈ second.targets root dialect) ↔
      first.Clashes dialect second ∨ second.Clashes dialect first := by
  have together : first.ImitatesLane second ∨ second.ImitatesLane first →
      first.category = second.category := by
    have memories : first.attachments ≠ [] → second.attachments ≠ [] →
        first.category = second.category := fun firstSome secondSome =>
      (firstRegular.memory firstSome).trans (secondRegular.memory secondSome).symm
    rintro (⟨single, lane, known, _⟩ | ⟨single, lane, known, _⟩)
    · exact memories (ne_nil_of_length_pos (by omega)) (ne_nil_of_length_pos (by omega))
    · exact memories (ne_nil_of_length_pos (by omega)) (ne_nil_of_length_pos (by omega))
  rw [exists_target_iff firstRegular secondRegular, exists_filePart_iff,
    exists_sourceStem_iff firstRegular secondRegular differ, exists_laneStem_iff differ]
  unfold Clashes
  rw [eq_comm (a := second.category)]
  tauto

end Regular

end Hdl.DesignUnit

end Schematic
