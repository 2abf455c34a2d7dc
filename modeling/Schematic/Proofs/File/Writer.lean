import Schematic.File.Writer
import Schematic.Proofs.Hdl.Targets

/-! # Files of a tree, and the writer of units -/

open List

namespace Schematic

theorem Table.find?_insert {κ α : Type} [LT κ] [DecidableLT κ] [DecidableEq κ] {key other : κ}
    {value found : α} {table : Table κ α}
    (known : (table.insert key value).find? other = some found) :
    (other = key ∧ found = value) ∨ table.find? other = some found := by
  induction table with
  | nil =>
    simp only [insert, find?] at known
    split at known
    case isTrue same => exact .inl ⟨same, (Option.some.inj known).symm⟩
    case isFalse => cases known
  | cons entry rest ih =>
    obtain ⟨k, v⟩ := entry
    simp only [insert] at known
    split at known
    case isTrue equal =>
      simp only [find?] at known ⊢
      split at known
      case isTrue same => exact .inl ⟨same, (Option.some.inj known).symm⟩
      case isFalse differ => exact .inr (by rw [if_neg (equal ▸ differ), known])
    case isFalse =>
      split at known
      case isTrue =>
        rw [find?] at known
        split at known
        case isTrue same => exact .inl ⟨same, (Option.some.inj known).symm⟩
        case isFalse => exact .inr known
      case isFalse =>
        simp only [find?] at known ⊢
        split at known
        case isTrue same => exact .inr (by rw [if_pos same, known])
        case isFalse differ => rw [if_neg differ]; exact ih known

namespace FileTree

variable {path content : String} {place : Place}

def FilesAt (allowed : Place → Prop) (tree : FileTree) : Prop :=
  ∀ place content, tree.entries.find? place = some (.file content) → allowed place

variable {allowed : Place → Prop} {tree : FileTree}

section

variable (files : tree.FilesAt allowed)
include files

theorem FilesAt.addDirectories (place : Place) : (tree.addDirectories place).FilesAt allowed := by
  simp only [FilesAt, FileTree.addDirectories]
  refine List.foldlRecOn (motive := fun entries : Table Place Entry => ∀ place content,
    entries.find? place = some (.file content) → allowed place) _ _ files ?_
  intro entries files directory _ place content known
  split at known
  · exact files place content known
  · obtain ⟨_, wrong⟩ | known := Table.find?_insert known
    · cases wrong
    · exact files place content known

theorem FilesAt.makeOne {later : FileTree}
    (made : tree.makeOne path = .ok later) : later.FilesAt allowed := by
  simp only [FileTree.makeOne] at made
  split at made
  case h_1 => exact Except.ok.inj made ▸ files
  case h_6 => exact Except.ok.inj made ▸ files.addDirectories _
  all_goals cases made

theorem FilesAt.makeAll (paths : List String) : (tree.makeAll paths).1.FilesAt allowed := by
  induction paths generalizing tree with
  | nil => exact files
  | cons path paths ih =>
    simp only [FileTree.makeAll]
    split
    case h_1 later made => exact ih (files.makeOne made)
    case h_2 => exact files

theorem FilesAt.write (right : allowed (tree.placeOf path)) (content : String) :
    (tree.write path content).FilesAt allowed := by
  intro place found known
  obtain ⟨rfl, _⟩ | known := Table.find?_insert known
  · exact right
  · exact files.addDirectories _ place found known

theorem FilesAt.create (right : ∀ tree : FileTree, allowed (tree.placeOf path)) (content : String) :
    (tree.create path content).1.FilesAt allowed := by
  have made : (tree.makeDirectory (Path.directory path)).1.FilesAt allowed := files.makeAll _
  unfold FileTree.create
  split
  · exact files
  · unfold replace
    split
    case h_1 later _ stopped =>
      rw [stopped] at made
      exact made
    case h_2 later stopped =>
      rw [stopped] at made
      split
      · exact made
      · exact FilesAt.write made (right later) content

end

theorem status_of_read (found : tree.read path = .ok content) :
    tree.status path = .file content := by
  simp only [read] at found
  split at found
  case h_6 known =>
    cases found
    exact known
  all_goals cases found

theorem entry_of_statusAt (found : tree.statusAt place = .file content) :
    tree.entries.find? place = some (.file content) := by
  simp only [statusAt] at found
  split at found
  case h_1 known =>
    cases found
    exact known
  case h_2 => cases found
  case h_3 =>
    split at found
    · cases found
    · split at found <;> cases found

theorem statusAt_of_walk {elements : List String}
    (found : tree.walk place elements = .file content) :
    tree.statusAt (elements.foldl step place) = .file content := by
  induction elements generalizing place with
  | nil => exact found
  | cons element elements ih =>
    simp only [walk] at found
    split at found
    case h_1 =>
      split at found
      · cases found
      · exact ih found
    case h_2 => cases found
    case h_3 status _ other => exact absurd found (other content)

section Ends

variable {path : String} {front names : List String}
  (divided : Text.splitAt '/' path = front ++ names) (plain : ∀ name ∈ names, Path.IsName name)
include divided plain

theorem exists_placeOf (tree : FileTree) : ∃ above, tree.placeOf path = above ++ names := by
  unfold placeOf
  split
  · exact Path.exists_resolved divided plain
  · have whole := Path.splitAt_append ("/" ++ "/".intercalate tree.current) path
    rw [divided, ← append_assoc] at whole
    exact Path.exists_resolved whole plain

omit divided in
theorem foldl_step (place : Place) : names.foldl step place = place ++ names := by
  induction names generalizing place with
  | nil => rw [foldl_nil, append_nil]
  | cons name names ih =>
    have here := plain name (mem_cons_self ..)
    have down : step place name = place ++ [name] := by
      simp [step, here.nonempty, here.elsewhere, here.down]
    rw [foldl_cons, down, ih fun name member => plain name (mem_cons_of_mem _ member),
      append_assoc, singleton_append]

theorem exists_of_status {content : String} (found : tree.status path = .file content) :
    ∃ above, tree.entries.find? (above ++ names) = some (.file content) := by
  simp only [status] at found
  split at found
  · cases found
  split at found
  · cases found
  split at found
  · cases found
  have entry := entry_of_statusAt (statusAt_of_walk found)
  rw [divided, foldl_append, foldl_step plain] at entry
  exact ⟨_, entry⟩

end Ends

end FileTree

end Schematic

/-! ## Writing units one after the other -/

namespace Schematic

open Hdl

namespace Writer

variable {files : List (String × String)}

/-- Writes units one after the other, also behind one that failed, with the failures. -/
def writeEach (writer : Writer) : List DesignUnit → Writer × List Failure
  | [] => (writer, [])
  | unit :: rest =>
    let (next, failure) := writer.writeUnit unit
    let (last, failures) := next.writeEach rest
    (last, failure.toList ++ failures)

theorem writeEach_cons (writer : Writer) (unit : DesignUnit) (units : List DesignUnit) :
    writer.writeEach (unit :: units) = (((writer.writeUnit unit).1.writeEach units).1,
      (writer.writeUnit unit).2.toList ++ ((writer.writeUnit unit).1.writeEach units).2) := rfl

def Belongs (dialect : Dialect) (vendor : Vendor) (units : List DesignUnit) (place : Place) :
    Prop :=
  ∃ unit ∈ units, ∃ part ∈ unit.fileParts dialect vendor, ∃ above,
    place = above ++ [dialect.directory, unit.category, part.1 ++ "." ++ part.2]

structure Tidy (root : String) (dialect : Dialect) (vendor : Vendor) (units : List DesignUnit)
    (writer : Writer) : Prop where
  root_eq : writer.root = root
  dialect_eq : writer.dialect = dialect
  skipped : writer.skipped = []
  files : writer.tree.FilesAt (Belongs dialect vendor units)

variable {root : String} {dialect : Dialect} {vendor : Vendor} {units : List DesignUnit}
variable {unit : DesignUnit} {writer : Writer}

theorem exists_of_inspect {warning : Message}
    (inspected : writer.inspect unit files = .ok (some warning)) :
    ∃ entry ∈ files, ∃ content, writer.tree.status entry.1 = .file content := by
  induction files with
  | nil => cases inspected
  | cons entry files ih =>
    obtain ⟨path, text⟩ := entry
    simp only [inspect] at inspected
    split at inspected
    case h_1 content found =>
      exact ⟨(path, text), mem_cons_self .., content, FileTree.status_of_read found⟩
    case h_2 =>
      split at inspected
      · obtain ⟨entry, member, found⟩ := ih inspected
        exact ⟨entry, mem_cons_of_mem _ member, found⟩
      · cases inspected

theorem exists_part_of_mem_files (regular : unit.Regular dialect vendor)
    {entry : String × String} (member : entry ∈ unit.files root dialect) :
    ∃ part ∈ unit.fileParts dialect vendor, ∃ front, Text.splitAt '/' entry.1 =
      front ++ [dialect.directory, unit.category, part.1 ++ "." ++ part.2] := by
  have target : entry.1 ∈ unit.targets root dialect := mem_map.mpr ⟨entry, member, rfl⟩
  rw [regular.targets_eq root] at target
  obtain ⟨part, listed, same⟩ := mem_map.mp target
  obtain ⟨front, divided⟩ := Path.splitAt_join (by simp) (regular.isName_place listed) root
  exact ⟨part, listed, front, same ▸ divided⟩

theorem Tidy.writeAll (tidy : Tidy root dialect vendor units writer)
    (right : ∀ entry ∈ files, ∀ tree : FileTree,
      Belongs dialect vendor units (tree.placeOf entry.1)) (module : String) :
    Tidy root dialect vendor units (writer.writeAll module files).1 := by
  induction files generalizing writer with
  | nil => exact tidy
  | cons entry files ih =>
    have created := tidy.files.create (right entry (mem_cons_self ..)) entry.2
    simp only [Writer.writeAll]
    split
    case h_1 later _ stopped =>
      rw [stopped] at created
      exact ⟨tidy.root_eq, tidy.dialect_eq, tidy.skipped, created⟩
    case h_2 later stopped =>
      rw [stopped] at created
      exact ih ⟨tidy.root_eq, tidy.dialect_eq, tidy.skipped, created⟩
        fun entry member => right entry (mem_cons_of_mem _ member)

theorem Belongs.mono {more : List DesignUnit} {place : Place}
    (belongs : Belongs dialect vendor units place) :
    Belongs dialect vendor (units ++ more) place := by
  obtain ⟨unit, member, found⟩ := belongs
  exact ⟨unit, mem_append_left _ member, found⟩

section

variable (tidy : Tidy root dialect vendor units writer)
include tidy

theorem Tidy.mono (more : List DesignUnit) : Tidy root dialect vendor (units ++ more) writer :=
  { tidy with files := fun place content found => (tidy.files place content found).mono }

theorem Tidy.inspect_ne (regular : unit.Regular dialect vendor)
    (others : ∀ earlier ∈ units, earlier.Regular dialect vendor ∧
      ¬∃ path, path ∈ earlier.targets root dialect ∧ path ∈ unit.targets root dialect)
    (warning : Message) : writer.inspect unit (unit.files root dialect) ≠ .ok (some warning) := by
  intro inspected
  obtain ⟨entry, member, content, found⟩ := exists_of_inspect inspected
  obtain ⟨part, listed, front, divided⟩ := exists_part_of_mem_files regular member
  obtain ⟨above, stands⟩ :=
    FileTree.exists_of_status divided (regular.isName_place listed) found
  obtain ⟨earlier, known, other, otherListed, otherAbove, same⟩ := tidy.files _ content stands
  obtain ⟨earlierRegular, apart⟩ := others earlier known
  have ends := append_inj_right' same rfl
  simp only [List.cons.injEq, and_true, true_and] at ends
  rw [DesignUnit.Regular.exists_target_iff earlierRegular regular] at apart
  refine apart ⟨ends.1.symm, part, ?_, listed⟩
  rw [DesignUnit.Regular.part_eq regular earlierRegular listed otherListed ends.2]
  exact otherListed

theorem Tidy.writeUnit (regular : unit.Regular dialect vendor)
    (others : ∀ earlier ∈ units, earlier.Regular dialect vendor ∧
      ¬∃ path, path ∈ earlier.targets root dialect ∧ path ∈ unit.targets root dialect) :
    Tidy root dialect vendor (units ++ [unit]) (writer.writeUnit unit).1 := by
  simp only [Writer.writeUnit, tidy.root_eq, tidy.dialect_eq]
  split
  · exact tidy.mono [unit]
  · split
    case h_1 => exact tidy.mono [unit]
    case h_2 warning inspected => exact absurd inspected (tidy.inspect_ne regular others warning)
    case h_3 =>
      refine (tidy.mono [unit]).writeAll ?_ unit.name
      intro entry member tree
      obtain ⟨part, listed, front, divided⟩ := exists_part_of_mem_files regular member
      obtain ⟨above, place⟩ :=
        FileTree.exists_placeOf divided (regular.isName_place listed) tree
      exact ⟨unit, mem_append_right _ (mem_singleton_self _), part, listed, above, place⟩

theorem Tidy.writeEach {rest : List DesignUnit}
    (regular : ∀ unit ∈ units ++ rest, unit.Regular dialect vendor)
    (apart : (units ++ rest).Pairwise fun earlier unit =>
      ¬∃ path, path ∈ earlier.targets root dialect ∧ path ∈ unit.targets root dialect) :
    Tidy root dialect vendor (units ++ rest) (writer.writeEach rest).1 := by
  induction rest generalizing units writer with
  | nil => rwa [append_nil]
  | cons unit rest ih =>
    have step := tidy.writeUnit (regular unit (by simp)) fun earlier member =>
      ⟨regular earlier (mem_append_left _ member),
        (pairwise_append.mp apart).2.2 earlier member unit (mem_cons_self ..)⟩
    have order : units ++ unit :: rest = units ++ [unit] ++ rest := by simp
    rw [order] at regular apart ⊢
    exact ih step regular apart

end

end Writer

end Schematic
