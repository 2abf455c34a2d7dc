import Schematic.Proofs.File.Growth

/-! # Units are written whole, and once -/

open List

namespace Schematic

open Hdl

namespace FileTree

variable {tree later : FileTree} {paths : List String} {path content : String}

/-- A tree that takes files at some paths: it is closed, nothing is in the way of the paths, and no
path leads through the file of another one. -/
structure Takes (tree : FileTree) (paths : List String) : Prop where
  closed : tree.Closed
  usable : ∀ path ∈ paths, Usable path
  way : ∀ path ∈ paths, tree.Open (tree.placeOf path)
  vacant : ∀ path ∈ paths, tree.statusAt (tree.placeOf path) ≠ .directory
  apart : ∀ path ∈ paths, ∀ other ∈ paths, tree.placeOf path <+: tree.placeOf other → path = other

instance (tree : FileTree) (paths : List String) : Decidable (tree.Takes paths) :=
  decidable_of_iff (tree.Closed ∧ (∀ path ∈ paths, Usable path) ∧
      (∀ path ∈ paths, tree.Open (tree.placeOf path)) ∧
      (∀ path ∈ paths, tree.statusAt (tree.placeOf path) ≠ .directory) ∧
      ∀ path ∈ paths, ∀ other ∈ paths, tree.placeOf path <+: tree.placeOf other → path = other)
    ⟨fun ⟨closed, usable, way, vacant, apart⟩ => ⟨closed, usable, way, vacant, apart⟩,
      fun takes => ⟨takes.closed, takes.usable, takes.way, takes.vacant, takes.apart⟩⟩

namespace Takes

theorem added (takes : tree.Takes paths) (member : path ∈ paths) (closed : later.Closed)
    (added : Added tree later (tree.placeOf path) content) : later.Takes paths := by
  have same := placeOf_congr added.current
  obtain ⟨middle, grown, _, entries⟩ := added.middle
  refine ⟨closed, takes.usable, ?_, ?_, ?_⟩
  · intro other listed higher start differ
    rw [same] at start differ
    rw [added.content?_eq, if_neg, takes.way other listed higher start differ]
    rintro rfl
    exact differ (congrArg tree.placeOf (takes.apart path member other listed start))
  · intro other listed here
    rw [same, statusAt_eq_directory, entries] at here
    split at here
    · obtain wrong | ⟨_, wrong⟩ := here
      · cases wrong
      · cases wrong
    case isFalse equal =>
      obtain kept | ⟨above, _⟩ := grown.entries (tree.placeOf other)
      · rw [kept] at here
        exact takes.vacant other listed (statusAt_eq_directory.mpr here)
      · exact equal (congrArg tree.placeOf (takes.apart other listed path member above))
  · intro other listed another anotherListed
    rw [same, same]
    exact takes.apart other listed another anotherListed

section Clean

variable (takes : tree.Takes paths) (member : path ∈ paths)
  (clean : ∃ source, path = Path.clean source)
include takes member clean

theorem status_eq : tree.status path =
    ((tree.content? (tree.placeOf path)).map Status.file).getD .missing :=
  takes.closed.status_of_clean (takes.usable path member) clean (takes.way path member)
    (takes.vacant path member)

theorem has_eq : tree.has path = (tree.content? (tree.placeOf path)).isSome := by
  unfold has
  rw [takes.status_eq member clean]
  cases tree.content? (tree.placeOf path) <;> rfl

theorem read_eq : tree.read path =
    (tree.content? (tree.placeOf path)).elim (.error (.missing path)) .ok := by
  unfold read
  rw [takes.status_eq member clean]
  cases tree.content? (tree.placeOf path) <;> rfl

theorem create (new : tree.has path = false) (content : String) :
    ∃ later, tree.create path content = (later, none) ∧ later.Takes paths ∧
      Added tree later (tree.placeOf path) content := by
  rw [takes.has_eq member clean, Option.isSome_eq_false_iff, Option.isNone_iff_eq_none] at new
  obtain ⟨later, created, closed, added⟩ := takes.closed.create (takes.usable path member) clean
    (takes.way path member) (takes.vacant path member) new content
  exact ⟨later, created, takes.added member closed added, added⟩

end Clean

end Takes

end FileTree

namespace Path

theorem clean_ne_empty (path : String) : clean path ≠ "" := by
  simp only [clean]
  split
  · intro empty
    have chars := congrArg String.toList empty
    simp at chars
  · split
    · decide
    · assumption

theorem join_eq_clean {paths : List String} {path : String} (member : path ∈ paths)
    (some : path ≠ "") : ∃ source, join paths = clean source := by
  have kept : path ∈ paths.filter (· ≠ "") := by simp [member, some]
  unfold join
  split
  case h_1 none =>
    rw [none] at kept
    cases kept
  case h_2 => exact ⟨_, rfl⟩

end Path

namespace Hdl.DesignUnit

variable {unit : DesignUnit} {root : String} {dialect : Dialect}

/-- A unit that there is something to write for. -/
def HasBody (unit : DesignUnit) : Prop :=
  unit.behavior ≠ [] ∨ unit.verbatim ≠ none

theorem clean_of_mem_targets {path : String} (member : path ∈ unit.targets root dialect) :
    ∃ source, path = Path.clean source := by
  have placed : ∀ rest, ∃ source, Path.join (root :: dialect.directory :: rest) =
      Path.clean source := by
    intro rest
    have some : dialect.directory ≠ "" := by cases dialect <;> decide
    exact Path.join_eq_clean (mem_cons_of_mem _ (mem_cons_self ..)) some
  obtain ⟨file, listed, rfl⟩ := mem_map.mp member
  unfold files at listed
  obtain source | attached := mem_append.mp listed
  · have form : ∃ stem, file.1 = sourcePath root dialect unit.category stem := by
      cases text : unit.verbatim with
      | some text =>
        rw [text] at source
        exact ⟨_, congrArg Prod.fst (mem_singleton.mp source)⟩
      | none =>
        rw [text] at source
        cases dialect with
        | verilog => exact ⟨_, congrArg Prod.fst (mem_singleton.mp source)⟩
        | vhdl =>
          obtain entity | behavior := mem_append.mp source
          · split at entity
            · cases entity
            · exact ⟨_, congrArg Prod.fst (mem_singleton.mp entity)⟩
          · exact ⟨_, congrArg Prod.fst (mem_singleton.mp behavior)⟩
    obtain ⟨stem, form⟩ := form
    rw [form]
    exact placed _
  · obtain ⟨attachment, _, rfl⟩ := mem_map.mp attached
    obtain ⟨directory, form⟩ := placed [unit.category]
    exact Path.join_eq_clean (mem_cons_self ..) (form ▸ Path.clean_ne_empty directory)

theorem mem_targets {file : String × String} (listed : file ∈ unit.files root dialect) :
    file.1 ∈ unit.targets root dialect :=
  mem_map.mpr ⟨file, listed, rfl⟩

theorem files_ne_nil (unit : DesignUnit) (root : String) (dialect : Dialect) :
    unit.files root dialect ≠ [] := by
  unfold files
  cases unit.verbatim <;> cases dialect <;> simp

end Hdl.DesignUnit

namespace Writer

open FileTree

variable {writer : Writer} {unit : DesignUnit} {paths : List String}
  {files : List (String × String)}

section Inspect

variable (takes : writer.tree.Takes paths)
  (ready : ∀ file ∈ files, file.1 ∈ paths ∧ ∃ source, file.1 = Path.clean source)
include takes ready

theorem inspect_of_new (new : ∀ file ∈ files, writer.tree.has file.1 = false) :
    writer.inspect unit files = .ok none := by
  induction files with
  | nil => rfl
  | cons file files ih =>
    obtain ⟨⟨among, clean⟩, ready⟩ := forall_mem_cons.mp ready
    obtain ⟨absent, new⟩ := forall_mem_cons.mp new
    have here := takes.read_eq among clean
    rw [takes.has_eq among clean, Option.isSome_eq_false_iff, Option.isNone_iff_eq_none] at absent
    rw [absent] at here
    rw [inspect, here]
    exact ih ready new

theorem inspect_of_existing (existing : ∃ file ∈ files, writer.tree.has file.1 = true) :
    ∃ warning : Message, writer.inspect unit files = .ok (some warning) ∧
      warning.severity = .warning ∧ warning.module = unit.name := by
  induction files with
  | nil =>
    obtain ⟨_, member, _⟩ := existing
    cases member
  | cons file files ih =>
    obtain ⟨⟨among, clean⟩, ready⟩ := forall_mem_cons.mp ready
    have here := takes.read_eq among clean
    cases found : writer.tree.content? (writer.tree.placeOf file.1) with
    | some content =>
      rw [found] at here
      rw [inspect, here]
      exact ⟨_, rfl, rfl, rfl⟩
    | none =>
      rw [found] at here
      rw [inspect, here]
      refine ih ready ?_
      obtain ⟨other, member, known⟩ := existing
      obtain rfl | member := mem_cons.mp member
      · rw [takes.has_eq among clean, found] at known
        cases known
      · exact ⟨other, member, known⟩

end Inspect

structure Filled (tree later : FileTree) (files : List (String × String)) : Prop where
  current : later.current = tree.current
  here : ∀ file ∈ files, later.content? (tree.placeOf file.1) = some file.2
  elsewhere : ∀ place, (∀ file ∈ files, tree.placeOf file.1 ≠ place) →
    later.content? place = tree.content? place

theorem writeAll_of_new (takes : writer.tree.Takes paths)
    (ready : ∀ file ∈ files, file.1 ∈ paths ∧ ∃ source, file.1 = Path.clean source)
    (distinct : (files.map Prod.fst).Nodup)
    (new : ∀ file ∈ files, writer.tree.has file.1 = false) (module : String) :
    ∃ later, writer.writeAll module files =
        ({ writer with tree := later, written := writer.written ++ files.map Prod.fst }, none) ∧
      later.Takes paths ∧ Filled writer.tree later files := by
  induction files generalizing writer with
  | nil => exact ⟨writer.tree, by simp [writeAll], takes, rfl, by simp, fun _ _ => rfl⟩
  | cons file files ih =>
    obtain ⟨⟨first, clean⟩, ready⟩ := forall_mem_cons.mp ready
    obtain ⟨fresh, distinct⟩ := nodup_cons.mp distinct
    obtain ⟨next, created, nextTakes, added⟩ :=
      takes.create first clean (new file (mem_cons_self ..)) file.2
    have placed := placeOf_congr added.current
    have apart : ∀ other ∈ files,
        writer.tree.placeOf other.1 ≠ writer.tree.placeOf file.1 := by
      intro other member same
      have equal := takes.apart other.1 (ready other member).1 file.1 first
        (same ▸ prefix_refl _)
      exact fresh (mem_map.mpr ⟨other, member, equal⟩)
    have absent : ∀ other ∈ files, next.has other.1 = false := by
      intro other member
      obtain ⟨listed, clean⟩ := ready other member
      rw [nextTakes.has_eq listed clean, placed, added.content?_eq, if_neg (apart other member),
        ← takes.has_eq listed clean]
      exact new other (mem_cons_of_mem _ member)
    obtain ⟨later, written, laterTakes, filled⟩ :=
      @ih { writer with tree := next, written := writer.written ++ [file.1] }
        nextTakes ready distinct absent
    refine ⟨later, ?_, laterTakes, filled.current.trans added.current, ?_, ?_⟩
    · rw [writeAll, created]
      exact written.trans (by simp)
    · intro other member
      obtain rfl | member := mem_cons.mp member
      · rw [filled.elsewhere _ fun other listed same => apart other listed
          ((placed other.1).symm.trans same), added.content?_eq, if_pos rfl]
      · rw [← placed]
        exact filled.here other member
    · intro place differ
      rw [filled.elsewhere place fun other listed same =>
        differ other (mem_cons_of_mem _ listed) ((placed other.1).symm.trans same),
        added.content?_eq, if_neg (Ne.symm (differ file (mem_cons_self ..)))]

section Unit

variable (takes : writer.tree.Takes paths) (body : unit.HasBody)
  (among : unit.targets writer.root writer.dialect ⊆ paths)

include among in
theorem ready_files : ∀ file ∈ unit.files writer.root writer.dialect,
    file.1 ∈ paths ∧ ∃ source, file.1 = Path.clean source := fun _ listed =>
  have target := DesignUnit.mem_targets listed
  ⟨among target, DesignUnit.clean_of_mem_targets target⟩

include body

theorem writeUnit_eq : writer.writeUnit unit =
    match writer.inspect unit (unit.files writer.root writer.dialect) with
    | .error failure => (writer, some failure)
    | .ok (some warning) =>
      ({ writer with
        skipped := writer.skipped ++ [unit.name]
        messages := writer.messages ++ [warning] }, none)
    | .ok none => writer.writeAll unit.name (unit.files writer.root writer.dialect) := by
  have present : (unit.behavior.isEmpty && unit.verbatim.isNone) = false := by
    rw [Bool.and_eq_false_iff]
    exact body.imp (fun some => by simpa using some) fun some => by
      simpa [Option.isSome_iff_ne_none] using some
  rw [writeUnit, present]
  rfl

include takes among

theorem writeUnit_of_new (distinct : (unit.targets writer.root writer.dialect).Nodup)
    (new : ∀ path ∈ unit.targets writer.root writer.dialect, writer.tree.has path = false) :
    ∃ later, writer.writeUnit unit = ({ writer with
        tree := later
        written := writer.written ++ unit.targets writer.root writer.dialect }, none) ∧
      later.Takes paths ∧
      Filled writer.tree later (unit.files writer.root writer.dialect) := by
  have ready := ready_files among
  have absent : ∀ file ∈ unit.files writer.root writer.dialect, writer.tree.has file.1 = false :=
    fun _ listed => new _ (DesignUnit.mem_targets listed)
  rw [writeUnit_eq body, inspect_of_new takes ready absent]
  exact writeAll_of_new takes ready distinct absent unit.name

theorem writeUnit_of_existing
    (existing : ∃ path ∈ unit.targets writer.root writer.dialect, writer.tree.has path = true) :
    ∃ warning : Message, writer.writeUnit unit = ({ writer with
        skipped := writer.skipped ++ [unit.name]
        messages := writer.messages ++ [warning] }, none) ∧
      warning.severity = .warning ∧ warning.module = unit.name := by
  obtain ⟨path, listed, known⟩ := existing
  obtain ⟨file, member, rfl⟩ := mem_map.mp listed
  obtain ⟨warning, inspected, about⟩ : ∃ warning : Message,
      writer.inspect unit (unit.files writer.root writer.dialect) = .ok (some warning) ∧
        warning.severity = .warning ∧ warning.module = unit.name :=
    inspect_of_existing takes (ready_files among) ⟨file, member, known⟩
  refine ⟨warning, ?_, about⟩
  rw [writeUnit_eq body, inspected]

end Unit

/-- The paths of all files of the units. -/
def allTargets (root : String) (dialect : Dialect) (units : List DesignUnit) : List String :=
  units.flatMap (·.targets root dialect)

def Stands (root : String) (dialect : Dialect) (tree : FileTree) (unit : DesignUnit) : Prop :=
  ∃ path ∈ unit.targets root dialect, tree.has path = true

section Units

variable {units : List DesignUnit} {root : String} {dialect : Dialect}

structure Keeps (tree later : FileTree) : Prop where
  current : later.current = tree.current
  content : ∀ place content, tree.content? place = some content →
    later.content? place = some content

theorem Stands.keeps {tree later : FileTree} {unit : DesignUnit}
    (stands : Stands root dialect tree unit) (keeps : Keeps tree later)
    (among : unit.targets root dialect ⊆ paths) (takes : tree.Takes paths)
    (laterTakes : later.Takes paths) : Stands root dialect later unit := by
  obtain ⟨path, listed, known⟩ := stands
  have clean := DesignUnit.clean_of_mem_targets listed
  rw [takes.has_eq (among listed) clean] at known
  obtain ⟨content, found⟩ := Option.isSome_iff_exists.mp known
  refine ⟨path, listed, ?_⟩
  rw [laterTakes.has_eq (among listed) clean, placeOf_congr keeps.current, keeps.content _ _ found]
  rfl

theorem writeUnit_stands (takes : writer.tree.Takes paths) (body : unit.HasBody)
    (distinct : (unit.targets writer.root writer.dialect).Nodup)
    (among : unit.targets writer.root writer.dialect ⊆ paths) :
    (writer.writeUnit unit).2 = none ∧ (writer.writeUnit unit).1.root = writer.root ∧
      (writer.writeUnit unit).1.dialect = writer.dialect ∧
      (writer.writeUnit unit).1.tree.Takes paths ∧
      Keeps writer.tree (writer.writeUnit unit).1.tree ∧
      Stands writer.root writer.dialect (writer.writeUnit unit).1.tree unit := by
  by_cases existing : Stands writer.root writer.dialect writer.tree unit
  · obtain ⟨warning, left, _⟩ := writeUnit_of_existing takes body among existing
    rw [left]
    exact ⟨rfl, rfl, rfl, takes, ⟨rfl, fun _ _ found => found⟩, existing⟩
  · have new : ∀ path ∈ unit.targets writer.root writer.dialect, writer.tree.has path = false := by
      intro path listed
      exact Bool.eq_false_iff.mpr fun known => existing ⟨path, listed, known⟩
    obtain ⟨later, written, laterTakes, filled⟩ := writeUnit_of_new takes body among distinct new
    rw [written]
    refine ⟨rfl, rfl, rfl, laterTakes, ⟨filled.current, ?_⟩, ?_⟩
    · intro place content found
      rw [filled.elsewhere place, found]
      rintro file listed rfl
      have target := DesignUnit.mem_targets listed
      have absent := new file.1 target
      rw [takes.has_eq (among target) (DesignUnit.clean_of_mem_targets target), found] at absent
      cases absent
    · obtain ⟨file, listed⟩ :=
        exists_mem_of_ne_nil _ (unit.files_ne_nil writer.root writer.dialect)
      have target := DesignUnit.mem_targets listed
      refine ⟨file.1, target, ?_⟩
      rw [laterTakes.has_eq (among target) (DesignUnit.clean_of_mem_targets target),
        placeOf_congr filled.current, filled.here file listed]
      rfl

section

variable (takes : writer.tree.Takes paths) (rooted : writer.root = root)
  (spoken : writer.dialect = dialect)
include takes rooted spoken

theorem writeEach_stands (right : ∀ unit ∈ units, unit.HasBody ∧ (unit.targets root dialect).Nodup ∧
      unit.targets root dialect ⊆ paths) :
    (writer.writeEach units).2 = [] ∧ (writer.writeEach units).1.tree.Takes paths ∧
      Keeps writer.tree (writer.writeEach units).1.tree ∧
      ∀ unit ∈ units, Stands root dialect (writer.writeEach units).1.tree unit := by
  induction units generalizing writer with
  | nil => exact ⟨rfl, takes, ⟨rfl, fun _ _ found => found⟩, by simp⟩
  | cons unit units ih =>
    obtain ⟨body, distinct, among⟩ := right unit (mem_cons_self ..)
    subst rooted spoken
    obtain ⟨passed, rooted, spoken, nextTakes, keeps, stands⟩ :=
      writeUnit_stands takes body distinct among
    obtain ⟨none, lastTakes, lastKeeps, lastStands⟩ := ih nextTakes rooted spoken
      fun unit member => right unit (mem_cons_of_mem _ member)
    have whole : writer.writeEach (unit :: units) =
        (((writer.writeUnit unit).1.writeEach units).1, []) := by
      rw [writeEach_cons, passed, none]
      rfl
    rw [whole]
    refine ⟨rfl, lastTakes, ⟨lastKeeps.current.trans keeps.current, fun place content found =>
      lastKeeps.content place content (keeps.content place content found)⟩, ?_⟩
    intro other member
    obtain rfl | member := mem_cons.mp member
    · exact stands.keeps lastKeeps among nextTakes lastTakes
    · exact lastStands other member

theorem writeEach_of_existing
    (right : ∀ unit ∈ units, unit.HasBody ∧ unit.targets root dialect ⊆ paths)
    (stand : ∀ unit ∈ units, Stands root dialect writer.tree unit) :
    ∃ warnings : List Message, writer.writeEach units = ({ writer with
        skipped := writer.skipped ++ units.map (·.name)
        messages := writer.messages ++ warnings }, []) ∧
      warnings.map (fun warning => (warning.severity, warning.module)) =
        units.map fun unit => (.warning, unit.name) := by
  induction units generalizing writer with
  | nil => exact ⟨[], by simp [writeEach], rfl⟩
  | cons unit units ih =>
    obtain ⟨body, among⟩ := right unit (mem_cons_self ..)
    subst rooted spoken
    obtain ⟨warning, left, severity, module⟩ := writeUnit_of_existing takes body among
      (stand unit (mem_cons_self ..))
    obtain ⟨warnings, rest, about⟩ := @ih { writer with
        skipped := writer.skipped ++ [unit.name]
        messages := writer.messages ++ [warning] } takes rfl rfl
      (fun unit member => right unit (mem_cons_of_mem _ member))
      fun unit member => stand unit (mem_cons_of_mem _ member)
    refine ⟨warning :: warnings, ?_, by simp [severity, module, about]⟩
    rw [writeEach_cons, left, rest]
    simp

end

end Units

/-- **Units are written whole, and once.** On a tree that takes their files, a unit of which no file
exists is written with all its files, and nothing else changes. If a file of it exists, nothing
changes, and there is one warning about it. Units that are written again are all left out, each with
one warning, and the tree stays as it is. -/
theorem units_written_whole_and_once (writer : Writer) (units : List DesignUnit)
    (bodies : ∀ unit ∈ units, unit.HasBody)
    (distinct : ∀ unit ∈ units, (unit.targets writer.root writer.dialect).Nodup)
    (takes : writer.tree.Takes (allTargets writer.root writer.dialect units)) :
    (∀ unit ∈ units,
      ((∀ path ∈ unit.targets writer.root writer.dialect, writer.tree.has path = false) →
        ∃ tree, writer.writeUnit unit = ({ writer with
            tree
            written := writer.written ++ unit.targets writer.root writer.dialect }, none) ∧
          (∀ file ∈ unit.files writer.root writer.dialect, tree.read file.1 = .ok file.2) ∧
          ∀ place, (∀ path ∈ unit.targets writer.root writer.dialect,
            writer.tree.placeOf path ≠ place) →
              tree.content? place = writer.tree.content? place) ∧
      ((∃ path ∈ unit.targets writer.root writer.dialect, writer.tree.has path = true) →
        ∃ warning : Message, writer.writeUnit unit = ({ writer with
            skipped := writer.skipped ++ [unit.name]
            messages := writer.messages ++ [warning] }, none) ∧
          warning.severity = .warning ∧ warning.module = unit.name)) ∧
    (writer.writeEach units).2 = [] ∧
    ∀ second : Writer, second.root = writer.root → second.dialect = writer.dialect →
      second.tree = (writer.writeEach units).1.tree →
      ∃ warnings : List Message, second.writeEach units = ({ second with
          skipped := second.skipped ++ units.map (·.name)
          messages := second.messages ++ warnings }, []) ∧
        warnings.map (fun warning => (warning.severity, warning.module)) =
          units.map fun unit => (.warning, unit.name) := by
  have among : ∀ unit ∈ units, unit.targets writer.root writer.dialect ⊆
      allTargets writer.root writer.dialect units :=
    fun unit member path listed => List.mem_flatMap.mpr ⟨unit, member, listed⟩
  obtain ⟨passed, lastTakes, _, stand⟩ := writeEach_stands takes rfl rfl fun unit member =>
    ⟨bodies unit member, distinct unit member, among unit member⟩
  refine ⟨fun unit member => ⟨fun new => ?_, fun existing =>
    writeUnit_of_existing takes (bodies unit member) (among unit member) existing⟩, passed, ?_⟩
  · obtain ⟨later, written, laterTakes, filled⟩ := writeUnit_of_new takes (bodies unit member)
      (among unit member) (distinct unit member) new
    refine ⟨later, written, ?_, ?_⟩
    · intro file listed
      have target := DesignUnit.mem_targets listed
      rw [laterTakes.read_eq (among unit member target) (DesignUnit.clean_of_mem_targets target),
        placeOf_congr filled.current, filled.here file listed]
      rfl
    · intro place differ
      exact filled.elsewhere place fun file listed =>
        differ file.1 (DesignUnit.mem_targets listed)
  · intro second rooted spoken same
    exact writeEach_of_existing (same ▸ lastTakes) rooted spoken
      (fun unit member => ⟨bodies unit member, among unit member⟩) (same ▸ stand)

/-- Of two units the one whose memory image stands in the tree is left out at once, and the other
one the second time. -/
theorem adder_written_rom_left_out :
    let adder : DesignUnit :=
      { name := "adder", category := "circuit", entity := ["entity"], behavior := ["behavior"] }
    let rom : DesignUnit :=
      { name := "rom", category := "memory", verbatim := some "rom"
        attachments := [⟨"rom.mem", "00"⟩] }
    let tree : FileTree :=
      { entries := [(["work"], .directory), (["work", "out"], .directory),
          (["work", "out", "vhdl"], .directory), (["work", "out", "vhdl", "memory"], .directory),
          (["work", "out", "vhdl", "memory", "rom.mem"], .file "11")]
        current := ["work"] }
    let writer : Writer := { root := "out", dialect := .vhdl, tree }
    writer.tree.Takes (allTargets writer.root writer.dialect [adder, rom]) ∧
    (∃ later, writer.writeUnit adder = ({ writer with
        tree := later
        written := writer.written ++ adder.targets writer.root writer.dialect }, none) ∧
      later.content? ["work", "out", "vhdl", "memory", "rom.mem"] = some "11") ∧
    (∃ warning : Message, writer.writeUnit rom = ({ writer with
        skipped := writer.skipped ++ [rom.name]
        messages := writer.messages ++ [warning] }, none) ∧ warning.severity = .warning) ∧
    ∃ later, later = (writer.writeEach [adder, rom]).1.tree ∧
      ∃ warnings : List Message, ({ writer with tree := later } : Writer).writeEach [adder, rom] =
        ({ writer with
          tree := later
          skipped := writer.skipped ++ [adder, rom].map (·.name)
          messages := writer.messages ++ warnings }, []) ∧ warnings.length = 2 := by
  intro adder rom tree writer
  have takes : writer.tree.Takes (allTargets writer.root writer.dialect [adder, rom]) := by
    decide +kernel
  obtain ⟨each, _, second⟩ := units_written_whole_and_once writer [adder, rom]
    (by simp [DesignUnit.HasBody, adder, rom]) (by decide +kernel) takes
  refine ⟨takes, ?_, ?_, ?_⟩
  · obtain ⟨later, written, _, elsewhere⟩ :=
      (each adder (by simp)).1 (by decide +kernel)
    refine ⟨later, written, ?_⟩
    rw [elsewhere _ (by decide +kernel)]
    rfl
  · obtain ⟨warning, left, severity, _⟩ := (each rom (by simp)).2 (by decide +kernel)
    exact ⟨warning, left, severity⟩
  · obtain ⟨later, same⟩ : ∃ later, later = (writer.writeEach [adder, rom]).1.tree := ⟨_, rfl⟩
    obtain ⟨warnings, left, about⟩ := second { writer with tree := later } rfl rfl same
    exact ⟨later, same, warnings, left, by simpa using congrArg List.length about⟩

end Writer

end Schematic
