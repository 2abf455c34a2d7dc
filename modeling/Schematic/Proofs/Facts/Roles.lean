import Schematic.Proofs.Run.Units

/-! # Roles of generated files -/

open List

namespace Schematic

open Hdl

namespace Path

variable {path file : String} {front names : List String}

theorem base_of_splitAt (divided : Text.splitAt '/' path = front ++ [file]) (filled : file ≠ "") :
    base path = file := by
  simp [base, divided, filter_append, filled]

theorem extension_below (front : String) (free : '/' ∉ file.toList) :
    extension (front ++ "/" ++ file) = extension file := by
  have plain : ∀ c ∈ file.toList.reverse, (c != '/') = true := by
    intro c member
    rw [bne_iff_ne]
    rintro rfl
    exact free (mem_reverse.mp member)
  have form : (front ++ "/" ++ file).toList.reverse =
      file.toList.reverse ++ '/' :: front.toList.reverse := by simp
  have last : (front ++ "/" ++ file).toList.reverse.takeWhile (· != '/') =
      file.toList.reverse.takeWhile (· != '/') := by
    rw [form, takeWhile_append_of_pos plain, ← append_nil file.toList.reverse,
      takeWhile_append_of_pos plain]
    simp
  rw [extension, last, extension]

theorem extension_of_splitAt (divided : Text.splitAt '/' path = front ++ [file]) :
    extension path = extension file := by
  by_cases below : '/' ∈ path.toList
  · obtain ⟨rest, start, form, free⟩ := eq_append_cons_of_mem (mem_reverse.mpr below)
    have whole : path = String.ofList start.reverse ++ "/" ++ String.ofList rest.reverse := by
      apply String.toList_injective
      rw [← reverse_reverse path.toList, form]
      simp
    have last : '/' ∉ (String.ofList rest.reverse).toList := by simpa using free
    rw [whole, splitAt_append, splitAt_of_free last] at divided
    obtain ⟨_, same⟩ := append_inj' divided rfl
    rw [whole, extension_below _ last, (List.cons.inj same).1]
  · rw [splitAt_of_free below] at divided
    obtain ⟨_, same⟩ := append_inj' (show [] ++ [path] = front ++ [file] from divided) rfl
    rw [(List.cons.inj same).1]

theorem extension_file (stem : String) {ending : String} (free : '/' ∉ ending.toList)
    (single : '.' ∉ ending.toList) : extension (stem ++ "." ++ ending) = "." ++ ending := by
  have plain : ∀ c ∈ ending.toList.reverse, (c != '.') = true ∧ (c != '/') = true := by
    intro c member
    rw [mem_reverse] at member
    simp only [bne_iff_ne]
    constructor <;> rintro rfl
    · exact single member
    · exact free member
  have form : (stem ++ "." ++ ending).toList.reverse =
      ending.toList.reverse ++ '.' :: stem.toList.reverse := by simp
  rw [extension, form, takeWhile_append_of_pos fun c member => (plain c member).2,
    takeWhile_cons_of_pos (by decide)]
  have found : (ending.toList.reverse ++ '.' :: stem.toList.reverse.takeWhile (· != '/')).contains
      '.' = true := by simp
  rw [if_pos found, takeWhile_append_of_pos fun c member => (plain c member).1]
  apply String.toList_injective
  simp

theorem behindCommon_append (above names : List String) :
    behindCommon above (above ++ names) = ([], names) := by
  induction above with
  | nil => cases names <;> rfl
  | cons element above ih => rw [cons_append, behindCommon, if_pos rfl, ih]

theorem relative?_join (root : String) (some : names ≠ []) (plain : ∀ name ∈ names, IsName name) :
    relative? root (join (root :: names)) = .some ("/".intercalate names) := by
  obtain ⟨rooted, place⟩ : isAbsolute (join (root :: names)) = isAbsolute root ∧ _ :=
    resolved_join some plain
  have filled : "/".intercalate names ≠ "" := by
    intro empty
    have none := elements_intercalate fun name member => (plain name member).toIsElement
    rw [empty] at none
    exact some none.symm
  rw [relative?, rooted, place, behindCommon_append]
  simp [filled]

end Path

/-- A name that ends like the file of a part. -/
def isSuffixed (stem : String) : Bool :=
  Text.endsWith stem entitySuffix || Text.endsWith stem behaviorSuffix

namespace FileRole

variable {dialect : Dialect} {unit : DesignUnit} {path file stem : String} {front : List String}

theorem base_of_isName (named : Path.IsName file) : Path.base file = file :=
  Path.base_of_splitAt
    (show Text.splitAt '/' file = [] ++ [file] from Path.splitAt_of_free named.free) named.nonempty

/-- Roles depend on the last name of a path only. -/
theorem roles_of_splitAt (divided : Text.splitAt '/' path = front ++ [file])
    (named : Path.IsName file) (dialect : Dialect) (unit : DesignUnit) :
    ofName path = ofName file ∧ ofUnit dialect unit path = ofUnit dialect unit file := by
  have base : Path.base path = Path.base file := by
    rw [Path.base_of_splitAt divided named.nonempty, base_of_isName named]
  have extension := Path.extension_of_splitAt divided
  have constraint : isConstraint path = isConstraint file := by
    rw [isConstraint, isConstraint, extension]
  have suffix : ofSuffix? path = ofSuffix? file := by rw [ofSuffix?, ofSuffix?, base]
  have language : Scan.dialectOf? path = Scan.dialectOf? file := by
    rw [Scan.dialectOf?, Scan.dialectOf?, extension]
  rw [ofName, ofName, ofUnit, ofUnit, constraint, suffix, language, extension]
  exact ⟨rfl, rfl⟩

theorem ofUnit_of_foreign (foreign : Scan.dialectOf? file = none) :
    ofUnit dialect unit file = ofName file := by
  have other : Text.lower (Path.extension file) ≠ "." ++ dialect.extension := by
    intro same
    rw [Scan.dialectOf?, same] at foreign
    cases dialect <;> cases foreign
  rw [ofUnit, ofName, foreign, if_pos other]

theorem ofSuffix?_ne_module (path : String) : ofSuffix? path ≠ some .module := by
  simp only [ofSuffix?]
  split
  · simp
  · split <;> simp

theorem ofUnit_source (identifier : Naming.IsIdentifier stem) (written : unit.verbatim = none) :
    ofUnit dialect unit (stem ++ "." ++ dialect.extension) =
        ofName (stem ++ "." ++ dialect.extension) ↔
      (isSuffixed stem = true ↔ dialect = .vhdl) := by
  have free : '/' ∉ dialect.extension.toList ∧ '.' ∉ dialect.extension.toList := by
    cases dialect <;> decide
  have extension := Path.extension_file stem free.1 free.2
  have ordinary : isConstraint (stem ++ "." ++ dialect.extension) = false := by
    rw [isConstraint, extension]
    cases dialect <;> decide
  have own : Text.lower ("." ++ dialect.extension) = "." ++ dialect.extension := by
    cases dialect <;> decide
  have language : Scan.dialectOf? (stem ++ "." ++ dialect.extension) = some dialect := by
    rw [Scan.dialectOf?, extension]
    cases dialect <;> rfl
  have suffix : (ofSuffix? (stem ++ "." ++ dialect.extension)).isSome = isSuffixed stem := by
    simp only [ofSuffix?, base_of_isName (identifier.isName_file free.1), Path.withoutExtension,
      extension]
    rw [String.append_assoc, Text.withoutEnd_append, isSuffixed]
    split
    · simp [*]
    · split <;> simp [*]
  rw [ofUnit, ofName, ordinary, extension, own, language, written, ← suffix]
  cases found : ofSuffix? (stem ++ "." ++ dialect.extension) with
  | none => cases dialect <;> simp
  | some role =>
    have other : role ≠ .module := fun same => ofSuffix?_ne_module _ (same ▸ found)
    cases dialect <;> simp [other]

end FileRole

namespace Hdl.DesignUnit

/-- A unit that is written here, with nothing attached that a scan would read as a source. -/
structure Generated (unit : DesignUnit) : Prop where
  named : Naming.IsIdentifier unit.name
  placed : Path.IsName unit.category
  written : unit.verbatim = none
  attached : ∀ file ∈ unit.attachments, Path.IsName file.name ∧ Scan.dialectOf? file.name = none

variable {dialect : Dialect} {unit : DesignUnit} {root path : String}

theorem generated_write {name category : String} (named : Naming.IsIdentifier name)
    (placed : Path.IsName category) (dialect : Dialect) (interface : Interface)
    (components : List (List String)) (body notes : List String) {attachments : List Attachment}
    (attached : ∀ file ∈ attachments, Path.IsName file.name ∧ Scan.dialectOf? file.name = none) :
    Generated
      { write dialect name category interface components body notes with attachments } where
  named := (write_name dialect name category interface components body notes).symm ▸ named
  placed := (write_category dialect name category interface components body notes).symm ▸ placed
  written := by cases dialect <;> rfl
  attached := attached

theorem Regular.generated {vendor : Vendor} (regular : unit.Regular dialect vendor)
    (written : unit.verbatim = none) : unit.Generated where
  named := regular.named
  placed := regular.placed
  written := written
  attached file member := by
    have listed : file.name ∈ unit.attachments.map (·.name) := mem_map_of_mem member
    rw [regular.attached] at listed
    obtain ⟨lane, _, same⟩ := mem_map.mp listed
    have free : '/' ∉ vendor.memoryExtension.toList ∧ '.' ∉ vendor.memoryExtension.toList := by
      cases vendor <;> decide
    have identifier := MemoryContents.isIdentifier_laneStem regular.named lane
      unit.attachments.length
    rw [← same, MemoryContents.fileName_eq]
    refine ⟨identifier.isName_file free.1, ?_⟩
    rw [Scan.dialectOf?, Path.extension_file _ free.1 free.2]
    cases vendor <;> rfl

/-- Sources of a unit carry a suffix, unless the unit is a single file that carries its name. -/
theorem isSuffixed_of_mem_sourceStems {stem : String} (written : unit.verbatim = none)
    (member : stem ∈ unit.sourceStems dialect) :
    if dialect = .vhdl then isSuffixed stem = true else stem = unit.name := by
  simp only [sourceStems, written] at member
  cases dialect with
  | verilog => exact mem_singleton.mp member
  | vhdl =>
    have ended : ∀ suffix ∈ [entitySuffix, behaviorSuffix],
        isSuffixed (unit.name ++ suffix) = true := by
      simp [isSuffixed, Text.endsWith_append]
    obtain member | member := mem_append.mp member
    · split at member
      · cases member
      · exact mem_singleton.mp member ▸ ended entitySuffix (by simp)
    · exact mem_singleton.mp member ▸ ended behaviorSuffix (by simp)

theorem Generated.exists_file (generated : unit.Generated)
    (member : path ∈ unit.targets root dialect) :
    ∃ file, path = Path.join [root, dialect.directory, unit.category, file] ∧ Path.IsName file ∧
      ((∃ stem ∈ unit.sourceStems dialect, file = stem ++ "." ++ dialect.extension) ∨
        Scan.dialectOf? file = none) := by
  rw [targets_eq_sources] at member
  obtain member | member := mem_append.mp member
  · obtain ⟨stem, listed, rfl⟩ := mem_map.mp member
    have free : '/' ∉ dialect.extension.toList := by cases dialect <;> decide
    exact ⟨_, rfl, (isIdentifier_of_mem_sourceStems generated.named listed).isName_file free,
      .inl ⟨stem, listed, rfl⟩⟩
  · obtain ⟨file, listed, rfl⟩ := mem_map.mp member
    obtain ⟨named, foreign⟩ := generated.attached file listed
    refine ⟨file.name, ?_, named, .inr foreign⟩
    exact Path.join_join (by simp) (by simp [isName_directory, generated.placed]) (by simp)
      (by simp [named])

/-- The roles of a target are those of its last name, also of the path below the root. -/
theorem Generated.roles_of_target (generated : unit.Generated) {file : String}
    (named : Path.IsName file)
    (placed : path = Path.join [root, dialect.directory, unit.category, file]) :
    FileRole.ofName path = .ofName file ∧
      FileRole.ofUnit dialect unit path = .ofUnit dialect unit file ∧
      FileRole.ofName ((Path.relative? root path).getD path) = .ofName file := by
  have plain : ∀ name ∈ [dialect.directory, unit.category, file], Path.IsName name := by
    simp [isName_directory, generated.placed, named]
  obtain ⟨front, divided⟩ := Path.splitAt_join (by simp) plain root
  have whole : Text.splitAt '/' path = (front ++ [dialect.directory, unit.category]) ++ [file] := by
    rw [placed, divided, append_assoc]
    rfl
  have below : (Path.relative? root path).getD path =
      "/".intercalate [dialect.directory, unit.category, file] := by
    rw [placed, Path.relative?_join root (by simp) plain, Option.getD_some]
  have short : Text.splitAt '/' ("/".intercalate [dialect.directory, unit.category, file]) =
      [dialect.directory, unit.category] ++ [file] :=
    Path.splitAt_intercalate (by simp) fun name member => (plain name member).free
  obtain ⟨scanned, run⟩ := FileRole.roles_of_splitAt whole named dialect unit
  exact ⟨scanned, run, by rw [below, (FileRole.roles_of_splitAt short named dialect unit).1]⟩

/-- Both classifications agree on a generated unit, unless its name ends like a part where there are
none. -/
theorem Generated.roles_agree_iff (generated : unit.Generated) :
    (∀ path ∈ unit.targets root dialect, FileRole.ofUnit dialect unit path = .ofName path) ↔
      (dialect = .verilog → isSuffixed unit.name = false) := by
  constructor
  · rintro agree rfl
    have free : '/' ∉ (Dialect.extension .verilog).toList := by decide
    have source : unit.name ∈ unit.sourceStems .verilog := by
      simp only [sourceStems, generated.written]
      exact mem_singleton.mpr rfl
    obtain ⟨scanned, run, _⟩ := generated.roles_of_target (generated.named.isName_file free) rfl
    have same := agree (sourcePath root .verilog unit.category unit.name) (by
      rw [targets_eq_sources]
      exact mem_append_left _ (mem_map_of_mem source))
    rw [sourcePath, run, scanned, FileRole.ofUnit_source generated.named generated.written] at same
    simpa using same
  · intro unsuffixed path member
    obtain ⟨file, placed, named, kind⟩ := generated.exists_file member
    obtain ⟨scanned, run, _⟩ := generated.roles_of_target named placed
    rw [run, scanned]
    obtain ⟨stem, listed, rfl⟩ | foreign := kind
    · have suffix := isSuffixed_of_mem_sourceStems generated.written listed
      rw [FileRole.ofUnit_source (isIdentifier_of_mem_sourceStems generated.named listed)
        generated.written]
      cases dialect with
      | vhdl => simpa using suffix
      | verilog =>
        obtain rfl : stem = unit.name := by simpa using suffix
        simp [unsuffixed rfl]
    · exact FileRole.ofUnit_of_foreign foreign

end Hdl.DesignUnit

namespace Running

variable {design : Design} {settings : Settings} {board : Option Board} {state later : RunState}
  {units : List DesignUnit} {ports : List PlacedPort}

theorem isName_constraintFile (vendor : Vendor) : Path.IsName vendor.constraintFile ∧
    Scan.dialectOf? vendor.constraintFile = none := by
  cases vendor <;>
    exact ⟨⟨⟨by decide, by decide, by decide⟩, by decide⟩, by decide⟩

theorem generated_wrapper {names : Names} {layouts : Layouts} {tick : Clock.TickSettings}
    {wrapper : Wrapper}
    (made : Reporting.Yields (design.wrapper settings names layouts tick board) wrapper) :
    wrapper.unit.Generated := by
  obtain ⟨outline, ⟨_, rfl⟩, _⟩ := Design.exists_outline made
  refine DesignUnit.generated_write ⟨by decide, by decide⟩
    ⟨⟨by decide, by decide, by decide⟩, by decide⟩ _ _ _ _ _ ?_
  cases board with
  | none => simp
  | some board => exact forall_mem_singleton.mpr (isName_constraintFile settings.vendor)

theorem generated_clockUnits : ∀ unit ∈ design.clockUnits settings, unit.Generated := by
  have based : Path.IsName Clock.category := ⟨⟨by decide, by decide, by decide⟩, by decide⟩
  have written : ∀ (name : String) (interface : Interface) (body notes : List String),
      Naming.IsIdentifier name →
        (DesignUnit.write settings.dialect name Clock.category interface []
          body notes).Generated := by
    intro name interface body notes named
    have generated := DesignUnit.generated_write named based settings.dialect interface [] body
      notes (forall_mem_nil _)
    revert generated
    cases settings.dialect <;> exact id
  unfold Design.clockUnits
  split
  · exact forall_mem_nil _
  · refine forall_mem_cons.mpr ⟨written _ _ _ _ ⟨by decide, by decide⟩,
      forall_mem_singleton.mpr ?_⟩
    unfold Clock.ClockSource.unit
    split <;> exact written _ _ _ _ ⟨by decide, by decide⟩

/-- What a run generates and does not take over from elsewhere is a generated unit. -/
theorem generated_of_generate
    (ran : outcome (generate design settings board) state = (.ok (units, ports), later)) :
    ∀ unit ∈ units, unit.verbatim = none → unit.Generated := by
  obtain ⟨names, wrapper, planned, wrapped, rfl⟩ := exists_of_generate ran
  obtain ⟨planning, rfl, consistent⟩ := Design.exists_planning planned
  have accounts :=
    Design.accounts_generate design settings planning.names design.layouts []
  intro unit member written
  obtain (member | member) | member : (unit ∈ _ ∨ unit ∈ _) ∨ unit ∈ _ := by
    simpa only [mem_append] using member
  · exact ((accounts.units unit member).1.regular consistent rfl).generated written
  · obtain ⟨made, listed, rfl⟩ := mem_map.mp member
    exact generated_wrapper (wrapped made (by simpa using listed))
  · exact generated_clockUnits unit member

end Running

theorem exists_target_of_collectFiles {tree : FileTree} {root : String} {dialect : Dialect}
    {units : List DesignUnit} {files : List SurveyedFile}
    (collected : collectFiles tree root dialect units = .ok files) {file : SurveyedFile}
    (listed : file ∈ files) : ∃ unit ∈ units, ∃ path ∈ unit.targets root dialect,
      file.path = (Path.relative? root path).getD path ∧ file.role = .ofUnit dialect unit path := by
  simp only [collectFiles] at collected
  -- Of the targets of all units, those that are kept once are still targets.
  generalize once : foldl _ _ _ = kept at collected
  have inside : ∀ target ∈ kept, target.2 ∈ units ∧ target.1 ∈ target.2.targets root dialect := by
    rw [← once]
    refine List.foldlRecOn (motive := fun kept : List (String × DesignUnit) => ∀ target ∈ kept,
      target.2 ∈ units ∧ target.1 ∈ target.2.targets root dialect) _ _ (by simp) ?_
    intro kept inside target member
    split
    · exact inside
    · refine forall_mem_append.mpr ⟨inside, forall_mem_singleton.mpr ?_⟩
      obtain ⟨unit, known, member⟩ := mem_flatMap.mp member
      obtain ⟨path, own, rfl⟩ := mem_map.mp member
      exact ⟨known, own⟩
  obtain ⟨results, mapped, same⟩ := exists_ok_of_bind collected
  cases same
  obtain ⟨entry, gave, named⟩ := mem_filterMap.mp listed
  obtain rfl : entry = some file := named
  obtain ⟨⟨path, unit⟩, target, step⟩ := exists_of_forall₂ (forall₂_of_mapM mapped) gave
  obtain ⟨known, own⟩ := inside _ target
  dsimp only at step
  split at step
  · have same := Option.some.inj (Except.ok.inj step)
    refine ⟨unit, known, path, own, ?_, ?_⟩ <;> rw [← same]
  · split at step <;> cases step

/-- A file as a scan of its path classifies it. -/
def SurveyedFile.rescanned (file : SurveyedFile) : SurveyedFile :=
  { file with role := .ofName file.path }

section

variable {tree : FileTree} {root : String} {dialect : Dialect} {units : List DesignUnit}
  {files : List SurveyedFile}
  (right : ∀ unit ∈ units, unit.Generated ∧ (dialect = .verilog → isSuffixed unit.name = false))
  (collected : collectFiles tree root dialect units = .ok files)
include right collected

theorem role_of_collectFiles : ∀ file ∈ files, file.role = .ofName file.path := by
  intro file listed
  obtain ⟨unit, member, path, target, place, role⟩ := exists_target_of_collectFiles collected listed
  obtain ⟨generated, unsuffixed⟩ := right unit member
  obtain ⟨name, placed, named, _⟩ := generated.exists_file target
  obtain ⟨scanned, _, below⟩ := generated.roles_of_target named placed
  rw [role, place, below, ← scanned]
  exact generated.roles_agree_iff.mpr unsuffixed path target

theorem rescanned_of_collectFiles : files.map (·.rescanned) = files := by
  refine (map_congr_left fun file member => ?_).trans (map_id' files)
  rw [SurveyedFile.rescanned, ← role_of_collectFiles right collected file member]

end

/-- The tables of a whole run are those of a scan of its files, if every unit is written here and no
name ends like a part in the dialect without parts. -/
theorem RunResult.Tells.tables_rescanned {result : RunResult} {settings : Settings}
    {units : List DesignUnit} {files : List SurveyedFile}
    (tells : result.Tells settings units files)
    (right : ∀ unit ∈ units, unit.verbatim = none ∧
      (settings.dialect = .verilog → isSuffixed unit.name = false)) :
    result.tables = .ofSurvey (files.map (·.rescanned)) := by
  obtain ⟨design, board, start, later, ran⟩ := tells.generated
  obtain ⟨tree, collected⟩ := tells.collected
  have generated := Running.generated_of_generate ran
  rw [tells.tables_eq, rescanned_of_collectFiles (fun unit member =>
    ⟨generated unit member (right unit member).1, (right unit member).2⟩) collected]

/-- **A scan classifies generated files as the run did, unless a name ends like a part.** Both
classifications give every target of a generated unit the same role exactly if the dialect has parts
or the name of the unit does not end like the file of a part. All units of a run that are not taken
over from elsewhere are generated ones; and if the names of all are such, the tables of the run are
those of a scan of the files that it collects. -/
theorem roles_survive_iff {design : Design} {settings : Settings} {board : Option Board}
    {state later : RunState} {units : List DesignUnit} {ports : List PlacedPort}
    (ran : Running.outcome (Running.generate design settings board) state =
      (.ok (units, ports), later)) (root : String) :
    (∀ (dialect : Dialect) (unit : DesignUnit), unit.Generated →
      ((∀ path ∈ unit.targets root dialect, FileRole.ofUnit dialect unit path = .ofName path) ↔
        (dialect = .verilog → isSuffixed unit.name = false))) ∧
    (∀ unit ∈ units, unit.verbatim = none → unit.Generated) ∧
    ((∀ unit ∈ units, unit.verbatim = none ∧
        (settings.dialect = .verilog → isSuffixed unit.name = false)) →
      ∀ tree files, collectFiles tree root settings.dialect units = .ok files →
        (∀ file ∈ files, file.role = .ofName file.path) ∧
          FactTables.ofSurvey files = .ofSurvey (files.map (·.rescanned))) := by
  have generated := Running.generated_of_generate ran
  refine ⟨fun dialect unit generated => generated.roles_agree_iff, generated, ?_⟩
  intro right tree files collected
  have each : ∀ unit ∈ units, unit.Generated ∧
      (settings.dialect = .verilog → isSuffixed unit.name = false) := fun unit member =>
    ⟨generated unit member (right unit member).1, (right unit member).2⟩
  exact ⟨role_of_collectFiles each collected, by rw [rescanned_of_collectFiles each collected]⟩

/-- The units of a run with a memory and a board keep their roles, with what is attached to them. -/
theorem roles_survive_memory :
    let pin : Component := ⟨0, .pin, [("label", "A")], [⟨"A", false, [⟨0, 0⟩]⟩], ""⟩
    let memory : Component := ⟨1, .rom, [("label", "m")], [⟨"Address", false, [⟨0, 0⟩]⟩], ""⟩
    let design : Design :=
      ⟨"d", "main", [⟨"main", [⟨0, 1, false, [], [], none⟩], [pin, memory], none⟩], []⟩
    ∃ units ports later, Running.outcome
        (Running.generate design { dialect := .verilog } (some {})) { tree := {} } =
          (.ok (units, ports), later) ∧
      units.map (fun unit => (unit.name, unit.verbatim, unit.attachments.map (·.name))) =
        [("main", none, []), ("main_ROM_m", none, ["main_ROM_m.mem"]),
          ("FPGAToplevel", none, ["FPGAToplevel.lpf"])] ∧
      ∀ unit ∈ units, ∀ path ∈ unit.targets "out" .verilog,
        FileRole.ofUnit .verilog unit path = .ofName path := by
  intro pin memory design
  cases ended : Running.outcome
      (Running.generate design { dialect := .verilog } (some {})) { tree := {} } with
  | mk outcome later =>
    have made : (Running.outcome (Running.generate design { dialect := .verilog } (some {}))
        { tree := {} }).1.toOption.map (fun made => made.1.map fun unit =>
          (unit.name, unit.verbatim, unit.attachments.map (·.name))) =
        some [("main", none, []), ("main_ROM_m", none, ["main_ROM_m.mem"]),
          ("FPGAToplevel", none, ["FPGAToplevel.lpf"])] := by decide +kernel
    rw [ended] at made
    cases outcome with
    | error failure => cases made
    | ok result =>
      obtain ⟨units, ports⟩ := result
      have named : units.map _ = _ := Option.some.inj made
      obtain ⟨agree, generated, _⟩ := roles_survive_iff ended "out"
      refine ⟨units, ports, later, rfl, named, fun unit member => ?_⟩
      have plain : ∀ entry ∈ units.map fun unit =>
          (unit.name, unit.verbatim, unit.attachments.map (·.name)),
          entry.2.1 = none ∧ isSuffixed entry.1 = false := by
        rw [named]
        decide
      obtain ⟨written, unsuffixed⟩ := plain _ (mem_map_of_mem member)
      exact (agree .verilog unit (generated unit member written)).mpr fun _ => unsuffixed

/-- A module with a legal name that ends like a part is an entity for the run and a module for a
scan. -/
theorem part_name_rescanned :
    ¬∀ (dialect : Dialect) (unit : DesignUnit) (root : String), Naming.IsLegal unit.name →
      unit.Generated → ∀ path ∈ unit.targets root dialect,
        FileRole.ofUnit dialect unit path = .ofName path := by
  intro all
  have legal : Naming.IsLegal "alu_entity" :=
    ⟨.cons (by decide) (.cons (by decide) (.underscore (by decide)
      (.of_word (by decide) (by decide)))), by decide, by decide +kernel⟩
  have same := all .verilog (.write .verilog "alu_entity" "circuit" {} [] [] []) "out" legal
    ⟨legal.identifier, ⟨⟨by decide, by decide, by decide⟩, by decide⟩, rfl,
      by simp [DesignUnit.write]⟩ "out/verilog/circuit/alu_entity.v" (by decide)
  revert same
  decide

end Schematic
