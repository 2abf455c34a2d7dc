import Schematic.Proofs.Facts.Walk
import Schematic.Proofs.Text.Split

/-! # What a compile order keeps -/

namespace Schematic

open Relation Text

theorem Table.find?_of_mem {κ α : Type} [DecidableEq κ] {table : Table κ α} {key : κ} {value : α}
    (distinct : (table.map Prod.fst).Nodup) (listed : (key, value) ∈ table) :
    table.find? key = some value := by
  induction table with
  | nil => cases listed
  | cons entry rest ih =>
    rw [List.map_cons, List.nodup_cons] at distinct
    obtain rfl | later := List.mem_cons.mp listed
    · exact if_pos rfl
    · have differ : key ≠ entry.1 :=
        fun same => distinct.1 (same ▸ List.mem_map.mpr ⟨_, later, rfl⟩)
      exact (if_neg differ).trans (ih distinct.2 later)

namespace DependencyGraph

variable {graph later last : DependencyGraph} {added further : String → String → Prop}

structure Adds (graph later : DependencyGraph) (added : String → String → Prop) : Prop where
  has : ∀ file, later.has file = graph.has file
  needs : ∀ file needed, later.Edge file needed ↔
    graph.Edge file needed ∨ graph.has file = true ∧ added file needed

theorem Adds.refl (graph : DependencyGraph) : Adds graph graph fun _ _ => False :=
  ⟨fun _ => rfl, by simp⟩

theorem Adds.trans (first : Adds graph later added) (second : Adds later last further) :
    Adds graph last fun file needed => added file needed ∨ further file needed := by
  refine ⟨fun file => (second.has file).trans (first.has file), fun file needed => ?_⟩
  rw [second.needs, first.needs, first.has, or_assoc, and_or_left]

theorem Adds.congr (adds : Adds graph later added)
    (same : ∀ file needed, added file needed ↔ further file needed) : Adds graph later further :=
  ⟨adds.has, fun file needed => by rw [adds.needs, same]⟩

theorem adds_addNeed (graph : DependencyGraph) (file needed : String) :
    Adds graph (graph.addNeed file needed) fun other need => other = file ∧ need = needed := by
  rw [addNeed]
  split
  case h_1 absent =>
    refine ⟨fun _ => rfl, fun other need => ?_⟩
    refine (or_iff_left ?_).symm
    rintro ⟨present, rfl, rfl⟩
    rw [Table.has, absent] at present
    cases present
  case h_2 needs found =>
    refine ⟨fun other => ?_, fun other need => ?_⟩
    · by_cases same : other = file
      · rw [same, Table.has, Table.has, Table.find?_insert_self, found]
        rfl
      · rw [Table.has, Table.has, Table.find?_insert_of_ne same]
    · by_cases same : other = file
      · subst same
        simp only [Edge, DependencyGraph.needs, Table.find?_insert_self, found, Option.getD_some,
          Table.has, Option.isSome_some, true_and, Table.keys, Table.mem_keys_insert, List.map_map]
        rw [or_comm]
        simp
      · simp only [Edge, DependencyGraph.needs, Table.find?_insert_of_ne same, same, false_and,
          and_false, or_false]

theorem adds_foldl {α : Type} {step : DependencyGraph → α → DependencyGraph}
    {adds : α → String → String → Prop} (items : List α)
    (each : ∀ item ∈ items, ∀ graph, Adds graph (step graph item) (adds item))
    (graph : DependencyGraph) :
    Adds graph (items.foldl step graph) fun file needed =>
      ∃ item ∈ items, adds item file needed := by
  induction items generalizing graph with
  | nil => exact (Adds.refl graph).congr (by simp)
  | cons item items ih =>
    have first := each item (List.mem_cons_self ..) graph
    have rest := ih (fun other listed => each other (List.mem_cons_of_mem _ listed))
      (step graph item)
    exact (first.trans rest).congr (by simp)

end DependencyGraph

namespace FactTables

variable {tables : FactTables} {file needed : String}

/-- A file of the tables that is written in a known language. -/
def IsSource (tables : FactTables) (file : String) : Prop :=
  ∃ row ∈ tables.files, row.language ≠ "" ∧ row.path = file

/-- A choice of one spelling for every declared module, whatever the case of its letters. -/
def Counts (tables : FactTables) (counted : String → String) : Prop :=
  ∀ row ∈ tables.modules, ∃ other ∈ tables.modules,
    other.name = counted (lower row.name) ∧ lower other.name = lower row.name

/-- What is compiled first: the files that declare a module under the spelling that counts before
those that use it, and an interface before the behaviour of the same name and extension. -/
inductive Needs (tables : FactTables) (counted : String → String) (file needed : String) : Prop
  | use (row : InstanceRow) (declared : ModuleRow) : row ∈ tables.instances →
      declared ∈ tables.modules → row.file = file → declared.file = needed → needed ≠ file →
      lower declared.name = lower row.target → declared.name = counted (lower row.target) →
      Needs tables counted file needed
  | interface (stem : String) : tables.IsSource file → tables.IsSource needed →
      Path.withoutExtension file = stem ++ Hdl.behaviorSuffix →
      needed = stem ++ Hdl.entitySuffix ++ Path.extension file →
      Needs tables counted file needed

theorem interfaceOf?_eq_some : interfaceOf? file = some needed ↔
    ∃ stem, Path.withoutExtension file = stem ++ Hdl.behaviorSuffix ∧
      needed = stem ++ Hdl.entitySuffix ++ Path.extension file := by
  simp only [interfaceOf?]
  constructor
  · intro found
    split at found
    case isFalse => cases found
    case isTrue ends =>
      obtain ⟨stem, form⟩ := exists_of_endsWith ends
      rw [form, withoutEnd_append] at found
      exact ⟨stem, form, (Option.some.inj found).symm⟩
  · rintro ⟨stem, form, rfl⟩
    rw [form, if_pos (endsWith_append ..), withoutEnd_append]

theorem mem_moduleFiles (tables : FactTables) (name file : String) :
    file ∈ (tables.moduleFiles.find? name).getD [] ↔
      ∃ row ∈ tables.modules, row.name = name ∧ row.file = file := by
  have gathered : ∀ (rows : List ModuleRow) (table : Table String (List String)),
      file ∈ ((rows.foldl (fun table row => table.insert row.name
        ((table.find? row.name).getD [] ++ [row.file])) table).find? name).getD [] ↔
      file ∈ (table.find? name).getD [] ∨ ∃ row ∈ rows, row.name = name ∧ row.file = file := by
    intro rows
    induction rows with
    | nil => simp
    | cons row rows ih =>
      intro table
      rw [List.foldl_cons, ih]
      by_cases same : name = row.name
      · subst same
        simp [or_assoc, eq_comm]
      · simp [Table.find?_insert_of_ne same, Ne.symm same]
  rw [moduleFiles, gathered]
  exact or_iff_right List.not_mem_nil

theorem mem_keys_moduleFiles {name : String} :
    name ∈ tables.moduleFiles.map Prod.fst ↔ ∃ row ∈ tables.modules, row.name = name := by
  have gathered : ∀ (rows : List ModuleRow) (table : Table String (List String)),
      name ∈ (rows.foldl (fun table row => table.insert row.name
        ((table.find? row.name).getD [] ++ [row.file])) table).map Prod.fst ↔
      name ∈ table.map Prod.fst ∨ ∃ row ∈ rows, row.name = name := by
    intro rows
    induction rows with
    | nil => simp
    | cons row rows ih =>
      intro table
      rw [List.foldl_cons, ih, Table.mem_keys_insert, or_right_comm]
      simp [eq_comm, or_comm]
  rw [moduleFiles, gathered]
  exact or_iff_right List.not_mem_nil

theorem moduleFiles_ordered (tables : FactTables) : tables.moduleFiles.Ordered := by
  have kept : ∀ (rows : List ModuleRow) (table : Table String (List String)), table.Ordered →
      (rows.foldl (fun table row => table.insert row.name
        ((table.find? row.name).getD [] ++ [row.file])) table).Ordered := by
    intro rows
    induction rows with
    | nil => exact fun _ ordered => ordered
    | cons row rows ih => exact fun table ordered => ih _ (ordered.insert ..)
  exact kept tables.modules [] Table.ordered_nil

theorem declaringFiles_eq (tables : FactTables) : tables.declaringFiles =
    Table.insertAll [] (tables.moduleFiles.map fun entry => (lower entry.1, entry.2)) := by
  rw [Table.insertAll, List.foldl_map]
  rfl

theorem exists_spelling (tables : FactTables) (key : String) : ∃ name,
    (∀ file, file ∈ (tables.declaringFiles.find? key).getD [] ↔
      ∃ row ∈ tables.modules, lower row.name = key ∧ row.name = name ∧ row.file = file) ∧
    ((∃ row ∈ tables.modules, lower row.name = key) →
      ∃ row ∈ tables.modules, row.name = name ∧ lower row.name = key) := by
  cases found : tables.declaringFiles.find? key with
  | none =>
    have undeclared : ∀ row ∈ tables.modules, lower row.name ≠ key := by
      rintro row listed rfl
      have entered : lower row.name ∈ tables.declaringFiles.map Prod.fst := by
        obtain ⟨entry, held, same⟩ :=
          List.mem_map.mp (mem_keys_moduleFiles.mpr ⟨row, listed, rfl⟩)
        rw [declaringFiles_eq, Table.mem_keys_insertAll, List.map_map]
        exact .inl (List.mem_map.mpr ⟨entry, held, congrArg lower same⟩)
      obtain ⟨files, held⟩ := Table.exists_find? entered
      rw [found] at held
      cases held
    refine ⟨"", fun file => iff_of_false List.not_mem_nil ?_, ?_⟩
    · rintro ⟨row, listed, same, _⟩
      exact undeclared row listed same
    · rintro ⟨row, listed, same⟩
      exact absurd same (undeclared row listed)
  | some _ =>
    rw [declaringFiles_eq] at found
    obtain held | ⟨_, held⟩ := Table.find?_insertAll found
    case inr => cases held
    obtain ⟨⟨name, declaring⟩, entered, same⟩ := List.mem_map.mp held
    cases same
    have files_eq : tables.moduleFiles.find? name = some declaring :=
      Table.find?_of_mem tables.moduleFiles_ordered.nodup entered
    obtain ⟨row, listed, spelled⟩ := mem_keys_moduleFiles.mp (Table.mem_keys_of_find? files_eq)
    refine ⟨name, fun file => ?_, fun _ => ⟨row, listed, spelled, congrArg lower spelled⟩⟩
    have declared := mem_moduleFiles tables name file
    rw [files_eq, Option.getD_some] at declared
    rw [Option.getD_some, declared]
    constructor
    · rintro ⟨row, listed, rfl, rfl⟩
      exact ⟨row, listed, rfl, rfl, rfl⟩
    · rintro ⟨row, listed, -, rfl, rfl⟩
      exact ⟨row, listed, rfl, rfl⟩

def sources (tables : FactTables) : DependencyGraph :=
  Table.ofList (((tables.files.filter (·.language ≠ "")).map (·.path)).map fun path => (path, []))

theorem mem_keys_sources : file ∈ tables.sources.keys ↔ tables.IsSource file := by
  refine Iff.trans Table.mem_keys_insertAll ?_
  simp [IsSource, and_assoc]

theorem has_sources : tables.sources.has file = true ↔ tables.IsSource file := by
  rw [Table.has_iff, mem_keys_sources]

theorem not_edge_sources : ¬tables.sources.Edge file needed := by
  intro edge
  obtain ⟨needs, found, listed⟩ := DependencyGraph.exists_find?_of_edge edge
  obtain entered | ⟨_, entered⟩ := Table.find?_insertAll found
  · obtain ⟨path, _, same⟩ := List.mem_map.mp entered
    cases same
    cases listed
  · cases entered

theorem adds_dependencyGraph (tables : FactTables) :
    DependencyGraph.Adds tables.sources tables.dependencyGraph fun file needed =>
      (∃ row ∈ tables.instances, ∃ other ∈ (tables.declaringFiles.find? (lower row.target)).getD [],
          other ≠ row.file ∧ file = row.file ∧ needed = other) ∨
      ∃ behavior ∈ tables.sources.keys, ∃ interface, interfaceOf? behavior = some interface ∧
        tables.sources.has interface = true ∧ file = behavior ∧ needed = interface := by
  refine DependencyGraph.Adds.trans
    (DependencyGraph.adds_foldl _
      (fun row _ => DependencyGraph.adds_foldl _ fun other _ graph => ?_) _)
    (DependencyGraph.adds_foldl _ (fun behavior _ graph => ?_) _)
  · by_cases same : other = row.file
    · rw [if_pos same]
      exact (DependencyGraph.Adds.refl graph).congr (by simp [same])
    · rw [if_neg same]
      exact (graph.adds_addNeed row.file other).congr (by simp [same])
  · cases found : interfaceOf? behavior with
    | none => exact (DependencyGraph.Adds.refl graph).congr (by simp)
    | some interface =>
      simp only [Option.some.injEq]
      split
      case isTrue present =>
        exact (graph.adds_addNeed behavior interface).congr (by simp_all [sources])
      case isFalse absent =>
        exact (DependencyGraph.Adds.refl graph).congr (by simp_all [sources])

theorem exists_counted (tables : FactTables)
    (homes : ∀ row ∈ tables.instances, tables.IsSource row.file) :
    ∃ counted, tables.Counts counted ∧ tables.dependencyGraph.Edge = tables.Needs counted := by
  choose counted files spelled using tables.exists_spelling
  refine ⟨counted, fun row listed => spelled _ ⟨row, listed, rfl⟩, ?_⟩
  funext file needed
  rw [eq_iff_iff, tables.adds_dependencyGraph.needs, or_iff_right not_edge_sources, has_sources]
  constructor
  · rintro ⟨source, ⟨row, listed, other, declares, differ, rfl, rfl⟩ |
      ⟨_, _, interface, found, present, rfl, rfl⟩⟩
    · obtain ⟨declared, held, same, named, rfl⟩ := (files _ _).mp declares
      exact .use row declared listed held rfl rfl differ same named
    · obtain ⟨stem, form, shape⟩ := interfaceOf?_eq_some.mp found
      exact .interface stem source (has_sources.mp present) form shape
  · rintro (⟨row, declared, listed, held, rfl, rfl, differ, same, named⟩ |
      ⟨stem, source, present, form, shape⟩)
    · exact ⟨homes row listed, .inl ⟨row, listed, declared.file,
        (files _ _).mpr ⟨declared, held, same, named, rfl⟩, differ, rfl, rfl⟩⟩
    · exact ⟨source, .inr ⟨file, mem_keys_sources.mpr source, needed,
        interfaceOf?_eq_some.mpr ⟨stem, form, shape⟩, has_sources.mpr present, rfl, rfl⟩⟩

theorem mem_compileOrder_iff (homes : ∀ row ∈ tables.modules, tables.IsSource row.file) :
    file ∈ tables.compileOrder ↔ tables.IsSource file := by
  have keys : ∀ file, file ∈ tables.dependencyGraph.keys ↔ tables.IsSource file := fun file => by
    rw [← Table.has_iff, tables.adds_dependencyGraph.has, has_sources]
  constructor
  · refine DependencyGraph.known_order (fun other needed edge => ?_)
      (fun file => (keys file).mp) file
    obtain edge | ⟨_, ⟨row, _, _, declares, _, _, rfl⟩ | ⟨_, _, _, _, present, _, rfl⟩⟩ :=
      (tables.adds_dependencyGraph.needs _ _).mp edge
    · exact absurd edge not_edge_sources
    · obtain ⟨_, files, _⟩ := tables.exists_spelling (lower row.target)
      obtain ⟨declared, held, _, _, rfl⟩ := (files _).mp declares
      exact homes declared held
    · exact has_sources.mp present
  · intro source
    obtain ⟨walk, same, _, all⟩ := tables.dependencyGraph.reads_order
    rw [compileOrder, ← same]
    exact all file ((keys file).mpr source)

/-- **Compile order sorts the files.** Whatever cycles there are, the files with a language are
listed, each once, and no others; without cycles every file stands behind all that it has an edge
to. -/
theorem compileOrder_sorts (tables : FactTables)
    (homes : ∀ row ∈ tables.modules, tables.IsSource row.file) :
    tables.compileOrder.Nodup ∧ (∀ file, file ∈ tables.compileOrder ↔ tables.IsSource file) ∧
      ((∀ file, ¬TransGen tables.dependencyGraph.Edge file file) →
        ∀ file needed, tables.dependencyGraph.Edge file needed →
          [needed, file].Sublist tables.compileOrder) := by
  obtain ⟨walk, same, sound, _⟩ := tables.dependencyGraph.reads_order
  refine ⟨?_, fun file => mem_compileOrder_iff homes, fun acyclic file needed edge => ?_⟩
  · rw [compileOrder, ← same]
    exact sound.once
  · exact DependencyGraph.precedes_of_edge edge fun back => acyclic file (.head edge back)

/-- Two files that instantiate each other are both listed. -/
theorem compileOrder_sorts_cycle :
    let tables : FactTables :=
      { files := [⟨"b.v", "Verilog", "", ""⟩, ⟨"a.v", "Verilog", "", ""⟩, ⟨"b.mem", "", "", ""⟩]
        modules := [⟨"a", "a.v", 1⟩, ⟨"b", "b.v", 1⟩]
        instances := [⟨"u", "B", "a.v", 2, "a"⟩, ⟨"v", "A", "b.v", 2, "b"⟩] }
    tables.compileOrder = ["b.v", "a.v"] ∧ tables.compileOrder.Nodup ∧
      ("b.mem" ∈ tables.compileOrder ↔ tables.IsSource "b.mem") := by
  intro tables
  have homes : ∀ row ∈ tables.modules, tables.IsSource row.file := by simp [tables, IsSource]
  obtain ⟨once, all, _⟩ := tables.compileOrder_sorts homes
  exact ⟨by decide +kernel, once, all "b.mem"⟩

/-- **Compile order.** Every file is listed once. Of the spellings of a module that differ in case
one counts, and a file that uses a module is listed after the files that declare it under that
spelling; a behaviour file is listed after the interface file of its name and extension. The one
exception is a file that is needed for what it needs. -/
theorem compileOrder_respects_needs (tables : FactTables)
    (homes : ∀ row ∈ tables.instances, tables.IsSource row.file) :
    tables.compileOrder.Nodup ∧ ∃ counted, tables.Counts counted ∧
      ∀ file needed, tables.Needs counted file needed →
        ¬TransGen (tables.Needs counted) needed file →
        [needed, file].Sublist tables.compileOrder := by
  obtain ⟨walk, same, sound, _⟩ := tables.dependencyGraph.reads_order
  rw [compileOrder, ← same]
  refine ⟨sound.once, ?_⟩
  rw [same]
  obtain ⟨counted, counts, edges⟩ := tables.exists_counted homes
  refine ⟨counted, counts, fun file needed needs oneWay => ?_⟩
  rw [← edges] at needs oneWay
  exact DependencyGraph.precedes_of_edge needs oneWay

def twoFiles : FactTables where
  files := [{ path := "hdl/adder.v", language := "Verilog" },
    { path := "hdl/Top.v", language := "Verilog" }]
  modules := [⟨"adder", "hdl/adder.v", 1⟩, ⟨"Top", "hdl/Top.v", 1⟩]
  instances := [⟨"u", "ADDER", "hdl/Top.v", 2, "Top"⟩]

/-- A module is ordered before its use, which spells its name in capitals. -/
theorem compileOrder_respects_needs_twoFiles :
    ["hdl/adder.v", "hdl/Top.v"].Sublist twoFiles.compileOrder := by
  have homes : ∀ row ∈ twoFiles.instances, twoFiles.IsSource row.file := by
    simp [twoFiles, IsSource]
  obtain ⟨_, counted, counts, follows⟩ := twoFiles.compileOrder_respects_needs homes
  have named : counted "adder" = "adder" := by
    obtain ⟨other, listed, same, lowered⟩ := counts ⟨"adder", "hdl/adder.v", 1⟩ (by simp [twoFiles])
    have key : lower "adder" = "adder" := by decide +kernel
    obtain rfl | rfl : other = ⟨"adder", "hdl/adder.v", 1⟩ ∨ other = ⟨"Top", "hdl/Top.v", 1⟩ := by
      simpa [twoFiles] using listed
    · exact (key ▸ same).symm
    · exact absurd lowered (by decide +kernel)
  -- The adder holds no use and its name is not that of a behaviour file, so it needs nothing.
  have last : ∀ needed, ¬twoFiles.Needs counted "hdl/adder.v" needed := by
    rintro needed (⟨row, _, listed, _, home, _⟩ | ⟨stem, _, _, form, _⟩)
    · obtain rfl : row = ⟨"u", "ADDER", "hdl/Top.v", 2, "Top"⟩ := by simpa [twoFiles] using listed
      exact absurd home (by decide)
    · have ends := form ▸ endsWith_append stem Hdl.behaviorSuffix
      exact absurd ends (by decide +kernel)
  apply follows
  · refine .use ⟨"u", "ADDER", "hdl/Top.v", 2, "Top"⟩ ⟨"adder", "hdl/adder.v", 1⟩
      (by simp [twoFiles]) (by simp [twoFiles]) rfl rfl (by decide) (by decide +kernel) ?_
    rw [show lower "ADDER" = "adder" by decide +kernel]
    exact named.symm
  · intro reach
    obtain ⟨needed, first, _⟩ := TransGen.head'_iff.mp reach
    exact last needed first

inductive Requires (tables : FactTables) (file needed : String) : Prop
  | use (row : InstanceRow) (declared : ModuleRow) : row ∈ tables.instances →
      declared ∈ tables.modules → row.file = file → declared.file = needed → needed ≠ file →
      lower declared.name = lower row.target → Requires tables file needed
  | interface (stem : String) (behavior entity : FileRow) : behavior ∈ tables.files →
      entity ∈ tables.files → behavior.path = file → entity.path = needed →
      behavior.language = Hdl.Dialect.vhdl.name → entity.language = Hdl.Dialect.vhdl.name →
      Path.withoutExtension file = stem ++ Hdl.behaviorSuffix →
      Path.withoutExtension needed = stem ++ Hdl.entitySuffix → Requires tables file needed

def namedAlike : FactTables where
  files := [{ path := "m_behavior.v", language := "Verilog" },
    { path := "m_entity.v", language := "Verilog" }]
  modules := [⟨"part", "m_behavior.v", 1⟩, ⟨"m", "m_entity.v", 1⟩]
  instances := [⟨"u", "part", "m_entity.v", 2, "m"⟩]

def twoExtensions : FactTables where
  files := [{ path := "x_behavior.vhd", language := "VHDL" },
    { path := "x_entity.vhdl", language := "VHDL" }]

def twoSpellings : FactTables where
  files := [{ path := "a.v", language := "Verilog" }, { path := "b.v", language := "Verilog" },
    { path := "c.v", language := "Verilog" }]
  modules := [⟨"top", "a.v", 1⟩, ⟨"Part", "b.v", 1⟩, ⟨"part", "c.v", 1⟩]
  instances := [⟨"u", "part", "a.v", 2, "top"⟩]

theorem requires_namedAlike (requires : namedAlike.Requires file needed) :
    file = "m_entity.v" ∧ needed ≠ "m_entity.v" := by
  obtain ⟨row, declared, listed, _, rfl, rfl, differ, _⟩ |
      ⟨_, behavior, _, listed, _, _, _, spoken, _⟩ :=
    requires
  · obtain rfl : row = ⟨"u", "part", "m_entity.v", 2, "m"⟩ := by simpa [namedAlike] using listed
    exact ⟨rfl, differ⟩
  · have other : ∀ row ∈ namedAlike.files, row.language ≠ Hdl.Dialect.vhdl.name := by decide
    exact absurd spoken (other behavior listed)

theorem requires_twoExtensions (requires : twoExtensions.Requires file needed) :
    file = "x_behavior.vhd" ∧ needed ≠ "x_behavior.vhd" := by
  obtain ⟨row, _, listed, _⟩ |
      ⟨stem, behavior, entity, listed, held, rfl, rfl, _, _, form, shape⟩ :=
    requires
  · cases listed
  · have ends := form ▸ endsWith_append stem Hdl.behaviorSuffix
    have closes := shape ▸ endsWith_append stem Hdl.entitySuffix
    have behaves : ∀ row ∈ twoExtensions.files,
        endsWith (Path.withoutExtension row.path) Hdl.behaviorSuffix = true →
        row.path = "x_behavior.vhd" := by decide +kernel
    have faces : ∀ row ∈ twoExtensions.files,
        endsWith (Path.withoutExtension row.path) Hdl.entitySuffix = true →
        row.path ≠ "x_behavior.vhd" := by decide +kernel
    exact ⟨behaves behavior listed ends, faces entity held closes⟩

theorem requires_twoSpellings (requires : twoSpellings.Requires file needed) :
    file = "a.v" ∧ needed ≠ "a.v" := by
  obtain ⟨row, declared, listed, _, rfl, rfl, differ, _⟩ |
      ⟨_, behavior, _, listed, _, _, _, spoken, _⟩ :=
    requires
  · obtain rfl : row = ⟨"u", "part", "a.v", 2, "top"⟩ := by simpa [twoSpellings] using listed
    exact ⟨rfl, differ⟩
  · have other : ∀ row ∈ twoSpellings.files, row.language ≠ Hdl.Dialect.vhdl.name := by decide
    exact absurd spoken (other behavior listed)

def BreaksRequirement (tables : FactTables) : Prop :=
  ∃ file needed,
    (∀ row ∈ tables.instances, tables.IsSource row.file) ∧
    (∀ row ∈ tables.modules, tables.IsSource row.file) ∧
    (∀ other, ¬TransGen tables.Requires other other) ∧
    tables.Requires file needed ∧ ¬[needed, file].Sublist tables.compileOrder

/-- A compile order can break a requirement that is on no cycle: the names of two files in Verilog
are taken for those of a behaviour and its interface, those of a behaviour and its interface in VHDL
under two extensions are not, and of two modules that differ in case one is passed over. -/
theorem compileOrder_breaks_requirement :
    namedAlike.BreaksRequirement ∧ twoExtensions.BreaksRequirement ∧
      twoSpellings.BreaksRequirement := by
  -- Nothing requires the one file that requires something.
  have acyclic : ∀ (tables : FactTables) (file : String),
      (∀ first second, tables.Requires first second → first = file ∧ second ≠ file) →
      ∀ other, ¬TransGen tables.Requires other other := by
    intro tables file only other reach
    obtain ⟨_, first, _⟩ := TransGen.head'_iff.mp reach
    obtain ⟨_, _, last⟩ := TransGen.tail'_iff.mp reach
    exact (only _ _ last).2 (only _ _ first).1
  refine ⟨?_, ?_, ?_⟩
  · refine ⟨"m_entity.v", "m_behavior.v", by simp [namedAlike, IsSource],
      by simp [namedAlike, IsSource], ?_, ?_, by decide +kernel⟩
    · exact acyclic _ _ fun _ _ => requires_namedAlike
    · exact .use ⟨"u", "part", "m_entity.v", 2, "m"⟩ ⟨"part", "m_behavior.v", 1⟩
        (by simp [namedAlike]) (by simp [namedAlike]) rfl rfl (by decide) rfl
  · refine ⟨"x_behavior.vhd", "x_entity.vhdl", by simp [twoExtensions],
      by simp [twoExtensions], ?_, ?_, by decide +kernel⟩
    · exact acyclic _ _ fun _ _ => requires_twoExtensions
    · exact .interface "x" ⟨"x_behavior.vhd", "VHDL", "", ""⟩ ⟨"x_entity.vhdl", "VHDL", "", ""⟩
        (by simp [twoExtensions]) (by simp [twoExtensions]) rfl rfl rfl rfl (by decide +kernel)
        (by decide +kernel)
  · refine ⟨"a.v", "b.v", by simp [twoSpellings, IsSource], by simp [twoSpellings, IsSource], ?_,
      ?_, by decide +kernel⟩
    · exact acyclic _ _ fun _ _ => requires_twoSpellings
    · exact .use ⟨"u", "part", "a.v", 2, "top"⟩ ⟨"Part", "b.v", 1⟩
        (by simp [twoSpellings]) (by simp [twoSpellings]) rfl rfl (by decide) (by decide +kernel)

end FactTables

end Schematic
