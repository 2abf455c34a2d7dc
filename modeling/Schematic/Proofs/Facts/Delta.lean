import Mathlib.Data.Set.Basic
import Schematic.Facts.Tables
import Schematic.Proofs.Text.Numeral
import Schematic.Proofs.Text.Split

/-! # Deltas between snapshots

A delta compares the rows of a relation by their fields joined with bars. It rebuilds the later
snapshot exactly if no row that one of the snapshots lacks is alike a row of it. -/

open List

namespace Schematic

/-- The relations of the fact tables. -/
inductive FactRelation where
  | files
  | modules
  | ports
  | signals
  | instances
  | dependencies
  deriving DecidableEq, Repr

namespace FactRelation

def Row : FactRelation → Type
  | files => FileRow
  | modules => ModuleRow
  | ports => PortRow
  | signals => SignalRow
  | instances => InstanceRow
  | dependencies => DependencyRow

/-- The fields of a row as texts, in the order of its columns. -/
def fields : (relation : FactRelation) → relation.Row → List String
  | files, (row : FileRow) => [row.path, row.language, row.role, row.hash]
  | modules, (row : ModuleRow) => [row.name, row.file, toString row.line]
  | ports, (row : PortRow) =>
    [row.module, row.name, row.direction, row.type, toString row.width, row.file, toString row.line]
  | signals, (row : SignalRow) => [row.name, row.type, row.file, toString row.line, row.scope]
  | instances, (row : InstanceRow) =>
    [row.name, row.target, row.file, toString row.line, row.inModule]
  | dependencies, (row : DependencyRow) => [row.file, row.target, row.kind, toString row.line]

variable {relation : FactRelation} {row other : relation.Row}

/-- The fields of two rows, joined with bars, give one text. -/
def Alike (row other : relation.Row) : Prop :=
  "|".intercalate (relation.fields row) = "|".intercalate (relation.fields other)

/-- No field of the row has a bar. -/
def Barless (row : relation.Row) : Prop :=
  ∀ field ∈ relation.fields row, '|' ∉ field.toList

theorem fields_injective (same : relation.fields row = relation.fields other) : row = other := by
  have number : ∀ m n : Int, toString m = toString n ↔ m = n :=
    fun _ _ => ⟨Text.toString_int_injective, congrArg toString⟩
  cases relation <;> cases row <;> cases other <;>
    simp only [fields, List.cons.injEq, number, and_true] at same <;> simp only [same] <;> rfl

theorem length_fields (row other : relation.Row) :
    (relation.fields row).length = (relation.fields other).length := by
  cases relation <;> rfl

end FactRelation

namespace Text

variable {fields others : List String}

def bars (fields : List String) : Nat :=
  (fields.flatMap String.toList).count '|'

theorem bars_eq_zero : bars fields = 0 ↔ ∀ field ∈ fields, '|' ∉ field.toList := by
  simp [bars, count_eq_zero]

theorem count_intercalate (nonempty : fields ≠ []) :
    ("|".intercalate fields).toList.count '|' + 1 = fields.length + bars fields := by
  induction fields with
  | nil => exact absurd rfl nonempty
  | cons text rest ih =>
    by_cases last : rest = []
    · subst last
      simp [bars, Nat.add_comm]
    · have rest := ih last
      simp only [bars] at rest
      simp only [String.intercalate_cons_of_ne_nil last, String.toList_append, count_append, bars,
        flatMap_cons, length_cons]
      have bar : "|".toList.count '|' = 1 := rfl
      omega

theorem toList_bars (fields : List String) :
    ("|".intercalate fields).toList = ['|'].intercalate (fields.map String.toList) :=
  String.toList_intercalate ..

theorem eq_of_intercalate (lengths : fields.length = others.length) (barless : bars fields = 0)
    (same : "|".intercalate fields = "|".intercalate others) : fields = others := by
  by_cases empty : fields = []
  · subst empty
    exact (eq_nil_of_length_eq_zero lengths.symm).symm
  have filled : others ≠ [] := by
    rintro rfl
    exact empty (eq_nil_of_length_eq_zero lengths)
  have counted := count_intercalate empty
  rw [same, count_intercalate filled] at counted
  have otherBarless : bars others = 0 := by omega
  have split : ∀ fields : List String, fields ≠ [] → bars fields = 0 →
      ("|".intercalate fields).toList.splitOn '|' = fields.map String.toList := by
    intro fields nonempty barless
    rw [toList_bars]
    refine splitOn_intercalate '|' ?_ (by simpa using nonempty)
    simpa using bars_eq_zero.mp barless
  have lists := split fields empty barless
  rw [same, split others filled otherBarless] at lists
  exact ((map_inj_right fun _ _ => String.toList_injective).mp lists).symm

end Text

namespace FactRelation

variable {relation : FactRelation} {row other : relation.Row}

theorem Alike.eq_of_barless (alike : Alike row other) (barless : Barless row) : row = other :=
  fields_injective (Text.eq_of_intercalate (length_fields row other) (Text.bars_eq_zero.mpr barless)
    alike)

end FactRelation

section Rows

variable {α : Type} {key : α → String} {earlier later : List α} {row : α}

theorem mem_newRows :
    row ∈ newRows key earlier later ↔ row ∈ later ∧ ∀ other ∈ earlier, key other ≠ key row := by
  simp [newRows]

theorem rebuilds_iff : (∀ row, row ∈ later ↔
      row ∈ earlier ∧ row ∉ newRows key later earlier ∨ row ∈ newRows key earlier later) ↔
    ∀ row ∈ earlier, ∀ other ∈ later, key row = key other → row ∈ later ∧ other ∈ earlier := by
  simp only [mem_newRows]
  constructor
  · intro rebuilt row before other after same
    refine ⟨(rebuilt row).mpr (.inl ⟨before, ?_⟩), ?_⟩
    · rintro ⟨_, unknown⟩
      exact unknown other after same.symm
    · obtain ⟨kept, _⟩ | ⟨_, unknown⟩ := (rebuilt other).mp after
      · exact kept
      · exact absurd same (unknown row before)
  · intro apart row
    constructor
    · intro after
      by_cases known : ∃ other ∈ earlier, key other = key row
      · obtain ⟨other, before, same⟩ := known
        refine .inl ⟨(apart other before row after same).2, ?_⟩
        rintro ⟨_, unknown⟩
        exact unknown row after rfl
      · exact .inr ⟨after, fun other before same => known ⟨other, before, same⟩⟩
    · rintro (⟨before, kept⟩ | ⟨after, _⟩)
      · by_contra missing
        refine kept ⟨before, fun other after same => ?_⟩
        exact missing (apart row before other after same.symm).1
      · exact after

end Rows

namespace FactTables

def rows (tables : FactTables) : (relation : FactRelation) → List relation.Row
  | .files => tables.files
  | .modules => tables.modules
  | .ports => tables.ports
  | .signals => tables.signals
  | .instances => tables.instances
  | .dependencies => tables.dependencies

/-- The rows of a relation, without their order and number. -/
def rowSet (tables : FactTables) (relation : FactRelation) : Set relation.Row :=
  {row | row ∈ tables.rows relation}

theorem rows_newSince (tables earlier : FactTables) (relation : FactRelation) :
    (tables.newSince earlier).rows relation =
      newRows (fun row => "|".intercalate (relation.fields row)) (earlier.rows relation)
        (tables.rows relation) := by
  cases relation <;> rfl

theorem mem_newSince {tables earlier : FactTables} {relation : FactRelation} {row : relation.Row} :
    row ∈ (tables.newSince earlier).rows relation ↔
      row ∈ tables.rows relation ∧
        ∀ other ∈ earlier.rows relation, ¬FactRelation.Alike other row := by
  rw [rows_newSince, mem_newRows]
  rfl

theorem size_eq_zero {tables : FactTables} :
    tables.size = 0 ↔ ∀ relation, tables.rows relation = [] := by
  constructor
  · intro empty relation
    simp only [size, Nat.add_eq_zero_iff, length_eq_zero_iff] at empty
    obtain ⟨⟨⟨⟨⟨_, _⟩, _⟩, _⟩, _⟩, _⟩ := empty
    cases relation <;> assumption
  · intro empty
    have lengths := fun relation => congrArg length (empty relation)
    exact congrArg₂ (· + ·) (congrArg₂ (· + ·) (congrArg₂ (· + ·) (congrArg₂ (· + ·)
      (congrArg₂ (· + ·) (lengths .files) (lengths .modules)) (lengths .ports)) (lengths .signals))
      (lengths .instances)) (lengths .dependencies)

theorem newSince_size_eq_zero {tables earlier : FactTables} :
    (tables.newSince earlier).size = 0 ↔ ∀ relation, ∀ row ∈ tables.rows relation,
      ∃ other ∈ earlier.rows relation, FactRelation.Alike other row := by
  rw [size_eq_zero]
  refine forall_congr' fun relation => ?_
  rw [eq_nil_iff_forall_not_mem]
  refine forall_congr' fun row => ?_
  rw [mem_newSince]
  push Not
  rfl

end FactTables

namespace Delta

variable {earlier later : FactTables} {relation : FactRelation}

/-- The later snapshot has the rows of the earlier one less the removed ones, and the added ones. -/
def Rebuilds (delta : Delta) (earlier later : FactTables) (relation : FactRelation) : Prop :=
  later.rowSet relation =
    earlier.rowSet relation \ delta.removed.rowSet relation ∪ delta.added.rowSet relation

theorem between_rebuilds_iff : (between earlier later).Rebuilds earlier later relation ↔
    ∀ row ∈ earlier.rows relation, ∀ other ∈ later.rows relation, FactRelation.Alike row other →
      row ∈ later.rows relation ∧ other ∈ earlier.rows relation := by
  rw [Rebuilds, Set.ext_iff]
  simp only [between, FactTables.rowSet, FactTables.rows_newSince]
  exact rebuilds_iff

theorem between_rebuilds_of_barless
    (barless : (∀ row ∈ earlier.rows relation, FactRelation.Barless row) ∨
      ∀ row ∈ later.rows relation, FactRelation.Barless row) :
    (between earlier later).Rebuilds earlier later relation := by
  refine between_rebuilds_iff.mpr fun row before other after alike => ?_
  have same : row = other := by
    obtain barless | barless := barless
    · exact alike.eq_of_barless (barless row before)
    · exact (FactRelation.Alike.eq_of_barless (Eq.symm alike) (barless other after)).symm
  exact ⟨same ▸ after, same ▸ before⟩

theorem between_isEmpty_iff : (between earlier later).isEmpty = true ↔ ∀ relation,
    (∀ row ∈ earlier.rows relation, ∃ other ∈ later.rows relation, FactRelation.Alike other row) ∧
    ∀ row ∈ later.rows relation, ∃ other ∈ earlier.rows relation, FactRelation.Alike other row := by
  simp only [isEmpty, between, Bool.and_eq_true, beq_iff_eq, FactTables.newSince_size_eq_zero]
  rw [and_comm, forall_and]

theorem isEmpty_iff_of_rebuilds
    (rebuilds : ∀ relation, (between earlier later).Rebuilds earlier later relation) :
    (between earlier later).isEmpty = true ↔
      ∀ relation, earlier.rowSet relation = later.rowSet relation := by
  rw [between_isEmpty_iff]
  refine forall_congr' fun relation => ?_
  have apart := between_rebuilds_iff.mp (rebuilds relation)
  constructor
  · rintro ⟨kept, known⟩
    ext row
    constructor
    · intro before
      obtain ⟨other, after, alike⟩ := kept row before
      exact (apart row before other after alike.symm).1
    · intro after
      obtain ⟨other, before, alike⟩ := known row after
      exact (apart other before row after alike).2
  · intro same
    have each := fun row => Set.ext_iff.mp same row
    exact ⟨fun row before => ⟨row, (each row).mp before, rfl⟩,
      fun row after => ⟨row, (each row).mpr after, rfl⟩⟩

/-- Nothing added was there and nothing removed remains. The delta rebuilds a relation exactly if no
row missing from one snapshot is alike a row of the other, in particular if the rows of one have no
bars. It is empty exactly if each row is alike one of the other snapshot. -/
theorem between_rebuilds (earlier later : FactTables) :
    (∀ relation,
      (∀ row ∈ (between earlier later).added.rows relation, row ∉ earlier.rows relation) ∧
      (∀ row ∈ (between earlier later).removed.rows relation, row ∉ later.rows relation) ∧
      ((between earlier later).Rebuilds earlier later relation ↔
        ∀ row ∈ earlier.rows relation, ∀ other ∈ later.rows relation, FactRelation.Alike row other →
          row ∈ later.rows relation ∧ other ∈ earlier.rows relation) ∧
      ((∀ row ∈ earlier.rows relation, FactRelation.Barless row) ∨
          (∀ row ∈ later.rows relation, FactRelation.Barless row) →
        (between earlier later).Rebuilds earlier later relation)) ∧
    ((between earlier later).isEmpty = true ↔ ∀ relation,
      (∀ row ∈ earlier.rows relation, ∃ other ∈ later.rows relation, FactRelation.Alike other row) ∧
      ∀ row ∈ later.rows relation, ∃ other ∈ earlier.rows relation, FactRelation.Alike other row) ∧
    ((∀ relation, (between earlier later).Rebuilds earlier later relation) →
      ((between earlier later).isEmpty = true ↔
        ∀ relation, earlier.rowSet relation = later.rowSet relation)) := by
  have apart : ∀ (tables earlier : FactTables) relation,
      ∀ row ∈ (tables.newSince earlier).rows relation, row ∉ earlier.rows relation :=
    fun tables earlier relation row added before =>
      (FactTables.mem_newSince.mp added).2 row before rfl
  exact ⟨fun relation => ⟨apart later earlier relation, apart earlier later relation,
    between_rebuilds_iff, between_rebuilds_of_barless⟩, between_isEmpty_iff,
    isEmpty_iff_of_rebuilds⟩

def barredEarlier : FactTables where
  dependencies := [⟨"a|b.v", "c.v", "include", 1⟩]

def barredLater : FactTables where
  dependencies := [⟨"a", "b.v|c.v", "include", 1⟩]

/-- Two different rows with bars in their fields are taken for one. -/
theorem between_misses_barred_row : (between barredEarlier barredLater).isEmpty = true ∧
    barredEarlier.dependencies ≠ barredLater.dependencies ∧
    ¬(between barredEarlier barredLater).Rebuilds barredEarlier barredLater .dependencies := by
  have differ : barredEarlier.dependencies ≠ barredLater.dependencies := by decide
  refine ⟨by decide, differ, fun rebuilt => ?_⟩
  have kept := between_rebuilds_iff.mp rebuilt _ (mem_singleton_self _) _ (mem_singleton_self _) rfl
  exact differ (congrArg (fun row => [row]) (mem_singleton.mp kept.1))

end Delta

end Schematic
