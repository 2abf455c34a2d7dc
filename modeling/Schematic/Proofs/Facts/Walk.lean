import Mathlib.Logic.Relation
import Schematic.Facts.Survey
import Schematic.Proofs.Table

/-! # The walk through a dependency graph -/

open List

namespace Schematic.DependencyGraph

open Relation

variable {graph : DependencyGraph} {walk later : Walk} {file needed : String}

/-- A file needs another one. -/
def Edge (graph : DependencyGraph) (file needed : String) : Prop :=
  needed ∈ graph.needs file

def files (graph : DependencyGraph) : List String :=
  graph.keys ++ graph.flatMap (·.2)

def Walk.misses (walk : Walk) (file : String) : Bool :=
  !walk.met.contains file

def unmet (graph : DependencyGraph) (walk : Walk) : Nat :=
  graph.files.countP walk.misses

def Walk.Open (walk : Walk) (file : String) : Prop :=
  file ∈ walk.met ∧ file ∉ walk.order

theorem exists_find?_of_edge (edge : graph.Edge file needed) :
    ∃ needs, graph.find? file = some needs ∧ needed ∈ needs := by
  rw [Edge, needs] at edge
  cases found : graph.find? file with
  | none => rw [found] at edge; cases edge
  | some needs =>
    rw [found] at edge
    exact ⟨needs, rfl, edge⟩

theorem mem_keys_of_edge (edge : graph.Edge file needed) : file ∈ graph.keys := by
  obtain ⟨needs, found, _⟩ := exists_find?_of_edge edge
  exact Table.mem_keys_of_find? found

theorem mem_files_of_edge (edge : graph.Edge file needed) : needed ∈ graph.files := by
  obtain ⟨needs, found, listed⟩ := exists_find?_of_edge edge
  exact mem_append_right _
    (mem_flatMap.mpr ⟨(file, needs), Table.mem_of_find? found, listed⟩)

structure Sound (graph : DependencyGraph) (walk : Walk) : Prop where
  met : ∀ file ∈ walk.order, file ∈ walk.met
  once : walk.order.Nodup
  follows : ∀ before file, before ++ [file] <+: walk.order →
    ∀ needed, graph.Edge file needed → needed ∈ before ∨ TransGen graph.Edge needed file

structure Resumes (walk later : Walk) : Prop where
  order : walk.order <+: later.order
  opened : ∀ file, later.Open file ↔ walk.Open file

theorem sound_start : Sound graph {} where
  met _ listed := absurd listed not_mem_nil
  once := .nil
  follows before file start := by simp at start

theorem Resumes.refl (walk : Walk) : Resumes walk walk :=
  ⟨prefix_rfl, fun _ => Iff.rfl⟩

theorem Resumes.trans {last : Walk} (first : Resumes walk later) (second : Resumes later last) :
    Resumes walk last :=
  ⟨first.order.trans second.order, fun file => (second.opened file).trans (first.opened file)⟩

theorem Resumes.met (resumes : Resumes walk later) (sound : Sound graph later)
    (listed : file ∈ walk.met) : file ∈ later.met := by
  by_cases finished : file ∈ walk.order
  · exact sound.met file (resumes.order.subset finished)
  · exact ((resumes.opened file).mpr ⟨listed, finished⟩).1

theorem Walk.misses_iff : walk.misses file = true ↔ file ∉ walk.met := by
  rw [misses, Bool.not_eq_true', contains_eq_mem, decide_eq_false_iff_not]

theorem misses_mono (kept : ∀ file ∈ walk.met, file ∈ later.met) (files : List String) :
    files.countP later.misses ≤ files.countP walk.misses := by
  refine countP_mono_left fun file _ missing => ?_
  rw [Walk.misses_iff] at missing ⊢
  exact fun met => missing (kept file met)

theorem unmet_cons_lt (listed : file ∈ graph.files) (absent : file ∉ walk.met) :
    graph.unmet { walk with met := file :: walk.met } < graph.unmet walk := by
  obtain ⟨before, after, split⟩ := append_of_mem listed
  have fewer : ∀ files : List String,
      files.countP { walk with met := file :: walk.met }.misses ≤ files.countP walk.misses :=
    misses_mono fun _ => mem_cons_of_mem _
  have first := fewer before
  have last := fewer after
  have waiting := Walk.misses_iff.mpr absent
  have done : ¬Walk.misses { walk with met := file :: walk.met } file = true := by
    rw [Walk.misses_iff]
    exact fun missing => missing (mem_cons_self ..)
  simp only [unmet, split, countP_append, countP_cons_of_pos waiting,
    countP_cons_of_neg done]
  omega

structure Reads (graph : DependencyGraph) (walk later : Walk) (files : List String) : Prop where
  sound : Sound graph later
  resumes : Resumes walk later
  all : ∀ file ∈ files, file ∈ later.met

theorem reads_foldl {visit : Walk → String → Walk} {pending : List String} (depth : Nat)
    (each : ∀ file ∈ pending, ∀ walk : Walk, graph.unmet walk < depth → Sound graph walk →
      (∀ other, walk.Open other → TransGen graph.Edge other file) →
      Reads graph walk (visit walk file) [file])
    (enough : graph.unmet walk < depth) (sound : Sound graph walk)
    (reach : ∀ file ∈ pending, ∀ other, walk.Open other → TransGen graph.Edge other file) :
    Reads graph walk (pending.foldl visit walk) pending := by
  induction pending generalizing walk with
  | nil => exact ⟨sound, .refl walk, by simp⟩
  | cons file pending ih =>
    have first := each file (mem_cons_self ..) walk enough sound
      (reach file (mem_cons_self ..))
    have fewer : graph.unmet (visit walk file) ≤ graph.unmet walk :=
      misses_mono (fun _ => first.resumes.met first.sound) graph.files
    have rest := ih (fun other listed => each other (mem_cons_of_mem _ listed))
      (Nat.lt_of_le_of_lt fewer enough) first.sound fun other listed open' opened =>
        reach other (mem_cons_of_mem _ listed) open' ((first.resumes.opened open').mp opened)
    refine ⟨rest.sound, first.resumes.trans rest.resumes, ?_⟩
    intro other listed
    obtain rfl | listed := mem_cons.mp listed
    · exact rest.resumes.met rest.sound (first.all other (mem_singleton_self other))
    · exact rest.all other listed

theorem Reads.finish (absent : file ∉ walk.met) (sound : Sound graph walk)
    (reach : ∀ other, walk.Open other → TransGen graph.Edge other file)
    (inside : Reads graph { walk with met := file :: walk.met } later (graph.needs file)) :
    Reads graph walk { later with order := later.order ++ [file] } [file] := by
  have own : later.Open file :=
    (inside.resumes.opened file).mpr ⟨mem_cons_self .., fun listed => absent (sound.met _ listed)⟩
  refine ⟨⟨?_, ?_, ?_⟩, ⟨?_, ?_⟩, ?_⟩
  · intro other listed
    obtain listed | listed := mem_append.mp listed
    · exact inside.sound.met other listed
    · exact mem_singleton.mp listed ▸ own.1
  · refine nodup_append.mpr ⟨inside.sound.once, nodup_singleton file, ?_⟩
    rintro other listed _ last rfl
    exact own.2 (mem_singleton.mp last ▸ listed)
  · intro before other start needed edge
    obtain whole | earlier := prefix_concat_iff.mp start
    · -- The file itself: whatever it needs is finished, or still open behind it.
      obtain ⟨rfl, last⟩ := append_inj' whole rfl
      obtain rfl := (List.cons.inj last).1
      by_cases finished : needed ∈ later.order
      · exact .inl finished
      · obtain ⟨met, unfinished⟩ := (inside.resumes.opened needed).mp
          ⟨inside.all needed edge, finished⟩
        obtain rfl | met := mem_cons.mp met
        · exact .inr (.single edge)
        · exact .inr (reach needed ⟨met, unfinished⟩)
    · exact inside.sound.follows before other earlier needed edge
  · exact inside.resumes.order.trans (prefix_append ..)
  · intro other
    have opened := inside.resumes.opened other
    simp only [Walk.Open, mem_cons] at opened ⊢
    rw [mem_append, mem_singleton, not_or, ← and_assoc, opened]
    constructor
    · rintro ⟨⟨rfl | met, unfinished⟩, differ⟩
      · exact absurd rfl differ
      · exact ⟨met, unfinished⟩
    · rintro ⟨met, unfinished⟩
      exact ⟨⟨.inr met, unfinished⟩, fun same => absent (same ▸ met)⟩
  · exact fun other listed => mem_singleton.mp listed ▸ own.1

theorem reads_visit (depth : Nat) (listed : file ∈ graph.files) (enough : graph.unmet walk < depth)
    (sound : Sound graph walk) (reach : ∀ other, walk.Open other → TransGen graph.Edge other file) :
    Reads graph walk (visit graph depth walk file) [file] := by
  induction depth generalizing walk file with
  | zero => cases enough
  | succ depth ih =>
    rw [visit]
    by_cases met : file ∈ walk.met
    · rw [if_pos (contains_iff_mem.mpr met)]
      exact ⟨sound, .refl walk, by simpa using met⟩
    · rw [if_neg (mt contains_iff_mem.mp met)]
      refine Reads.finish met sound reach (reads_foldl depth ?_ ?_ ?_ ?_)
      · intro needed edge walk enough sound reach
        exact ih (mem_files_of_edge edge) enough sound reach
      · exact Nat.lt_of_lt_of_le (unmet_cons_lt listed met) (Nat.le_of_lt_succ enough)
      · exact ⟨fun other finished => mem_cons_of_mem _ (sound.met other finished), sound.once,
          sound.follows⟩
      · rintro needed edge other ⟨opened, unfinished⟩
        obtain rfl | opened := mem_cons.mp opened
        · exact .single edge
        · exact .tail (reach other ⟨opened, unfinished⟩) edge

theorem reads_order (graph : DependencyGraph) :
    ∃ walk, walk.order = graph.order ∧ Sound graph walk ∧
      ∀ file ∈ graph.keys, file ∈ walk.order := by
  have enough : graph.unmet {} < graph.length + (graph.flatMap (·.2)).length + 1 := by
    have all : graph.unmet {} ≤ graph.files.length := countP_le_length
    rw [files, length_append, Table.keys, length_map] at all
    omega
  have none : ∀ other, ¬Walk.Open {} other := fun other opened => not_mem_nil opened.1
  have reads : Reads graph {} (graph.keys.foldl (visit graph _) {}) graph.keys :=
    reads_foldl _
      (fun file listed walk enough => reads_visit _ (mem_append_left _ listed) enough)
      enough sound_start fun _ _ other opened => absurd opened (none other)
  refine ⟨_, rfl, reads.sound, ?_⟩
  intro file listed
  by_contra unfinished
  exact none file ((reads.resumes.opened file).mp ⟨reads.all file listed, unfinished⟩)

section Known

variable {known : String → Prop}

theorem known_foldl {visit : Walk → String → Walk} {files : List String}
    (each : ∀ file ∈ files, ∀ walk : Walk, (∀ other ∈ walk.order, known other) →
      ∀ other ∈ (visit walk file).order, known other)
    (before : ∀ other ∈ walk.order, known other) :
    ∀ other ∈ (files.foldl visit walk).order, known other := by
  induction files generalizing walk with
  | nil => exact before
  | cons file files ih =>
    obtain ⟨first, others⟩ := forall_mem_cons.mp each
    exact ih others (first walk before)

variable (edges : ∀ file needed, graph.Edge file needed → known needed)
include edges

theorem known_visit (depth : Nat) (own : known file) (before : ∀ other ∈ walk.order, known other) :
    ∀ other ∈ (visit graph depth walk file).order, known other := by
  induction depth generalizing walk file with
  | zero => exact before
  | succ depth ih =>
    rw [visit]
    split
    · exact before
    · refine forall_mem_append.mpr ⟨?_, forall_mem_singleton.mpr own⟩
      exact known_foldl (fun needed edge walk => ih (edges file needed edge)) before

/-- What holds of the files with an entry and of those that others need holds of all listed. -/
theorem known_order (keys : ∀ file ∈ graph.keys, known file) :
    ∀ file ∈ graph.order, known file :=
  known_foldl (fun file key _ => known_visit edges _ (keys file key)) (by simp)

end Known

theorem precedes_of_edge (edge : graph.Edge file needed)
    (oneWay : ¬TransGen graph.Edge needed file) : [needed, file].Sublist graph.order := by
  obtain ⟨walk, same, sound, all⟩ := graph.reads_order
  obtain ⟨before, after, split⟩ := append_of_mem (all file (mem_keys_of_edge edge))
  have start : before ++ [file] <+: walk.order := ⟨after, by rw [split, append_assoc]; rfl⟩
  have early := (sound.follows before file start needed edge).resolve_right oneWay
  rw [← same, split]
  exact (singleton_sublist.mpr early).append (singleton_sublist.mpr (mem_cons_self ..))

end Schematic.DependencyGraph
