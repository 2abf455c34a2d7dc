import Schematic.Proofs.Circuit.Generation
import Schematic.Proofs.File.Writer

/-! # Files of generated modules -/

open List

namespace Schematic

open Hdl

variable {contents : List Nat} {depth : Int} {lanes : Nat} {module : String} {vendor : Vendor}
  {attachments : List Attachment}

theorem MemoryContents.length_dealt {width : Int}
    {words : List (List Nat)} (deal : dealt contents depth lanes width = .ok words) :
    words.length = lanes := by
  simp only [dealt, bind, Except.bind, pure, Except.pure] at deal
  split at deal
  case h_1 => cases deal
  case h_2 count stored =>
    have same : count = lanes := by
      simp only [storable] at stored
      split at stored
      · cases stored
      · exact (Except.ok.inj stored).symm.trans (Int.toNat_natCast lanes)
    split at deal
    case isTrue none =>
      cases deal
      rw [length_nil, ← same, none]
    case isFalse =>
      split at deal
      · cases deal
      · rw [← (forall₂_of_mapM deal).length_eq, length_range, same]

theorem MemoryContents.names_files {width : Nat}
    (made : files contents module depth lanes width vendor = .ok attachments) :
    attachments.map (·.name) = (List.range attachments.length).map fun lane =>
        fileName module lane attachments.length vendor := by
  simp only [files, bind, Except.bind] at made
  split at made
  case h_1 => cases made
  case h_2 words deal =>
    have count : words.length = lanes := length_dealt deal
    cases made
    rw [map_map, length_map, length_zipIdx, count]
    calc
      _ = (words.zipIdx.map Prod.snd).map fun lane => fileName module lane lanes vendor := by
        rw [map_map]
        rfl
      _ = _ := by rw [zipIdx_map_snd, range_eq_range', count]

theorem Component.names_attachments {component : Component} {variant : Variant}
    (made : component.attachments variant vendor module = .ok attachments) :
    (attachments.map (·.name) = (List.range attachments.length).map fun lane =>
          MemoryContents.fileName module lane attachments.length vendor) ∧
      (attachments ≠ [] → variant.category = "memory") := by
  simp only [Component.attachments, Bind.bind, Except.bind] at made
  split at made
  case h_1 addressBits dataBits lanes =>
    split at made
    case h_1 => cases made
    case h_2 contents _ =>
      cases stored : MemoryContents.files contents module (Variant.memoryDepth addressBits)
          lanes dataBits vendor with
      | error reason => rw [stored] at made; cases made
      | ok files =>
        rw [stored] at made
        cases made
        exact ⟨MemoryContents.names_files stored, fun _ => rfl⟩
  case h_2 =>
    cases made
    exact ⟨rfl, fun some => absurd rfl some⟩

namespace Hdl.DesignUnit

variable {name category : String} (named : Naming.IsIdentifier name)
  (placed : Path.IsName category) (dialect : Dialect) (vendor : Vendor)

theorem write_entity_ne_nil (name category : String) (interface : Interface)
    (components : List (List String)) (body notes : List String) :
    (write .vhdl name category interface components body notes).entity ≠ [] := by
  have ending : Lines.ofText ("end entity " ++ name ++ ";") ≠ [] := by
    simp [Lines.ofText, Text.lines, Text.splitAt, Text.splitList_ne_nil]
  simp [write, entityLines, ending]

include named placed

theorem regular_verbatim (text : String) :
    Regular { name, category, verbatim := some text } dialect vendor where
  named := named
  placed := placed
  divided _ wrong := nomatch wrong
  attached := rfl
  memory some := absurd rfl some

theorem regular_write (interface : Interface) (components : List (List String))
    (body notes : List String) {attachments : List Attachment}
    (attached : attachments.map (·.name) = (List.range attachments.length).map fun lane =>
      MemoryContents.fileName name lane attachments.length vendor)
    (memory : attachments ≠ [] → category = "memory") :
    Regular { write dialect name category interface components body notes with attachments }
      dialect vendor where
  named := (write_name dialect name category interface components body notes).symm ▸ named
  placed := (write_category dialect name category interface components body notes).symm ▸ placed
  divided spoken _ := by
    subst spoken
    exact write_entity_ne_nil name category interface components body notes
  attached := by
    rw [write_name]
    exact attached
  memory some := by
    rw [write_category]
    exact memory some

end Hdl.DesignUnit

namespace Design

variable {design : Design} {settings : Settings} {layouts : Layouts} {planning : Planning}

theorem isName_category : ∀ category ∈ circuitCategory :: Variant.categories,
    Path.IsName category := by
  have plain : ∀ category ∈ circuitCategory :: Variant.categories, category ≠ "" ∧
      category ≠ "." ∧ '/' ∉ category.toList ∧ category ≠ ".." := by decide
  intro category member
  obtain ⟨nonempty, elsewhere, free, down⟩ := plain category member
  exact ⟨⟨nonempty, elsewhere, free⟩, down⟩

theorem Makes.regular (consistent : planning.Consistent design settings) {module : String}
    {outcome : Except Failure DesignUnit}
    (made : design.Makes settings planning.names layouts module outcome) {unit : DesignUnit}
    (succeeded : outcome = .ok unit) : unit.Regular settings.dialect settings.vendor := by
  obtain ⟨signature, given⟩ := made.given consistent
  have named := consistent.identifiers _ given
  have circuits := isName_category circuitCategory (mem_cons_self ..)
  cases made with
  | circuit reached planned plain earlier =>
    obtain ⟨_, _, _, _, _, form⟩ :=
      WiringContext.exists_sections (Prod.ext succeeded rfl)
    have bare : { unit with attachments := [] } = unit := by
      rw [form]
      cases settings.dialect <;> rfl
    rw [← bare, form]
    exact DesignUnit.regular_write named circuits settings.dialect settings.vendor _ _ _ _ rfl
      (absurd rfl)
  | blackBox reached planned boxed =>
    obtain ⟨text, rfl⟩ := BlackBox.exists_text succeeded
    exact DesignUnit.regular_verbatim named circuits settings.dialect settings.vendor text
  | component reached planned plain present ordinary known =>
    obtain ⟨variant, _, ⟨ports, text, _, rfl⟩ |
      ⟨attachments, interface, body, notes, attached, rfl⟩⟩ := Component.exists_of_unit succeeded
    all_goals
      have placed := isName_category variant.category
        (mem_cons_of_mem _ variant.category_mem)
    · exact DesignUnit.regular_verbatim named placed settings.dialect settings.vendor text
    · obtain ⟨names, memory⟩ := Component.names_attachments attached
      exact DesignUnit.regular_write named placed settings.dialect settings.vendor interface []
        body notes names memory

end Design

/-- **When generated files collide.** Two generated modules have a file in common exactly if one of
them is called as a file of the other. If no module is, writing all of them into a tree without
entries leaves none out. -/
theorem Design.generate_targets_iff {design : Design} {settings : Settings} {names : Names}
    (planned : (design.plan settings).1 = .ok names) (layouts : Layouts) (root : String) :
    let units := (design.generate settings names layouts []).units
    (∀ first ∈ units, ∀ second ∈ units, first ≠ second →
        ((∃ path, path ∈ first.targets root settings.dialect ∧
            path ∈ second.targets root settings.dialect) ↔
          first.Clashes settings.dialect second ∨ second.Clashes settings.dialect first)) ∧
      ((∀ first ∈ units, ∀ second ∈ units, ¬first.Clashes settings.dialect second) →
        ∀ tree : FileTree, tree.entries = [] →
          (Writer.writeEach { root, dialect := settings.dialect, tree } units).1.skipped = []) := by
  intro units
  obtain ⟨planning, rfl, consistent⟩ := exists_planning planned
  have accounts := accounts_generate design settings planning.names layouts []
  have regular : ∀ unit ∈ units, unit.Regular settings.dialect settings.vendor :=
    fun unit member => (accounts.units unit member).1.regular consistent rfl
  have apart : ∀ first ∈ units, ∀ second ∈ units, first ≠ second →
      ((∃ path, path ∈ first.targets root settings.dialect ∧
          path ∈ second.targets root settings.dialect) ↔
        first.Clashes settings.dialect second ∨ second.Clashes settings.dialect first) := by
    intro first firstMember second secondMember differ
    refine DesignUnit.Regular.clashes_iff (regular first firstMember)
      (regular second secondMember) ?_ root
    exact fun same => differ
      (List.inj_on_of_nodup_map accounts.unitNames firstMember secondMember same)
  refine ⟨apart, ?_⟩
  intro peaceful tree empty
  have start : Writer.Tidy root settings.dialect settings.vendor []
      { root, dialect := settings.dialect, tree } :=
    ⟨rfl, rfl, rfl, fun place content found => by rw [empty] at found; cases found⟩
  refine (start.writeEach regular ?_).skipped
  refine (List.Nodup.of_map _ accounts.unitNames).imp_of_mem ?_
  intro first second firstMember secondMember differ shared
  obtain clash | clash := (apart first firstMember second secondMember differ).mp shared
  · exact peaceful first firstMember second secondMember clash
  · exact peaceful second secondMember first firstMember clash

/-- A memory with two lanes and one with another label have no file in common. -/
theorem Design.generate_targets_apart :
    let memory (id : Int) (label lines : String) : Component :=
      ⟨id, .rom, [("label", label), ("lines", lines)], [], ""⟩
    let design : Design :=
      ⟨"d", "main", [⟨"main", [], [memory 1 "a" "2", memory 2 "b" "1"], none⟩], []⟩
    ∃ names, (design.plan {}).1 = .ok names ∧
      let units := (design.generate {} names {} []).units
      units.map (·.name) = ["main_ROM_a", "main_ROM_b"] ∧
        (∀ first ∈ units, ∀ second ∈ units, first ≠ second →
          ¬∃ path, path ∈ first.targets "out" .vhdl ∧ path ∈ second.targets "out" .vhdl) ∧
        (Writer.writeEach { root := "out", dialect := .vhdl, tree := {} } units).1.skipped = []
        := by
  intro memory design
  have made : (design.plan {}).1.toOption.map (fun names =>
      (design.generate {} names {} []).units.map (·.name)) =
        some ["main_ROM_a", "main_ROM_b"] := by decide +kernel
  have peaceful : (design.plan {}).1.toOption.all (fun names =>
      let units := (design.generate {} names {} []).units
      units.all fun first => units.all fun second => !decide (first.Clashes .vhdl second)) =
        true := by decide +kernel
  cases planned : (design.plan {}).1 with
  | error failure => rw [planned] at made; cases made
  | ok names =>
    rw [planned] at made peaceful
    refine ⟨names, rfl, Option.some.inj made, ?_⟩
    simp only [Except.toOption, Option.all_some, List.all_eq_true, Bool.not_eq_true',
      decide_eq_false_iff_not] at peaceful
    obtain ⟨shared, written⟩ := generate_targets_iff planned {} "out"
    refine ⟨?_, written peaceful {} rfl⟩
    intro first firstMember second secondMember differ common
    obtain clash | clash := (shared first firstMember second secondMember differ).mp common
    · exact peaceful first firstMember second secondMember clash
    · exact peaceful second secondMember first firstMember clash

/-- A memory is called as the second lane of another one: the modules differ, but both have the file
of that lane. -/
theorem Design.generate_targets_collide :
    let pin : Component := ⟨0, .pin, [("label", "A")], [⟨"A", false, [⟨0, 0⟩]⟩], ""⟩
    let memory (id : Int) (attributes : Attributes) : Component :=
      ⟨id, .rom, attributes, [⟨"Address", false, [⟨0, 0⟩]⟩], ""⟩
    let first := memory 1 [("label", "a"), ("lines", "2")]
    let second := memory 2 [("label", "a_1")]
    let net : Net := ⟨0, 1, false, [], [], none⟩
    let design : Design := ⟨"d", "main", [⟨"main", [net], [pin, first, second], none⟩], []⟩
    Draft.check ⟨"d", "main",
        [some ⟨"main", [net], [some pin, some first, some second], none⟩], []⟩ = .ok design ∧
      (design.plan {}).1.toOption.map (fun names =>
        (design.generate {} names {} []).units.map fun unit =>
          (unit.name, unit.targets "out" .vhdl)) =
        some [
          ("main", ["out/vhdl/circuit/main_entity.vhd", "out/vhdl/circuit/main_behavior.vhd"]),
          ("main_ROM_a", ["out/vhdl/memory/main_ROM_a_entity.vhd",
            "out/vhdl/memory/main_ROM_a_behavior.vhd", "out/vhdl/memory/main_ROM_a_0.mem",
            "out/vhdl/memory/main_ROM_a_1.mem"]),
          ("main_ROM_a_1", ["out/vhdl/memory/main_ROM_a_1_entity.vhd",
            "out/vhdl/memory/main_ROM_a_1_behavior.vhd", "out/vhdl/memory/main_ROM_a_1.mem"])] :=
  ⟨rfl, by decide +kernel⟩

end Schematic
