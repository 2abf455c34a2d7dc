import Mathlib.Data.Finset.Card
import Schematic.Proofs.Circuit.Body
import Schematic.Proofs.Circuit.Coverage

/-! # Generating a design -/

open List

namespace Schematic

open Hdl

theorem nodup_eraseDups (names : List String) : names.eraseDups.Nodup := by
  induction size : names.length using Nat.strongRecOn generalizing names with
  | ind bound ih =>
    cases names with
    | nil => exact nodup_nil
    | cons name names =>
      rw [eraseDups_cons, nodup_cons]
      constructor
      · simp [mem_eraseDups]
      · refine ih _ ?_ _ rfl
        rw [← size, length_cons]
        exact Nat.lt_succ_of_le (length_filter_le ..)

namespace Design

variable {module : String} {outcome : Except Failure DesignUnit} {circuit : Circuit}
  {design : Design} {settings target : Settings} {names : Names} {layouts : Layouts}
variable {planning : Planning}

theorem Makes.given (consistent : planning.Consistent design settings)
    (made : design.Makes target planning.names layouts module outcome) :
    ∃ signature, (signature, module) ∈ planning.registry.claims := by
  cases made with
  | circuit _ planned => exact ⟨_, consistent.circuits _ (mem_of_lookup planned)⟩
  | blackBox _ planned => exact ⟨_, consistent.circuits _ (mem_of_lookup planned)⟩
  | component _ _ _ _ _ named =>
    obtain ⟨_, _, _, _, _, claimed⟩ := consistent.modules _ (mem_of_lookup named)
    exact ⟨_, claimed.given⟩

/-- The modules that a planned design needs: those of the reached circuits, and those of the
components of reached circuits that are not written elsewhere. -/
inductive Needs (design : Design) (names : Names) : String → Prop where
  | circuit {circuit : Circuit} {module : String} (reached : design.Reaches names circuit)
      (planned : names.circuit? circuit.name = some module) : Needs design names module
  | component {circuit : Circuit} {component : Component} {module : String}
      (reached : design.Reaches names circuit) (plain : circuit.blackBox = none)
      (present : component ∈ circuit.components) (ordinary : component.kind.isSpecial = false)
      (named : names.module? circuit.name component.id = some module) : Needs design names module

theorem Makes.needs
    (made : design.Makes settings names layouts module outcome) : design.Needs names module := by
  cases made with
  | circuit reached planned => exact .circuit reached planned
  | blackBox reached planned => exact .circuit reached planned
  | component reached _ plain present ordinary named =>
    exact .component reached plain present ordinary named

theorem exists_home (consistent : planning.Consistent design settings) {circuit : String}
    {id : Int} (named : planning.names.module? circuit id = some module) :
    ∃ home, planning.names.circuit? circuit = some home := by
  obtain ⟨home, listed⟩ := consistent.homes _ (mem_of_lookup named)
  cases found : planning.names.circuit? circuit with
  | some home => exact ⟨home, rfl⟩
  | none => simpa using lookup_eq_none_iff.mp found _ listed

theorem accounts_generate (design : Design) (settings : Settings) (names : Names)
    (layouts : Layouts) (start : List String) :
    Output.Accounts (design.Makes settings names layouts) start.eraseDups
      (design.generate settings names layouts start) := by
  have begun : Output.Accounts (design.Makes settings names layouts) start.eraseDups
      { written := start.eraseDups } := .empty (nodup_eraseDups start)
  simp only [generate]
  split
  case h_1 top root => exact Output.accounts_visit _ begun (.top root)
  case h_2 => exact begun

theorem nodup_lower_units (consistent : planning.Consistent design settings)
    {start : List String} {output : Output}
    (accounts : Output.Accounts (design.Makes settings planning.names layouts) start output) :
    (output.units.map fun unit => Text.lower unit.name).Nodup := by
  have given : ∀ name ∈ output.units.map (·.name),
      ∃ signature, (signature, name) ∈ planning.registry.claims := by
    intro name member
    obtain ⟨unit, listed, rfl⟩ := mem_map.mp member
    exact (accounts.units unit listed).1.given consistent
  have lowered : ((output.units.map (·.name)).map Text.lower).Nodup := by
    refine List.Nodup.map_on ?_ accounts.unitNames
    intro first firstMember second secondMember same
    obtain ⟨signature, firstGiven⟩ := given first firstMember
    obtain ⟨other, secondGiven⟩ := given second secondMember
    exact congrArg Prod.snd (consistent.sound.signature_unique firstGiven secondGiven same)
  rwa [map_map] at lowered

theorem Reaches.exists_top (reached : design.Reaches names circuit) :
    ∃ top, design.topCircuit? = some top := by
  induction reached with
  | top root => exact ⟨_, root⟩
  | inner _ _ _ _ ih => exact ih

theorem completes_generate (separate : names.Separate design) (settings : Settings)
    (layouts : Layouts) {top : Circuit} (root : design.topCircuit? = some top) :
    design.Completes names [] (design.generate settings names layouts []).written ∧
      ∀ module, names.circuit? top.name = some module →
        module ∈ (design.generate settings names layouts []).written := by
  have enough : design.pending names [] < design.circuits.length + 1 :=
    Nat.lt_succ_of_le countP_le_length
  simp only [generate, root]
  exact Output.completes_visit separate _ { written := [] } (.top root) enough

theorem covers_generate (separate : names.Separate design) (settings : Settings)
    (layouts : Layouts) (reached : design.Reaches names circuit)
    (planned : names.circuit? circuit.name = some module) :
    module ∈ (design.generate settings names layouts []).written ∧ (circuit.blackBox = none →
        design.Covered names (design.generate settings names layouts []).written circuit) := by
  obtain ⟨top, root⟩ := reached.exists_top
  obtain ⟨complete, topWritten⟩ := completes_generate separate settings layouts root
  have covered : ∀ {circuit : Circuit} {module : String}, design.Reaches names circuit →
      names.circuit? circuit.name = some module →
      module ∈ (design.generate settings names layouts []).written →
      circuit.blackBox = none →
      design.Covered names (design.generate settings names layouts []).written circuit :=
    fun reached planned written plain =>
      complete.covered _ reached.mem _ planned not_mem_nil written plain
  -- Along the way from the top: a written circuit is covered, so the circuits inside are written.
  have written : module ∈ (design.generate settings names layouts []).written := by
    induction reached generalizing module with
    | top other =>
      rw [root] at other
      cases other
      exact topWritten module planned
    | inner above outerPlanned plain inside ih =>
      exact (covered above outerPlanned (ih outerPlanned) plain).circuits _ inside module planned
  exact ⟨written, covered reached planned written⟩

theorem mem_written_generate_iff (consistent : planning.Consistent design settings)
    (separate : planning.names.Separate design) (layouts : Layouts) (module : String) :
    module ∈ (design.generate settings planning.names layouts []).written ↔
      design.Needs planning.names module := by
  constructor
  · intro written
    obtain early | ⟨outcome, made⟩ :=
      (accounts_generate design settings planning.names layouts []).made module written
    · cases early
    · exact made.needs
  · intro needed
    cases needed with
    | circuit reached planned =>
      exact (covers_generate separate settings layouts reached planned).1
    | component reached plain present ordinary named =>
      obtain ⟨home, planned⟩ := exists_home consistent named
      exact ((covers_generate separate settings layouts reached planned).2 plain).components _
        present ordinary module named

theorem needs_of_instantiate (reached : design.Reaches names circuit)
    {home : String} (planned : names.circuit? circuit.name = some home)
    (plain : circuit.blackBox = none) {before after : List Message}
    {sections : List BodySection} {fragments : List Fragment}
    (wired : Reporting.outcome (design.wiring settings names layouts circuit home).sections before =
      (.ok (sections, fragments), after))
    {part : BodySection} (listed : part ∈ sections) {use : Instance}
    (stated : .instantiate use ∈ part.statements) : design.Needs names use.target := by
  obtain ⟨component, present, ordinary, named⟩ | ⟨inner, inside, named⟩ :=
    WiringContext.isTarget_of_instantiate ⟨_, _, wired⟩ listed stated
  · exact .component reached plain present ordinary named
  · exact .circuit (.inner reached planned plain inside) named

end Design

/-- **Every module is generated once.** A walk over a planned design makes units with names that
differ also if case is ignored and that were not written before. What was written stays written,
and every further name has one unit or one failure. A walk that finds nothing written writes
exactly the modules that the design needs, among them all that the circuits on the way
instantiate. -/
theorem Design.generate_once {draft : Draft} {design : Design} {settings : Settings}
    {names : Names} (checked : draft.check = .ok design)
    (planned : (design.plan settings).1 = .ok names) (layouts : Layouts) (start : List String) :
    let output := design.generate settings names layouts start
    let whole := design.generate settings names layouts []
    (output.units.map fun unit => Text.lower unit.name).Nodup ∧
      (∀ unit ∈ output.units, unit.name ∉ start) ∧
      (∀ module ∈ start, module ∈ output.written) ∧
      output.units.length + output.failures.length + start.toFinset.card =
        output.written.toFinset.card ∧
      (∀ module, module ∈ whole.written ↔ design.Needs names module) ∧
      ∀ circuit home, design.Reaches names circuit → names.circuit? circuit.name = some home →
        circuit.blackBox = none → ∀ before sections fragments after,
        Reporting.outcome (design.wiring settings names layouts circuit home).sections before =
          (.ok (sections, fragments), after) →
        ∀ part ∈ sections, ∀ use, .instantiate use ∈ part.statements →
        use.target ∈ whole.written := by
  intro output whole
  obtain ⟨planning, rfl, consistent⟩ := exists_planning planned
  have separate := consistent.separate (Draft.indexed_of_check checked)
  have accounts := accounts_generate design settings planning.names layouts start
  have needed := mem_written_generate_iff consistent separate layouts
  refine ⟨nodup_lower_units consistent accounts, ?_, ?_, ?_, needed, ?_⟩
  · intro unit member written
    exact (accounts.units unit member).2.1 (List.mem_eraseDups.mpr written)
  · intro module written
    exact accounts.kept module (List.mem_eraseDups.mpr written)
  · have distinct : start.toFinset = start.eraseDups.toFinset := by
      ext name
      simp only [List.mem_toFinset, List.mem_eraseDups]
    rw [distinct, List.toFinset_card_of_nodup accounts.nodup,
      List.toFinset_card_of_nodup (nodup_eraseDups start), ← accounts.count]
  · intro circuit home reached planned plain before sections fragments after wired part listed use
      stated
    exact (needed _).mpr (needs_of_instantiate reached planned plain wired listed stated)

/-- Two instances of one circuit and one that is written elsewhere, with a component whose module is
written already: the circuit is made once, and the missing file is counted as a failure. -/
theorem Design.generate_once_shared :
    let gate (id : Int) : Component := ⟨id, .and, [], [], ""⟩
    let use (id : Int) (name : String) : Component := ⟨id, .subcircuit, [], [], name⟩
    let inner : Circuit := ⟨"inner", [], [gate 1], none⟩
    let box : Circuit := ⟨"box", [], [], some ⟨"box.vhd", ""⟩⟩
    let main : Circuit :=
      ⟨"main", [], [use 1 "inner", use 2 "inner", use 3 "box", gate 4], none⟩
    let design : Design := ⟨"d", "main", [main, inner, box], []⟩
    ∃ names, (design.plan {}).1 = .ok names ∧
      let output := design.generate {} names {} ["AND_GATE"]
      let whole := design.generate {} names {} []
      (output.units.map fun unit => Text.lower unit.name).Nodup ∧
        (∀ unit ∈ output.units, unit.name ∉ ["AND_GATE"]) ∧
        output.units.length + output.failures.length + 1 = output.written.toFinset.card ∧
        (∀ module, module ∈ whole.written ↔ design.Needs names module) ∧
        "inner" ∈ whole.written := by
  intro gate use inner box main design
  have checked : Draft.check ⟨"d", "main",
      [some ⟨"main", [], [some (use 1 "inner"), some (use 2 "inner"), some (use 3 "box"),
          some (gate 4)], none⟩,
        some ⟨"inner", [], [some (gate 1)], none⟩,
        some ⟨"box", [], [], some ⟨"box.vhd", ""⟩⟩], []⟩ = .ok design := by rfl
  have home : (design.plan {}).1.toOption.bind (·.circuit? "main") = some "main" := by
    decide +kernel
  have body : (design.plan {}).1.toOption.any (fun names =>
      match Reporting.outcome (design.wiring {} names {} main "main").sections [] with
      | (.ok (sections, _), _) => sections.any fun part => part.statements.any fun
        | .instantiate use => use.target == "inner"
        | _ => false
      | _ => false) = true := by decide +kernel
  cases planned : (design.plan {}).1 with
  | error failure => rw [planned] at home; cases home
  | ok names =>
    rw [planned] at home body
    refine ⟨names, rfl, ?_⟩
    obtain ⟨distinct, fresh, _, count, needed, instances⟩ :=
      generate_once checked planned {} ["AND_GATE"]
    refine ⟨distinct, fresh, count, needed, ?_⟩
    simp only [Except.toOption, Option.any_some] at body
    split at body
    case h_2 => cases body
    case h_1 sections fragments after wired =>
      obtain ⟨part, listed, body⟩ := List.any_eq_true.mp body
      obtain ⟨statement, stated, body⟩ := List.any_eq_true.mp body
      split at body
      case h_2 => cases body
      case h_1 use =>
        rw [← eq_of_beq body]
        exact instances main "main" (.top rfl) home rfl [] sections fragments after wired part
          listed use stated

end Schematic
