import Schematic.Proofs.Board.Wrapper
import Schematic.Proofs.Circuit.Collision
import Schematic.Run.Basic

/-! # Units of a run

What a run generates, and how it writes it. -/

open List

namespace Schematic

open Hdl

/-- The modules of the clock, if the design has clock trees. -/
def Design.clockUnits (design : Design) (settings : Settings) : List DesignUnit :=
  if design.clockTrees.isEmpty then []
  else
    let tick := design.tickSettings settings.period
    [tick.unit settings.dialect, Clock.ClockSource.unit settings.dialect (tick.mode = .raw)]

namespace Running

variable {α β : Type} {state later : RunState}

/-- What a part of a run gives, and the state that it leaves. -/
def outcome (part : Running α) (state : RunState) : Except Failure α × RunState :=
  (ExceptT.run part).run state

theorem outcome_bind {part : Running α} {next : α → Running β} {value : α}
    (gave : outcome part state = (.ok value, later)) :
    outcome (part >>= next) state = outcome (next value) later := by
  unfold outcome ExceptT.run StateT.run at gave ⊢
  simp only [bind, ExceptT.bind, ExceptT.mk, StateT.bind, gave]
  rfl

theorem exists_of_bind {part : Running α} {next : α → Running β} {result : β}
    (gave : outcome (part >>= next) state = (.ok result, later)) :
    ∃ value between, outcome part state = (.ok value, between) ∧
      outcome (next value) between = (.ok result, later) := by
  unfold outcome ExceptT.run StateT.run at gave ⊢
  simp only [bind, ExceptT.bind, ExceptT.mk, StateT.bind] at gave
  cases ended : part state with
  | mk value between =>
    rw [ended] at gave
    cases value with
    | ok value => exact ⟨value, between, rfl, gave⟩
    | error failure => cases gave

theorem eq_ok_of_ofExcept {part : Except Failure α} {value : α}
    (gave : outcome (ofExcept part) state = (.ok value, later)) : part = .ok value := by
  cases part with
  | error failure => cases gave
  | ok value => cases gave; rfl

theorem yields_of_reporting {part : Reporting α} {value : α}
    (gave : outcome (reporting part) state = (.ok (.ok value), later)) : part.Yields value := by
  refine ⟨state.messages, (Reporting.outcome part state.messages).2, ?_⟩
  exact Prod.ext (Except.ok.inj (Prod.mk.inj gave).1) rfl

/-- The units of a run are those of the circuits, the wrapper unless it failed, and the modules of
the clock. -/
theorem exists_of_generate {design : Design} {settings : Settings} {board : Option Board}
    {units : List DesignUnit} {ports : List PlacedPort}
    (ran : outcome (generate design settings board) state = (.ok (units, ports), later)) :
    ∃ names, ∃ wrapper : Option Wrapper, (design.plan settings).1 = .ok names ∧
      (∀ made ∈ wrapper, (design.wrapper settings names design.layouts
        (design.tickSettings settings.period) board).Yields made) ∧
      units = (design.generate settings names design.layouts []).units ++
        wrapper.toList.map (·.unit) ++ design.clockUnits settings := by
  simp only [generate] at ran
  obtain ⟨_, _, _, ran⟩ := exists_of_bind ran
  obtain ⟨names, _, planned, ran⟩ := exists_of_bind ran
  have planned := mapError_eq_ok.mp (eq_ok_of_ofExcept planned)
  refine ⟨names, ?_⟩
  split at ran
  case h_1 =>
    obtain ⟨_, _, thrown, _⟩ := exists_of_bind ran
    cases thrown
  case h_2 =>
    obtain ⟨_, _, _, ran⟩ := exists_of_bind ran
    obtain ⟨_, _, _, ran⟩ := exists_of_bind ran
    obtain ⟨_, _, _, ran⟩ := exists_of_bind ran
    obtain ⟨wrapped, _, gave, ran⟩ := exists_of_bind ran
    split at ran
    case h_1 wrapper =>
      obtain ⟨_, _, passed, ran⟩ := exists_of_bind ran
      cases passed
      obtain ⟨_, _, _, ran⟩ := exists_of_bind ran
      cases ran
      refine ⟨some wrapper, planned, ?_, rfl⟩
      rintro _ ⟨⟩
      exact yields_of_reporting gave
    case h_2 =>
      obtain ⟨_, _, thrown, _⟩ := exists_of_bind ran
      cases thrown
    case h_3 =>
      obtain ⟨_, _, _, ran⟩ := exists_of_bind ran
      obtain ⟨_, _, passed, ran⟩ := exists_of_bind ran
      cases passed
      obtain ⟨_, _, _, ran⟩ := exists_of_bind ran
      cases ran
      exact ⟨none, planned, nofun, rfl⟩

section

variable {writer : Writer} {unit : DesignUnit} {units : List DesignUnit}

/-- The writer that a run goes on with writes into the tree of the run, behind its messages. -/
def resume (writer : Writer) (state : RunState) : Writer :=
  { writer with tree := state.tree, messages := state.messages }

/-- What the writer did is what becomes of the run. -/
def absorb (state : RunState) (writer : Writer) : RunState :=
  { state with tree := writer.tree, messages := writer.messages }

theorem outcome_writeUnit (untimed : state.timingLog = none) {next : Writer}
    (passed : (resume writer state).writeUnit unit = (next, none)) :
    outcome (writeUnit writer unit) state = (.ok next, absorb state next) := by
  obtain ⟨tree, messages, _, stages⟩ := state
  subst untimed
  generalize attempted : (resume writer ⟨tree, messages, none, stages⟩).writeUnit unit = attempt
    at passed
  have step : outcome (writeUnit writer unit) ⟨tree, messages, none, stages⟩ = (.ok attempt.1,
      ⟨attempt.1.tree, attempt.1.messages ++
        (attempt.2.map fun failure => [Message.ofFailure "" failure]).getD [], none, stages⟩) := by
    rw [← attempted]
    rfl
  rw [step, passed, Option.map_none, Option.getD_none, append_nil]
  rfl

/-- A run that nothing times writes units as a writer does that goes on with its tree. -/
theorem outcome_writeUnits (untimed : state.timingLog = none)
    (passed : ((resume writer state).writeEach units).2 = []) :
    ∃ last, outcome (units.foldlM writeUnit writer) state =
        (.ok last, absorb state ((resume writer state).writeEach units).1) ∧
      last.written = ((resume writer state).writeEach units).1.written ∧
      last.skipped = ((resume writer state).writeEach units).1.skipped := by
  induction units generalizing writer state with
  | nil => exact ⟨writer, rfl, rfl, rfl⟩
  | cons unit units ih =>
    rw [Writer.writeEach_cons] at passed ⊢
    obtain ⟨first, rest⟩ := append_eq_nil_iff.mp passed
    generalize stepped : (resume writer state).writeUnit unit = step at *
    obtain ⟨next, failure⟩ := step
    obtain rfl : failure = none := by simpa using first
    obtain ⟨last, ran, same⟩ := @ih (absorb state next) next untimed rest
    refine ⟨last, ?_, same⟩
    rw [foldlM_cons, outcome_bind (outcome_writeUnit untimed stepped)]
    exact ran

end

theorem exists_of_record {output : String} {dialect : Dialect} {units : List DesignUnit}
    {tables : FactTables}
    (ran : outcome (record output dialect units) state = (.ok tables, later)) :
    ∃ tree files, collectFiles tree output dialect units = .ok files ∧
      tables = .ofSurvey files := by
  obtain ⟨between, _, _, ran⟩ := exists_of_bind ran
  obtain ⟨files, _, collected, ran⟩ := exists_of_bind ran
  refine ⟨between.tree, files, eq_ok_of_ofExcept collected, ?_⟩
  simp only at ran
  split at ran
  case isTrue =>
    obtain ⟨_, _, _, ran⟩ := exists_of_bind ran
    obtain ⟨_, _, _, ran⟩ := exists_of_bind ran
    obtain ⟨_, _, _, ran⟩ := exists_of_bind ran
    cases ran
    rfl
  case isFalse =>
    obtain ⟨_, _, _, ran⟩ := exists_of_bind ran
    obtain ⟨_, _, _, ran⟩ := exists_of_bind ran
    cases ran
    rfl

end Running

/-- A result is about the units that were generated, and about their files in the tree that they
were written into. -/
structure RunResult.Tells (result : RunResult) (settings : Settings) (units : List DesignUnit)
    (files : List SurveyedFile) : Prop where
  generated : ∃ design board start later, Running.outcome
    (Running.generate design settings board) start = (.ok (units, result.ports), later)
  collected : ∃ tree, collectFiles tree result.output settings.dialect units = .ok files
  modules_eq : result.modules = units.map (·.name)
  tables_eq : result.tables = .ofSurvey files
  order_eq : result.compileOrder = result.tables.compileOrder

namespace RunRequest

variable {request : RunRequest} {root : String} {config : Config} {state later : RunState}
  {result : RunResult}

theorem tells_of_perform
    (ran : Running.outcome (request.perform root config) state = (.ok result, later)) :
    ∃ settings units files, result.Tells settings units files := by
  obtain ⟨_, _, _, ran⟩ := Running.exists_of_bind ran
  obtain ⟨_, _, _, ran⟩ := Running.exists_of_bind ran
  obtain ⟨⟨design, settings, board⟩, _, _, ran⟩ := Running.exists_of_bind ran
  obtain ⟨⟨units, ports⟩, _, generated, ran⟩ := Running.exists_of_bind ran
  obtain ⟨writer, _, _, ran⟩ := Running.exists_of_bind ran
  obtain ⟨_, _, _, ran⟩ := Running.exists_of_bind ran
  obtain ⟨tables, _, recorded, ran⟩ := Running.exists_of_bind ran
  obtain ⟨violations, _, _, ran⟩ := Running.exists_of_bind ran
  obtain ⟨_, _, _, ran⟩ := Running.exists_of_bind ran
  obtain ⟨summary, _, _, ran⟩ := Running.exists_of_bind ran
  cases ran
  obtain ⟨tree, files, collected, rfl⟩ := Running.exists_of_record recorded
  exact ⟨settings, units, files, ⟨_, _, _, _, generated⟩, ⟨tree, collected⟩, rfl, rfl, rfl⟩

/-- A run that gives a result has written the units that it generated. -/
theorem tells_of_run {tree last : FileTree} (ran : request.run tree = (.ok result, last)) :
    ∃ settings units files, result.Tells settings units files := by
  have ended : Running.outcome request.running { tree } =
      (.ok result, (Running.outcome request.running { tree }).2) :=
    Prod.ext (Prod.mk.inj ran).1 rfl
  generalize (Running.outcome request.running { tree }).2 = later at ended
  simp only [running] at ended
  split at ended
  case h_1 =>
    obtain ⟨config, _, _, performed⟩ := Running.exists_of_bind ended
    exact tells_of_perform performed
  case h_2 =>
    obtain ⟨_, _, _, ended⟩ := Running.exists_of_bind ended
    obtain ⟨config, _, _, performed⟩ := Running.exists_of_bind ended
    exact tells_of_perform performed

end RunRequest

end Schematic
