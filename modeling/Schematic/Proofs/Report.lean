import Schematic.Circuit.Wiring

/-! # Reporting computations step by step -/

namespace Schematic

theorem exists_ok_of_any {ε α : Type} {given : Except ε α} {holds : α → Bool}
    (gives : given.toOption.any holds = true) :
    ∃ value, given = .ok value ∧ holds value = true := by
  cases given with
  | error failure => cases gives
  | ok value => exact ⟨value, rfl, gives⟩

namespace Reporting

variable {earlier later : List Message} {α β : Type}

theorem outcome_bind (computation : Reporting α) (next : α → Reporting β) (earlier : List Message) :
    outcome (computation >>= next) earlier = match outcome computation earlier with
      | (.ok value, later) => outcome (next value) later
      | (.error failure, later) => (.error failure, later) := by
  simp only [outcome, ExceptT.run_bind, StateT.run_bind]
  cases StateT.run (ExceptT.run computation) earlier with
  | mk result later => cases result <;> rfl

theorem exists_of_bind {computation : Reporting α} {next : α → Reporting β} {result : β}
    (succeeded : outcome (computation >>= next) earlier = (.ok result, later)) :
    ∃ value between, outcome computation earlier = (.ok value, between) ∧
      outcome (next value) between = (.ok result, later) := by
  rw [outcome_bind] at succeeded
  split at succeeded
  case h_1 value between first => exact ⟨value, between, first, succeeded⟩
  case h_2 => cases succeeded

theorem exists_of_mem_concat {step : α → Reporting (List β)} {items : List α} {results : List β}
    (succeeded : outcome (concat step items) earlier = (.ok results, later)) {result : β}
    (member : result ∈ results) :
    ∃ item ∈ items, ∃ before part after, outcome (step item) before = (.ok part, after) ∧
      result ∈ part := by
  induction items generalizing results earlier with
  | nil =>
    cases succeeded
    cases member
  | cons item items ih =>
    simp only [concat] at succeeded
    obtain ⟨first, between, firstSucceeded, succeeded⟩ := exists_of_bind succeeded
    obtain ⟨others, last, othersSucceeded, succeeded⟩ := exists_of_bind succeeded
    cases succeeded
    obtain here | there := List.mem_append.mp member
    · exact ⟨item, List.mem_cons_self .., earlier, first, between, firstSucceeded, here⟩
    · obtain ⟨other, listed, found⟩ := ih othersSucceeded there
      exact ⟨other, List.mem_cons_of_mem _ listed, found⟩

theorem outcome_of_tryCatch {computation : Reporting α} {amend : Failure → Failure} {result : α}
    (succeeded : outcome (tryCatch computation fun failure => throw (amend failure)) earlier =
      (.ok result, later)) : outcome computation earlier = (.ok result, later) := by
  unfold outcome ExceptT.run StateT.run at succeeded ⊢
  simp only [tryCatch, tryCatchThe, MonadExceptOf.tryCatch, ExceptT.tryCatch, ExceptT.mk, bind,
    StateT.bind] at succeeded
  cases ended : computation earlier with
  | mk value between =>
    rw [ended] at succeeded
    cases value with
    | ok value => exact succeeded
    | error failure => cases succeeded

theorem outcome_tryCatch {computation : Reporting α} {handler : Failure → Reporting α} {result : α}
    (succeeded : outcome computation earlier = (.ok result, later)) :
    outcome (tryCatch computation handler) earlier = (.ok result, later) := by
  unfold outcome ExceptT.run StateT.run at succeeded ⊢
  simp only [tryCatch, tryCatchThe, MonadExceptOf.tryCatch, ExceptT.tryCatch, ExceptT.mk, bind,
    StateT.bind, succeeded]
  rfl

/-- A property of computations that their composition keeps. -/
structure Composes (holds : {α : Type} → Reporting α → Prop) : Prop where
  pure : ∀ {α : Type} (value : α), holds (pure value)
  bind : ∀ {α β : Type} {computation : Reporting α} {next : α → Reporting β},
    holds computation → (∀ value, holds (next value)) → holds (computation >>= next)

namespace Composes

variable {holds : {α : Type} → Reporting α → Prop} (composes : Composes holds)
include composes

theorem concat {step : α → Reporting (List β)} {items : List α}
    (each : ∀ item ∈ items, holds (step item)) : holds (concat step items) := by
  induction items with
  | nil => exact composes.pure _
  | cons item items ih =>
    obtain ⟨first, others⟩ := List.forall_mem_cons.mp each
    exact composes.bind first fun _ => composes.bind (ih others) fun _ => composes.pure _

theorem mapM {step : α → Reporting β} {items : List α}
    (each : ∀ item ∈ items, holds (step item)) : holds (items.mapM step) := by
  induction items with
  | nil => exact composes.pure _
  | cons item items ih =>
    obtain ⟨first, others⟩ := List.forall_mem_cons.mp each
    rw [List.mapM_cons]
    exact composes.bind first fun _ => composes.bind (ih others) fun _ => composes.pure _

theorem forM {step : α → Reporting PUnit} {items : List α}
    (each : ∀ item ∈ items, holds (step item)) : holds (items.forM step) := by
  induction items with
  | nil => exact composes.pure _
  | cons item items ih =>
    obtain ⟨first, others⟩ := List.forall_mem_cons.mp each
    exact composes.bind first fun _ => ih others

end Composes

end Reporting

end Schematic
