import Mathlib.Logic.Function.Iterate
import Schematic.Proofs.Clock.Source

/-! # How the tick generator divides -/

namespace Schematic.Clock.TickCounter

open Word

/-- The registers after some rising edges of the oscillator. -/
def after (counter : TickCounter) (steps : Nat) : TickCounter :=
  step^[steps] counter

/-- What the counter is loaded with at an edge, before it is cut to the counter width. -/
def load (counter : TickCounter) : Nat :=
  if counter.count = 1 then counter.reload else counter.count - 1

structure Runs (period : Nat) (counter : TickCounter) : Prop where
  wide : period < Nat.pow 2 counter.width
  reload : counter.reload = period
  least : 1 ≤ counter.count
  most : counter.count ≤ period

variable {counter : TickCounter} {period : Nat}

theorem after_succ (counter : TickCounter) (steps : Nat) :
    counter.after (steps + 1) = (counter.after steps).step :=
  Function.iterate_succ_apply' step steps counter

theorem run_succ (counter : TickCounter) (steps : Nat) :
    counter.run (steps + 1) = counter.run steps ++ [(counter.after steps).step] := by
  induction steps generalizing counter with
  | zero => rfl
  | succ steps ih => rw [run, ih, run, List.cons_append, after, after, Function.iterate_succ_apply]

theorem tick_step (counter : TickCounter) : counter.step.tick = true ↔ counter.count = 1 := by
  simp only [step]
  split <;> simp [*]

section

variable (runs : Runs period counter)
include runs

theorem Runs.count_step : counter.step.count = counter.load := by
  have wide := runs.wide
  have most := runs.most
  have least := runs.least
  by_cases last : counter.count = 1
  · simp only [step, load, last, ↓reduceIte, runs.reload]
    exact Nat.mod_eq_of_lt wide
  · simp only [step, load, last, ↓reduceIte]
    rw [Nat.sub_add_comm least, Nat.add_mod_right]
    exact Nat.mod_eq_of_lt (by omega)

theorem Runs.step : Runs period counter.step := by
  have kept : counter.step.width = counter.width ∧ counter.step.reload = counter.reload := by
    simp only [TickCounter.step]
    split <;> exact ⟨rfl, rfl⟩
  have least := runs.least
  have most := runs.most
  refine ⟨kept.1 ▸ runs.wide, kept.2 ▸ runs.reload, ?_, ?_⟩
  · rw [runs.count_step, load, runs.reload]
    split <;> omega
  · rw [runs.count_step, load, runs.reload]
    split <;> omega

theorem Runs.after (steps : Nat) : Runs period (counter.after steps) := by
  induction steps with
  | zero => exact runs
  | succ steps ih => exact after_succ counter steps ▸ ih.step

theorem Runs.count_ticks (steps : Nat) :
    ((counter.run steps).map (·.tick)).count true = (steps + period - counter.count) / period := by
  induction steps generalizing counter with
  | zero =>
    have least := runs.least
    exact (Nat.div_eq_of_lt (by have := runs.most; omega)).symm
  | succ steps ih =>
    have least := runs.least
    have most := runs.most
    rw [run, List.map_cons, List.count_cons, ih runs.step, runs.count_step, load, runs.reload]
    by_cases last : counter.count = 1
    · -- The counter is reloaded, and the tick is the quotient that the reload gives up.
      rw [(tick_step counter).mpr last, if_pos last, last, Nat.add_sub_cancel,
        Nat.add_right_comm, Nat.add_sub_cancel, Nat.add_div_right _ (by omega)]
      rfl
    · have silent : counter.step.tick = false :=
        Bool.eq_false_iff.mpr fun tick => last ((tick_step counter).mp tick)
      have earlier : steps + period - (counter.count - 1) =
          steps + 1 + period - counter.count := by omega
      rw [silent, if_neg last, earlier]
      rfl

end

theorem runs_start {period : Int} (positive : 1 ≤ period) (fitting : fits period = true) :
    Runs period.toNat (start period) := by
  rw [fits_iff] at fitting
  simp only [least, greatest] at fitting
  have word : unsigned period = period.toNat := by
    rw [unsigned, modulus, Int.emod_eq_of_lt (by omega) (by omega)]
  exact ⟨lt_two_pow_counterBits positive, word, Nat.le_refl 1, by show 1 ≤ period.toNat; omega⟩

theorem count_after {period : Int} (positive : 1 ≤ period) (fitting : fits period = true)
    (steps : Nat) : (((start period).after steps).count : Int) = -(steps : Int) % period + 1 := by
  induction steps with
  | zero => exact (by simp : (1 : Int) = -((0 : Nat) : Int) % period + 1)
  | succ steps ih =>
    have runs := (runs_start positive fitting).after steps
    have least := runs.least
    -- The remainder of the edges before this one, seen from the next remainder.
    have next := ClockSource.succ_emod (by omega : 0 < period) (-((steps + 1 : Nat) : Int))
    have back : -((steps + 1 : Nat) : Int) + 1 = -(steps : Int) := by omega
    have below := Int.emod_lt_of_pos (-((steps + 1 : Nat) : Int)) (by omega : 0 < period)
    have nonneg := Int.emod_nonneg (-((steps + 1 : Nat) : Int)) (by omega : period ≠ 0)
    rw [back] at next
    rw [after_succ, runs.count_step, load, runs.reload]
    split at next <;> split <;> omega

/-- The tick generator of a period ticks at the first edge of the oscillator and then once in every
period. -/
theorem ticks_exactly {period : Int} (positive : 1 ≤ period) (fitting : fits period = true)
    (steps : Nat) (dynamicBits : Int) :
    let first := start period
    let before := first.after steps
    let state := before.step
    TickSettings.values ⟨.static, period, dynamicBits⟩ =
        [("NrOfBits", (first.width : Int)), (tickReloadPort, (first.reload : Int))] ∧
      first.run (steps + 1) = first.run steps ++ [state] ∧
      (1 ≤ (before.count : Int) ∧ (before.count : Int) ≤ period) ∧
      state.count = before.load ∧
      (state.tick = true ↔ (steps : Int) % period = 0) ∧
      (state.tick = true → before.count = 1 ∧ (state.count : Int) = period) ∧
      ((before.run period.toNat).map (·.tick)).count true = 1 := by
  have runs := (runs_start positive fitting).after steps
  have least := runs.least
  have most := runs.most
  have count := count_after positive fitting steps
  have reload : ((start period).reload : Int) = period := by
    rw [(runs_start positive fitting).reload]
    omega
  refine ⟨?_, run_succ .., ⟨by omega, by omega⟩, runs.count_step, ?_, ?_, ?_⟩
  · rw [reload]
    rfl
  · rw [tick_step, ← Int.natCast_inj, count, ← Int.dvd_iff_emod_eq_zero, ← Int.dvd_neg,
      Int.dvd_iff_emod_eq_zero]
    omega
  · intro tick
    have last := (tick_step _).mp tick
    refine ⟨last, ?_⟩
    rw [runs.count_step, load, if_pos last, runs.reload]
    omega
  · rw [runs.count_ticks]
    exact Nat.div_eq_of_lt_le (by omega) (by omega)

/-- A period that is a power of two needs one bit more than the largest remainder. -/
theorem ticks_exactly_four :
    let before := (start 4).after 8
    (start 4).width = 3 ∧ before.count = 1 ∧ before.step.tick = true ∧ before.step.count = 4 ∧
      ((before.run 4).map (·.tick)).count true = 1 := by
  obtain ⟨_, _, _, _, tick, ends, once⟩ :=
    ticks_exactly (by decide : (1 : Int) ≤ 4) (by decide) 8 0
  have ticked := tick.mpr (by decide)
  exact ⟨rfl, (ends ticked).1, ticked, Int.natCast_inj.mp (ends ticked).2, once⟩

end Schematic.Clock.TickCounter
