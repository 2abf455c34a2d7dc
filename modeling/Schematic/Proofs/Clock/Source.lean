import Mathlib.Data.Int.ModEq
import Schematic.Clock.Source

/-! # How a clock source divides -/

namespace Schematic.Clock

open Word

theorem lt_two_pow_counterBits {n : Int} (positive : 1 ≤ n) :
    n.toNat < Nat.pow 2 (counterBits n) := by
  have nonzero : n.toNat ≠ 0 := by omega
  rw [counterBits, if_neg (by omega), bitLength, if_neg nonzero]
  exact Nat.lt_log2_self

namespace ClockSource

/-- A clock that is high and low for some ticks each, in numbers that words hold. -/
structure Valid (source : ClockSource) : Prop where
  high : 1 ≤ source.highTicks
  low : 1 ≤ source.lowTicks
  phase : 0 ≤ source.phase
  highFits : fits source.highTicks = true
  lowFits : fits source.lowTicks = true
  phaseFits : fits source.phase = true

def period (source : ClockSource) : Int :=
  source.highTicks + source.lowTicks

def elapsed (source : ClockSource) (count : Int) : Int :=
  count - source.phase - 1

def IsHigh (source : ClockSource) (count : Int) : Prop :=
  source.phase + 1 ≤ count ∧ source.elapsed count % source.period < source.highTicks

instance (source : ClockSource) (count : Int) : Decidable (source.IsHigh count) :=
  inferInstanceAs (Decidable (_ ∧ _))

def remaining (source : ClockSource) (count : Int) : Int :=
  if count ≤ source.phase then source.phase - count
  else if source.elapsed count % source.period < source.highTicks then
    source.highTicks - 1 - source.elapsed count % source.period
  else source.period - 1 - source.elapsed count % source.period

/-- What the counter is loaded with at a tick, before it is cut to the counter width. -/
def load (source : ClockSource) (state : SourceState) : Int :=
  if state.counter ≠ 0 then state.counter - 1
  else if state.derived then source.lowTicks - 1
  else source.highTicks - 1

/-- The registers after some rising edges of the oscillator. -/
def after (source : ClockSource) (ticks : List Bool) : SourceState :=
  ticks.foldl source.step source.start

variable {source : ClockSource} {state : SourceState}

section

variable (source : ClockSource) (state : SourceState)

theorem step_false :
    source.step state false = { state with positive := false, negative := false } := rfl

theorem step_true :
    source.step state true =
      { counter := source.cut (source.load state)
        derived := if state.counter = 0 then !state.derived else state.derived
        positive := decide (state.counter = 0) && !state.derived
        negative := decide (state.counter = 0) && state.derived } := by
  obtain ⟨counter, derived, _, _⟩ := state
  cases counter <;> cases derived <;> rfl

theorem run_append_singleton (ticks : List Bool) (tick : Bool) :
    source.run state (ticks ++ [tick]) =
      source.run state ticks ++ [source.step (ticks.foldl source.step state) tick] := by
  induction ticks generalizing state with
  | nil => rfl
  | cons first ticks ih => simp only [List.cons_append, run, List.foldl_cons, ih]

end

theorem after_append_singleton (source : ClockSource) (ticks : List Bool) (tick : Bool) :
    source.after (ticks ++ [tick]) = source.step (source.after ticks) tick :=
  List.foldl_append ..

theorem succ_emod {divisor : Int} (positive : 0 < divisor) (n : Int) :
    (n + 1) % divisor = if n % divisor + 1 = divisor then 0 else n % divisor + 1 := by
  have below := Int.emod_lt_of_pos n positive
  have nonneg := Int.emod_nonneg n (by omega : divisor ≠ 0)
  rw [← Int.emod_add_emod]
  split
  case isTrue last => rw [last, Int.emod_self]
  case isFalse inside => exact Int.emod_eq_of_lt (by omega) (by omega)

namespace Valid

variable (valid : source.Valid)
include valid

theorem halves : 1 ≤ source.highTicks ∧ 1 ≤ source.lowTicks ∧
    source.period = source.highTicks + source.lowTicks :=
  ⟨valid.high, valid.low, rfl⟩

theorem period_pos : 0 < source.period := by
  have halves := valid.halves
  omega

theorem bits_eq : source.bits =
    counterBits (max (max (source.highTicks - 1) (source.lowTicks - 1)) (max source.phase 1)) := by
  have shorter : ∀ {n : Int}, 1 ≤ n → fits n = true → wrap (n - 1) = n - 1 := by
    intro n positive fitting
    apply wrap_of_fits
    rw [fits_iff] at fitting ⊢
    simp only [least, greatest] at fitting ⊢
    omega
  rw [bits, shorter valid.high valid.highFits, shorter valid.low valid.lowFits]

theorem cut_eq {n : Int} (nonneg : 0 ≤ n)
    (bounded : n ≤ source.highTicks - 1 ∨ n ≤ source.lowTicks - 1 ∨ n ≤ source.phase) :
    (source.cut n : Int) = n := by
  have high := fits_iff.mp valid.highFits
  have low := fits_iff.mp valid.lowFits
  have phase := fits_iff.mp valid.phaseFits
  simp only [least, greatest] at high low phase
  have word : unsigned n = n.toNat := by
    simp only [unsigned, modulus]
    omega
  have enough := lt_two_pow_counterBits (n := max (max (source.highTicks - 1)
    (source.lowTicks - 1)) (max source.phase 1)) (by omega)
  rw [← valid.bits_eq] at enough
  rw [cut, word, Nat.mod_eq_of_lt (by omega)]
  omega

theorem places (count : Int) : ∃ place next,
    source.elapsed count % source.period = place ∧
      source.elapsed (count + 1) % source.period = next ∧ 0 ≤ place ∧ place < source.period ∧
      next = (if place + 1 = source.period then 0 else place + 1) ∧
      (count = source.phase → next = 0) := by
  have later : source.elapsed (count + 1) = source.elapsed count + 1 := by
    simp only [elapsed]
    omega
  refine ⟨_, _, rfl, rfl, Int.emod_nonneg _ valid.period_pos.ne',
    Int.emod_lt_of_pos _ valid.period_pos, ?_, ?_⟩
  · rw [later, succ_emod valid.period_pos]
  · intro last
    have first : source.elapsed (count + 1) = 0 := by
      simp only [elapsed]
      omega
    rw [first, Int.zero_emod]

theorem remaining_bounds {count : Int} (nonneg : 0 ≤ count) :
    0 ≤ source.remaining count ∧
      (source.remaining count ≤ source.highTicks - 1 ∨
        source.remaining count ≤ source.lowTicks - 1 ∨ source.remaining count ≤ source.phase) := by
  have halves := valid.halves
  obtain ⟨place, _, here, _, least, below, _⟩ := valid.places count
  simp only [remaining, here]
  split
  · omega
  · split <;> omega

theorem remaining_succ (count : Int) : source.remaining (count + 1) =
    if source.remaining count ≠ 0 then source.remaining count - 1
    else if source.IsHigh count then source.lowTicks - 1 else source.highTicks - 1 := by
  have halves := valid.halves
  obtain ⟨place, next, here, there, least, below, step, first⟩ := valid.places count
  simp only [remaining, IsHigh, here, there]
  grind

theorem isHigh_succ (count : Int) : source.IsHigh (count + 1) ↔
    (source.remaining count = 0 ↔ ¬ source.IsHigh count) := by
  have halves := valid.halves
  obtain ⟨place, next, here, there, least, below, step, first⟩ := valid.places count
  simp only [remaining, IsHigh, here, there]
  grind

theorem rises (count : Int) : source.remaining count = 0 ∧ ¬ source.IsHigh count ↔
    0 ≤ source.elapsed (count + 1) ∧ source.elapsed (count + 1) % source.period = 0 := by
  have halves := valid.halves
  obtain ⟨place, next, here, there, least, below, step, first⟩ := valid.places count
  simp only [remaining, IsHigh, here, there]
  simp only [elapsed]
  grind

theorem falls (count : Int) : source.remaining count = 0 ∧ source.IsHigh count ↔
    0 ≤ source.elapsed (count + 1) ∧
      source.elapsed (count + 1) % source.period = source.highTicks := by
  have halves := valid.halves
  obtain ⟨place, next, here, there, least, below, step, first⟩ := valid.places count
  simp only [remaining, IsHigh, here, there]
  simp only [elapsed]
  grind

end Valid

structure Keeps (source : ClockSource) (count : Nat) (state : SourceState) : Prop where
  counter : (state.counter : Int) = source.remaining count
  derived : state.derived = true ↔ source.IsHigh count

section Steps

variable (valid : source.Valid)
include valid

theorem keeps_start : source.Keeps 0 source.start where
  counter := by
    rw [start, valid.cut_eq valid.phase (.inr (.inr (Int.le_refl _))), remaining,
      if_pos (by simpa using valid.phase)]
    omega
  derived := by
    have phase := valid.phase
    simp only [start, IsHigh, Bool.false_eq_true, false_iff, not_and]
    omega

variable {count : Nat} (keeps : source.Keeps count state)
include keeps

theorem Keeps.cut_load : (source.cut (source.load state) : Int) = source.load state := by
  have high := valid.high
  have low := valid.low
  have bounds := valid.remaining_bounds (Int.natCast_nonneg count)
  rw [← keeps.counter] at bounds
  simp only [load]
  split
  case isTrue nonzero => exact valid.cut_eq (by omega) (by omega)
  case isFalse zero =>
    split
    · exact valid.cut_eq (by omega) (.inr (.inl (Int.le_refl _)))
    · exact valid.cut_eq (by omega) (.inl (Int.le_refl _))

theorem Keeps.step (tick : Bool) :
    source.Keeps (count + tick.toNat) (source.step state tick) := by
  cases tick with
  | false => exact ⟨keeps.counter, keeps.derived⟩
  | true =>
    have counter := keeps.counter
    have derived := keeps.derived
    rw [step_true]
    refine ⟨?_, ?_⟩
    · rw [keeps.cut_load valid, Bool.toNat_true, Int.natCast_add, Int.natCast_one,
        valid.remaining_succ]
      simp only [load]
      grind
    · rw [Bool.toNat_true, Int.natCast_add, Int.natCast_one, valid.isHigh_succ]
      grind

end Steps

theorem Keeps.foldl (valid : source.Valid) {count : Nat} (keeps : source.Keeps count state)
    (ticks : List Bool) :
    source.Keeps (count + ticks.count true) (ticks.foldl source.step state) := by
  induction ticks generalizing count state with
  | nil => exact keeps
  | cons tick ticks ih =>
    have rest := ih (keeps.step valid tick)
    rw [List.foldl_cons, List.count_cons]
    cases tick with
    | false => exact rest
    | true => rwa [Bool.toNat_true, Nat.add_assoc, Nat.add_comm 1] at rest

theorem keeps_after (valid : source.Valid) (ticks : List Bool) :
    source.Keeps (ticks.count true) (source.after ticks) := by
  have keeps := (keeps_start valid).foldl valid ticks
  rwa [Nat.zero_add] at keeps

theorem derived_of_positive {tick : Bool} (edge : (source.step state tick).positive = true) :
    (source.step state tick).derived = true ∧ state.derived = false := by
  cases tick with
  | false => cases edge
  | true =>
    simp only [step_true, Bool.and_eq_true, decide_eq_true_eq, Bool.not_eq_true'] at edge ⊢
    simp only [edge.1, edge.2, if_true, Bool.not_false, and_self]

theorem derived_of_negative {tick : Bool} (edge : (source.step state tick).negative = true) :
    (source.step state tick).derived = false ∧ state.derived = true := by
  cases tick with
  | false => cases edge
  | true =>
    simp only [step_true, Bool.and_eq_true, decide_eq_true_eq] at edge ⊢
    simp only [edge.1, edge.2, if_true, Bool.not_true, and_self]

theorem Keeps.pulses (valid : source.Valid) {count : Nat} (keeps : source.Keeps count state) :
    ((source.step state true).positive = true ↔
      0 ≤ source.elapsed (count + 1) ∧ source.elapsed (count + 1) % source.period = 0) ∧
    ((source.step state true).negative = true ↔
      0 ≤ source.elapsed (count + 1) ∧
        source.elapsed (count + 1) % source.period = source.highTicks) := by
  have counter : state.counter = 0 ↔ source.remaining count = 0 := by
    rw [← keeps.counter, Int.natCast_eq_zero]
  have derived : state.derived = false ↔ ¬ source.IsHigh count := by
    rw [← keeps.derived, Bool.not_eq_true]
  simp only [step_true, Bool.and_eq_true, decide_eq_true_eq, Bool.not_eq_true']
  rw [counter, derived, keeps.derived, valid.rises, valid.falls]
  exact ⟨Iff.rfl, Iff.rfl⟩

/-- The derived clock of a valid source is high for `highTicks` and low for `lowTicks` ticks in
turn, from the tick behind its phase on; a pulse of one oscillator period marks each edge, and the
counter is wide enough for all that it holds. -/
theorem divides_exactly (valid : source.Valid) (ticks : List Bool) (tick : Bool) :
    let before := source.after ticks
    let state := source.step before tick
    let count : Int := (ticks ++ [tick]).count true
    let elapsed := count - source.phase - 1
    let period := source.highTicks + source.lowTicks
    source.run source.start (ticks ++ [tick]) = source.run source.start ticks ++ [state] ∧
      (state.derived = true ↔
        source.phase + 1 ≤ count ∧ elapsed % period < source.highTicks) ∧
      (tick = false → state.derived = before.derived ∧ state.counter = before.counter) ∧
      (state.positive = true ↔ tick = true ∧ 0 ≤ elapsed ∧ period ∣ elapsed) ∧
      (state.negative = true ↔
        tick = true ∧ 0 ≤ elapsed ∧ elapsed ≡ source.highTicks [ZMOD period]) ∧
      ¬ (state.positive = true ∧ state.negative = true) ∧
      (∀ next, (state.positive = true → (source.step state next).positive = false) ∧
        (state.negative = true → (source.step state next).negative = false)) ∧
      (source.start.counter : Int) = source.phase ∧
      (tick = true → (state.counter : Int) = source.load before) := by
  have keeps := keeps_after valid ticks
  have later := keeps_after valid (ticks ++ [tick])
  rw [after_append_singleton] at later
  refine ⟨run_append_singleton .., later.derived, ?_, ?_, ?_, ?_, ?_, ?_, ?_⟩
  · rintro rfl
    exact ⟨rfl, rfl⟩
  · cases tick with
    | false => simp [step_false]
    | true =>
      rw [(keeps.pulses valid).1, Int.dvd_iff_emod_eq_zero]
      simp [elapsed, period]
  · cases tick with
    | false => simp [step_false]
    | true =>
      have small : source.highTicks % source.period = source.highTicks :=
        Int.emod_eq_of_lt (Int.le_of_lt valid.high) (Int.lt_add_of_pos_right _ valid.low)
      rw [(keeps.pulses valid).2, Int.ModEq, ← period, small]
      simp [elapsed]
  · rintro ⟨positive, negative⟩
    exact Bool.false_ne_true ((derived_of_positive positive).2.symm.trans
      (derived_of_negative negative).2)
  · -- A second edge of the same kind would have to take the derived clock from the other level.
    intro next
    refine ⟨fun positive => Bool.eq_false_iff.mpr fun again => ?_,
      fun negative => Bool.eq_false_iff.mpr fun again => ?_⟩
    · exact Bool.false_ne_true ((derived_of_positive again).2.symm.trans
        (derived_of_positive positive).1)
    · exact Bool.false_ne_true ((derived_of_negative negative).1.symm.trans
        (derived_of_negative again).2)
  · exact valid.cut_eq valid.phase (.inr (.inr (Int.le_refl _)))
  · rintro rfl
    rw [step_true]
    exact keeps.cut_load valid

/-- Of two high and three low ticks behind a phase of one, the seventh tick of a run with a pause
begins the second period. -/
theorem divides_exactly_five :
    let source : ClockSource := ⟨2, 3, 1⟩
    let before := source.after [true, true, false, true, true, true, true]
    source.Valid ∧ before.derived = false ∧ (source.step before true).derived = true ∧
      (source.step before true).positive = true ∧ (source.step before true).negative = false ∧
      (source.step (source.step before true) true).positive = false ∧
      ((source.step before true).counter : Int) = source.load before := by
  have valid : ClockSource.Valid ⟨2, 3, 1⟩ := ⟨by decide, by decide, by decide, by decide,
    by decide, by decide⟩
  obtain ⟨_, derived, _, positive, _, apart, pulse, _, loaded⟩ :=
    divides_exactly valid [true, true, false, true, true, true, true] true
  have rising := positive.mpr (by decide)
  refine ⟨valid, by decide, derived.mpr (by decide), rising, ?_, (pulse true).1 rising,
    loaded rfl⟩
  exact Bool.eq_false_iff.mpr fun negative => apart ⟨rising, negative⟩

end ClockSource

end Schematic.Clock
