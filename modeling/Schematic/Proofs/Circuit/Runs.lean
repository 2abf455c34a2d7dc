import Schematic.Circuit.Run

/-! # The bits of runs -/

open List

namespace Schematic

variable {points : List Point}

namespace Point

/-- The point as a net sees it: all points without connection are one. -/
def normal (point : Point) : Point :=
  if point.isConnected then point else unconnected

def Counted (point : Point) : Prop :=
  point.isConnected = true → 0 ≤ point.bit ∧ point.bit ≤ Word.greatest

end Point

namespace Run

variable {point : Point} {run longer : Run} {position : Nat}

def pointBelow (run : Run) (offset : Nat) : Point :=
  match run.source with
  | some range => ⟨range.net, range.high - offset⟩
  | none => Point.unconnected

def spread (run : Run) : List (Point × Nat) :=
  (List.range run.width).map fun offset => (run.pointBelow offset, run.high - offset)

structure Coherent (run : Run) : Prop where
  ordered : run.low ≤ run.high
  connected : ∀ range, run.source = some range → 0 ≤ range.net
  counted : ∀ range, run.source = some range → 0 ≤ range.low ∧ range.low ≤ Word.greatest
  aligned : ∀ range, run.source = some range →
    range.high - range.low = (run.high : Int) - run.low

theorem spread_single (position : Nat) (point : Point) :
    (single position point).spread = [(point.normal, position)] := by
  cases connected : point.isConnected with
  | true => simp [single, spread, width, pointBelow, Point.normal, connected]
  | false => simp [single, spread, width, pointBelow, Point.normal, connected]

theorem coherent_single (position : Nat) (counted : point.Counted) :
    (single position point).Coherent := by
  have sourceOf : ∀ range, (single position point).source = some range →
      point.isConnected = true ∧ range = ⟨point.net, point.bit, point.bit⟩ := by
    intro range source
    cases connected : point.isConnected with
    | true =>
      simp only [single, connected, ↓reduceIte, Option.some.injEq] at source
      exact ⟨rfl, source.symm⟩
    | false => simp [single, connected] at source
  refine ⟨Nat.le_refl _, ?_, ?_, ?_⟩
  · intro range source
    obtain ⟨connected, rfl⟩ := sourceOf range source
    exact of_decide_eq_true connected
  · intro range source
    obtain ⟨connected, rfl⟩ := sourceOf range source
    exact counted connected
  · intro range source
    obtain ⟨_, rfl⟩ := sourceOf range source
    simp [single]

theorem extend?_cases
    (coherent : run.Coherent) (extended : run.extend? position point = some longer) :
    (run.source = none ∧ point.isConnected = false ∧ longer = { run with low := position }) ∨
      ∃ range, run.source = some range ∧ point.isConnected = true ∧
        point = ⟨range.net, range.low - 1⟩ ∧
        longer = { run with low := position, source := some { range with low := point.bit } } := by
  obtain ⟨high, low, source⟩ := run
  cases source with
  | none =>
    cases connected : point.isConnected with
    | true => simp [extend?, connected] at extended
    | false =>
      simp only [extend?, connected, Bool.false_eq_true, ↓reduceIte, Option.some.injEq]
        at extended
      exact .inl ⟨rfl, rfl, extended.symm⟩
  | some range =>
    simp only [extend?, Option.ite_none_right_eq_some, Bool.and_eq_true, decide_eq_true_eq,
      Option.some.injEq] at extended
    obtain ⟨⟨⟨connected, sameNet⟩, next⟩, rfl⟩ := extended
    have bounds := coherent.counted range rfl
    have fitting : Word.fits (range.low - 1) = true := by
      rw [Word.fits_iff]
      simp only [Word.least, Word.greatest] at bounds ⊢
      omega
    rw [Word.wrap_of_fits fitting] at next
    refine .inr ⟨range, rfl, connected, ?_, rfl⟩
    rw [sameNet, ← next]

theorem spread_extend (coherent : run.Coherent) (adjacent : run.low = position + 1)
    (extended : run.extend? position point = some longer) :
    longer.spread = run.spread ++ [(point.normal, position)] := by
  have ordered := coherent.ordered
  have longerWidth : run.high - position + 1 = run.width + 1 := by
    simp only [width]
    omega
  have lowest : run.high - run.width = position := by
    simp only [width]
    omega
  obtain ⟨gap, connected, rfl⟩ | ⟨range, source, connected, rfl, rfl⟩ :=
    extend?_cases coherent extended
  · simp only [spread, width, longerWidth, pointBelow, gap, range_succ, map_append,
      map_cons, map_nil, Point.normal, connected, Bool.false_eq_true, ↓reduceIte]
    rw [← width, lowest]
  · have next : range.high - (run.width : Nat) = range.low - 1 := by
      have aligned := coherent.aligned range source
      simp only [width]
      omega
    simp only [spread, width, longerWidth, pointBelow, source, range_succ, map_append,
      map_cons, map_nil, Point.normal, connected, ↓reduceIte]
    rw [← width, lowest, next]

theorem coherent_extend
    (coherent : run.Coherent) (adjacent : run.low = position + 1) (counted : point.Counted)
    (extended : run.extend? position point = some longer) : longer.Coherent := by
  have ordered := coherent.ordered
  obtain ⟨gap, connected, rfl⟩ | ⟨range, source, connected, same, rfl⟩ :=
    extend?_cases coherent extended
  · refine ⟨by simp only; omega, ?_, ?_, ?_⟩ <;> simp [gap]
  · have aligned := coherent.aligned range source
    have next : point.bit = range.low - 1 := by rw [same]
    refine ⟨by simp only; omega, ?_, ?_, ?_⟩
    · simpa using coherent.connected range source
    · simpa using counted connected
    · simp only [Option.some.injEq, forall_eq']
      omega

theorem low_extend (coherent : run.Coherent) (extended : run.extend? position point = some longer) :
    longer.low = position := by
  obtain ⟨_, _, rfl⟩ | ⟨_, _, _, _, rfl⟩ := extend?_cases coherent extended <;> rfl

structure Gathers (lowest : Nat) (entries : List (Point × Nat)) (runs : List Run) : Prop where
  spread : runs.reverse.flatMap Run.spread =
    (entries.map fun entry => (entry.1.normal, entry.2)).reverse
  coherent : ∀ run ∈ runs, run.Coherent
  lowest : ∀ run ∈ runs.head?, run.low = lowest

theorem Gathers.addBit {entries : List (Point × Nat)} {runs : List Run}
    (gathered : Gathers (position + 1) entries runs) (counted : point.Counted) :
    Gathers position ((point, position) :: entries) (addBit runs (point, position)) := by
  obtain ⟨spread, coherent, lowest⟩ := gathered
  cases runs with
  | nil =>
    refine ⟨?_, ?_, ?_⟩
    · simp only [reverse_nil, flatMap_nil] at spread
      simp [Run.addBit, spread_single, ← spread]
    · simpa [Run.addBit] using coherent_single position counted
    · simp [Run.addBit, single]
  | cons last rest =>
    have lastCoherent := coherent last (mem_cons_self ..)
    have adjacent : last.low = position + 1 := lowest last rfl
    have restSpread : (rest.reverse.flatMap Run.spread) ++ last.spread =
        (entries.map fun entry => (entry.1.normal, entry.2)).reverse := by
      simpa using spread
    cases extended : last.extend? position point with
    | some longer =>
      simp only [Run.addBit, extended]
      refine ⟨?_, ?_, ?_⟩
      · simp [spread_extend lastCoherent adjacent extended, ← restSpread]
      · intro run member
        obtain rfl | member := mem_cons.mp member
        · exact coherent_extend lastCoherent adjacent counted extended
        · exact coherent run (mem_cons_of_mem _ member)
      · simpa using low_extend lastCoherent extended
    | none =>
      simp only [Run.addBit, extended]
      refine ⟨?_, ?_, ?_⟩
      · simp [spread_single, ← restSpread]
      · intro run member
        obtain rfl | member := mem_cons.mp member
        · exact coherent_single position counted
        · exact coherent run member
      · simp [single]

end Run

/-- Bits are added from the most significant one down. -/
theorem runs_induction (points : List Point) {motive : Nat → List Run → Prop}
    (nothing : motive points.length [])
    (add : ∀ {position point found}, points[position]? = some point → motive (position + 1) found →
      motive position (Run.addBit found (point, position))) : motive 0 (runs points).reverse := by
  have general : ∀ (rest : List Point) (start : Nat), start + rest.length = points.length →
      rest = points.drop start → motive start
        ((rest.zipIdx start).foldr (fun entry runs => Run.addBit runs entry) []) := by
    intro rest
    induction rest with
    | nil =>
      rintro start rfl _
      exact nothing
    | cons point rest ih =>
      intro start length left
      refine add ?_ (ih (start + 1) (by rw [← length, length_cons]; omega) ?_)
      · rw [← Nat.add_zero start, ← getElem?_drop, ← left]
        rfl
      · rw [← tail_drop, ← left, tail_cons]
  rw [runs, reverse_reverse, foldl_reverse]
  exact general points 0 (Nat.zero_add _) rfl

section

variable (counted : ∀ point ∈ points, point.Counted)
include counted

theorem gathers_runs : Run.Gathers 0 points.zipIdx (runs points).reverse := by
  refine runs_induction points
    (motive := fun start found => Run.Gathers start ((points.drop start).zipIdx start) found) ?_ ?_
  · exact ⟨by simp, by simp, by simp⟩
  · intro position point found here gathered
    obtain ⟨inside, rfl⟩ := List.getElem?_eq_some_iff.mp here
    rw [drop_eq_getElem_cons inside, zipIdx_cons]
    exact gathered.addBit (counted _ (getElem_mem inside))

theorem flatMap_spread_runs : (runs points).flatMap Run.spread =
      (points.zipIdx.map fun entry => (entry.1.normal, entry.2)).reverse := by
  simpa using (gathers_runs counted).spread

theorem coherent_of_mem_runs {run : Run} (member : run ∈ runs points) : run.Coherent :=
  (gathers_runs counted).coherent run (mem_reverse.mpr member)

end

end Schematic
