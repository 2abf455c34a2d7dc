import Mathlib.Data.List.Flatten
import Mathlib.Data.List.Perm.Subperm
import Schematic.Proofs.Circuit.Runs

/-!
# Coalescing

Runs cover every bit once, say which net bit feeds it, and no covering by uniform ranges has fewer
ranges. The last holds since each run begins at a cut, where no uniform range can continue.
-/

open List

namespace Schematic

/-- The next machine word. -/
def Word.next (n : Int) : Int := wrap (n + 1)

/-- Two neighbouring bits are both unconnected, or fed by a net bit and the next one. -/
def Point.Joins (next : Int → Int) (lower upper : Point) : Prop :=
  lower.isConnected = upper.isConnected ∧
    (lower.isConnected = true → upper = ⟨lower.net, next lower.bit⟩)

/-- A range is entirely unconnected, or fed by consecutive bits of one net in the same order. -/
def Uniform (next : Int → Int) (points : List Point) (low high : Nat) : Prop :=
  ∀ position lower upper, low ≤ position → position < high → points[position]? = some lower →
    points[position + 1]? = some upper → lower.Joins next upper

/-- A bit that does not join the one below it. -/
def IsCut (points : List Point) (position : Nat) : Prop :=
  ∃ below lower upper, position = below + 1 ∧ points[below]? = some lower ∧
    points[position]? = some upper ∧ ¬lower.Joins Word.next upper

namespace Run

/-- The bits of a run, from the most significant one down. -/
def positions (run : Run) : List Nat := (List.range' run.low run.width).reverse

/-- The point that a run says feeds one of its bits. -/
def fed? (run : Run) (position : Nat) : Option Point :=
  run.source.map fun range => ⟨range.net, Word.wrap (range.low + (position - run.low : Nat))⟩

/-- A run says which point feeds each of its bits. -/
def Tells (points : List Point) (run : Run) : Prop :=
  ∀ position point, points[position]? = some point → run.low ≤ position → position ≤ run.high →
    run.fed? position = Option.guard Point.isConnected point

variable {points : List Point} {run longer : Run} {position : Nat} {point : Point}

theorem fed?_low (run : Run) :
    run.fed? run.low = run.source.map fun range => ⟨range.net, Word.wrap range.low⟩ := by
  simp [fed?]

theorem fed?_succ (below : run.low ≤ position) : run.fed? (position + 1) =
    (run.fed? position).map fun point => ⟨point.net, Word.next point.bit⟩ := by
  rw [fed?, fed?, Option.map_map]
  congr 1
  funext range
  simp only [Function.comp_apply, Word.next, Word.wrap, Int.bmod_add_bmod, Point.mk.injEq, true_and]
  congr 1
  omega

theorem tells_single (here : points[position]? = some point) (word : Word.fits point.bit = true) :
    (single position point).Tells points := by
  intro other found known above below
  obtain rfl : position = other := Nat.le_antisymm above below
  obtain rfl : point = found := Option.some.inj (here.symm.trans known)
  refine (fed?_low (single position point)).trans ?_
  cases connected : point.isConnected <;>
    simp [single, Option.guard, connected, Word.wrap_of_fits word]

/-- A run that grows downwards says the same of the bits that it had. -/
theorem fed?_extend (adjacent : run.low = position + 1) (word : Word.fits point.bit = true)
    (extended : run.extend? position point = some longer) :
    longer.low = position ∧ longer.high = run.high ∧
      longer.fed? position = Option.guard Point.isConnected point ∧
      ∀ other, position < other → longer.fed? other = run.fed? other := by
  obtain ⟨high, low, source⟩ := run
  obtain rfl : low = position + 1 := adjacent
  cases source with
  | none =>
    simp only [extend?, Option.ite_none_left_eq_some, Bool.not_eq_true, Option.some.injEq]
      at extended
    obtain ⟨loose, rfl⟩ := extended
    exact ⟨rfl, rfl, by simp [fed?, Option.guard, loose], fun _ _ => rfl⟩
  | some range =>
    simp only [extend?, Option.ite_none_right_eq_some, Bool.and_eq_true, decide_eq_true_eq,
      Option.some.injEq] at extended
    obtain ⟨⟨⟨connected, net⟩, bit⟩, rfl⟩ := extended
    refine ⟨rfl, rfl, ?_, fun other above => ?_⟩
    · simp [fed?, Option.guard, connected, net, Word.wrap_of_fits word]
    · simp only [fed?, Option.map_some, Option.some.injEq, Point.mk.injEq, true_and, bit, Word.wrap,
        Int.bmod_add_bmod]
      congr 1
      omega

theorem Tells.extend (tells : run.Tells points) (adjacent : run.low = position + 1)
    (here : points[position]? = some point) (word : Word.fits point.bit = true)
    (extended : run.extend? position point = some longer) : longer.Tells points := by
  obtain ⟨low, high, first, others⟩ := fed?_extend adjacent word extended
  intro other found known above below
  obtain rfl | above := Nat.eq_or_lt_of_le (low ▸ above)
  · rwa [← Option.some.inj (here.symm.trans known)]
  · rw [others other above]
    exact tells other found known (adjacent ▸ above) (high ▸ below)

/-- A run that does not grow begins at a cut. -/
theorem Tells.not_joins (tells : run.Tells points) (adjacent : run.low = position + 1)
    (ordered : run.low ≤ run.high) (word : Word.fits point.bit = true) {upper : Point}
    (above : points[position + 1]? = some upper) (stuck : run.extend? position point = none) :
    ¬point.Joins Word.next upper := by
  rintro ⟨alike, next⟩
  have told := tells _ upper above (Nat.le_of_eq adjacent) (adjacent ▸ ordered)
  rw [← adjacent, fed?_low] at told
  cases source : run.source with
  | none =>
    simp only [source, Option.map_none, Option.guard, ← alike] at told
    cases connected : point.isConnected <;> simp_all [extend?]
  | some range =>
    have connected : point.isConnected = true := by
      cases loose : point.isConnected <;> simp_all [Option.guard]
    rw [source, Option.map_some, Option.guard, if_pos (alike ▸ connected), next connected,
      Option.some.injEq, Point.mk.injEq] at told
    have bit : point.bit = Word.wrap (range.low - 1) := by
      have same : Word.wrap (Word.wrap range.low - 1) = Word.wrap (Word.next point.bit - 1) := by
        rw [told.2]
      simp only [Word.next, Word.wrap, Int.bmod_sub_bmod, Int.add_sub_cancel] at same
      rw [Word.wrap, same, ← Word.wrap, Word.wrap_of_fits word]
    simp [extend?, source, connected, told.1, ← bit] at stuck

theorem Tells.uniform (tells : run.Tells points) : Uniform Word.next points run.low run.high := by
  intro position lower upper above below first second
  have low := tells position lower first above (Nat.le_of_lt below)
  have high := tells (position + 1) upper second (Nat.le_succ_of_le above) below
  rw [fed?_succ above, low] at high
  cases connected : lower.isConnected <;> cases other : upper.isConnected <;>
    simp_all [Option.guard, Point.Joins]

end Run

variable {points : List Point} {start position low high : Nat} {found : List Run} {point : Point}
  {ranges : List (Nat × Nat)}

/-- What the runs of the bits from some position on are, the lowest run first. -/
structure Coalesces (points : List Point) (start : Nat) (runs : List Run) : Prop where
  tiles : runs.flatMap (fun run => List.range' run.low run.width) =
    List.range' start (points.length - start)
  ordered : ∀ run ∈ runs, run.low ≤ run.high
  tells : ∀ run ∈ runs, run.Tells points
  first : ∀ run ∈ runs.head?, run.low = start
  cuts : ∀ run ∈ runs.tail, IsCut points run.low

theorem Coalesces.addBit (coalesces : Coalesces points (position + 1) found)
    (here : points[position]? = some point) (word : Word.fits point.bit = true) :
    Coalesces points position (Run.addBit found (point, position)) := by
  obtain ⟨tiles, ordered, tells, first, cuts⟩ := coalesces
  obtain ⟨inside, _⟩ := List.getElem?_eq_some_iff.mp here
  have longer : List.range' position (points.length - position) =
      position :: List.range' (position + 1) (points.length - (position + 1)) := by
    rw [← range'_succ]
    congr 1
    omega
  cases found with
  | nil =>
    have tells := Run.tells_single here word
    refine ⟨?_, ?_, ?_, ?_, ?_⟩ <;> simp_all [Run.addBit, Run.single, Run.width]
  | cons last rest =>
    obtain ⟨lastOrdered, restOrdered⟩ := forall_mem_cons.mp ordered
    obtain ⟨lastTells, restTells⟩ := forall_mem_cons.mp tells
    have adjacent : last.low = position + 1 := first last rfl
    cases extended : last.extend? position point with
    | some grown =>
      obtain ⟨low, high, _⟩ := Run.fed?_extend adjacent word extended
      have wider : List.range' grown.low grown.width =
          position :: List.range' last.low last.width := by
        rw [low, adjacent, ← range'_succ, Run.width, Run.width, low, high, adjacent]
        congr 1
        omega
      simp only [Run.addBit, extended]
      refine ⟨?_, ?_, ?_, by simpa using low, cuts⟩
      · rw [longer, ← tiles, flatMap_cons, wider, flatMap_cons, cons_append]
      · exact forall_mem_cons.mpr ⟨by omega, restOrdered⟩
      · exact forall_mem_cons.mpr ⟨lastTells.extend adjacent here word extended, restTells⟩
    | none =>
      simp only [Run.addBit, extended]
      refine ⟨?_, ?_, ?_, by simp [Run.single], ?_⟩
      · rw [longer, ← tiles, flatMap_cons]
        simp [Run.single, Run.width]
      · exact forall_mem_cons.mpr ⟨Nat.le_refl _, ordered⟩
      · exact forall_mem_cons.mpr ⟨Run.tells_single here word, tells⟩
      · have bound : position + 1 < points.length := by
          have sizes := congrArg length tiles
          simp only [flatMap_cons, length_append, length_range', Run.width] at sizes
          omega
        have above := getElem?_eq_getElem bound
        exact forall_mem_cons.mpr ⟨⟨position, point, _, adjacent, here, by rw [adjacent, above],
          lastTells.not_joins adjacent lastOrdered word above extended⟩, cuts⟩

theorem coalesces_runs (words : ∀ point ∈ points, Word.fits point.bit = true) :
    Coalesces points 0 (runs points).reverse := by
  refine runs_induction points (motive := Coalesces points) ?_ ?_
  · exact ⟨by simp, by simp, by simp, by simp, by simp⟩
  · intro position point found here coalesces
    exact coalesces.addBit here (words point (mem_of_getElem? here))

/-- Every cut is the lowest bit of a range of each covering by uniform ranges. -/
theorem mem_lows_of_isCut (uniform : ∀ range ∈ ranges, Uniform Word.next points range.1 range.2)
    (covers : ∀ position < points.length, ∃ range ∈ ranges, range.1 ≤ position ∧ position ≤ range.2)
    {cut : Nat} (isCut : IsCut points cut) : cut ∈ ranges.map Prod.fst := by
  obtain ⟨below, lower, upper, rfl, first, second, apart⟩ := isCut
  obtain ⟨inside, _⟩ := List.getElem?_eq_some_iff.mp second
  obtain ⟨range, member, low, high⟩ := covers _ inside
  obtain same | low := Nat.eq_or_lt_of_le low
  · exact mem_map.mpr ⟨range, member, same⟩
  · exact absurd (uniform range member below lower upper (Nat.le_of_lt_succ low) high first second)
      apart

/-- So is the lowest bit of every run: it is the lowest of all bits, or a cut. -/
theorem Coalesces.lows_subset (coalesces : Coalesces points 0 found)
    (uniform : ∀ range ∈ ranges, Uniform Word.next points range.1 range.2)
    (covers : ∀ position < points.length, ∃ range ∈ ranges, range.1 ≤ position ∧
      position ≤ range.2) :
    found.map Run.low ⊆ ranges.map Prod.fst := by
  intro low listed
  obtain ⟨run, member, rfl⟩ := mem_map.mp listed
  cases found with
  | nil => cases member
  | cons lowest rest =>
    obtain rfl | member := mem_cons.mp member
    · have filled : 0 < points.length := by
        have sizes := congrArg length coalesces.tiles
        simp only [flatMap_cons, length_append, length_range', Run.width] at sizes
        omega
      obtain ⟨range, member, low, _⟩ := covers 0 filled
      rw [coalesces.first run rfl]
      exact mem_map.mpr ⟨range, member, Nat.le_zero.mp low⟩
    · exact mem_lows_of_isCut uniform covers (coalesces.cuts run member)

/-- Plain and machine arithmetic agree on bits that are words. -/
theorem Uniform.word (words : ∀ point ∈ points, Word.fits point.bit = true)
    (uniform : Uniform (· + 1) points low high) : Uniform Word.next points low high := by
  intro position lower upper above below first second
  obtain ⟨alike, next⟩ := uniform position lower upper above below first second
  refine ⟨alike, fun connected => ?_⟩
  have word := words upper (mem_of_getElem? second)
  rw [next connected] at word ⊢
  rw [Word.next, Word.wrap_of_fits word]

/-- Bits that are not negative never wrap. -/
theorem Uniform.plain (words : ∀ point ∈ points, Word.fits point.bit = true)
    (natural : ∀ point ∈ points, point.isConnected = true → 0 ≤ point.bit)
    (uniform : Uniform Word.next points low high) : Uniform (· + 1) points low high := by
  intro position lower upper above below first second
  obtain ⟨alike, next⟩ := uniform position lower upper above below first second
  refine ⟨alike, fun connected => ?_⟩
  have lowest := natural lower (mem_of_getElem? first) connected
  have bit := natural upper (mem_of_getElem? second) (alike ▸ connected)
  have word := words lower (mem_of_getElem? first)
  rw [next connected] at bit ⊢
  rw [Word.fits_iff] at word
  simp only [Word.next, Word.wrap, Word.modulus, Word.least, Word.greatest, Int.bmod_def,
    Point.mk.injEq, true_and] at bit word ⊢
  split <;> simp_all <;> omega

theorem Run.pointAt?_eq (run : Run) (position : Nat) : run.pointAt? position =
    if run.low ≤ position ∧ position ≤ run.high then run.fed? position else none := by
  cases source : run.source <;> simp [pointAt?, fed?, source]

theorem exists_run_at (coalesces : Coalesces points start found) (above : start ≤ position)
    (inside : position < points.length) :
    ∃ run ∈ found, run.low ≤ position ∧ position ≤ run.high := by
  have listed : position ∈ found.flatMap fun run => List.range' run.low run.width := by
    rw [coalesces.tiles, mem_range'_1]
    omega
  obtain ⟨run, member, within⟩ := mem_flatMap.mp listed
  have ordered := coalesces.ordered run member
  rw [mem_range'_1, Run.width] at within
  exact ⟨run, member, by omega⟩

theorem expandRuns_runs (words : ∀ point ∈ points, Word.fits point.bit = true) :
    expandRuns (runs points) points.length = points.map Point.normal := by
  have coalesces := coalesces_runs words
  have told : ∀ run ∈ runs points, ∀ {position point}, points[position]? = some point →
      run.low ≤ position ∧ position ≤ run.high →
        run.pointAt? position = Option.guard Point.isConnected point := by
    intro run member position point here within
    rw [run.pointAt?_eq, if_pos within]
    exact coalesces.tells run (mem_reverse.mpr member) position point here within.1 within.2
  refine ext_getElem (by simp [expandRuns]) fun position _ inside => ?_
  rw [length_map] at inside
  have here := getElem?_eq_getElem inside
  simp only [expandRuns, getElem_map, getElem_range]
  generalize points[position] = point at here ⊢
  obtain ⟨run, member, within⟩ := exists_run_at coalesces (Nat.zero_le _) inside
  have gives := told run (mem_reverse.mp member) here within
  cases found : (runs points).findSome? fun run => run.pointAt? position with
  | none =>
    rw [findSome?_eq_none_iff.mp found run (mem_reverse.mp member)] at gives
    have loose := Option.guard_eq_none_iff.mp gives.symm
    simp [Point.normal, loose]
  | some source =>
    obtain ⟨other, listed, gives⟩ := exists_of_findSome?_eq_some found
    have within : other.low ≤ position ∧ position ≤ other.high := by
      by_contra outside
      simp [other.pointAt?_eq, outside] at gives
    rw [told other listed here within] at gives
    obtain ⟨rfl, connected⟩ := Option.guard_eq_some_iff.mp gives
    simp [Point.normal, connected]

theorem nodup_lows (coalesces : Coalesces points start found) : (found.map Run.low).Nodup := by
  have among : found.flatMap (fun run => [run.low]) <+
      found.flatMap fun run => List.range' run.low run.width := by
    refine List.Sublist.flatMap_right found fun run _ => singleton_sublist.mpr ?_
    simp [Run.width, mem_range'_1]
  rw [coalesces.tiles, ← map_eq_flatMap] at among
  exact among.nodup nodup_range'

/-- **Runs coalesce.** The runs of a list of points are not empty and list every bit once, from the
most significant one down. Expanded they are the points, up to the form of unconnected ones. Each is
uniform, in machine arithmetic and, if no connected bit is negative, in plain arithmetic. No
covering of the bits by ranges that are uniform in either sense has fewer ranges. -/
theorem runs_coalesce (words : ∀ point ∈ points, Word.fits point.bit = true) :
    (∀ run ∈ runs points, run.low ≤ run.high ∧
      Uniform Word.next points run.low run.high ∧
      ((∀ point ∈ points, point.isConnected = true → 0 ≤ point.bit) →
        Uniform (· + 1) points run.low run.high)) ∧
    (runs points).flatMap Run.positions = (List.range points.length).reverse ∧
    expandRuns (runs points) points.length = points.map Point.normal ∧
    ∀ ranges : List (Nat × Nat),
      (∀ position < points.length, ∃ range ∈ ranges, range.1 ≤ position ∧ position ≤ range.2) →
      (∀ range ∈ ranges, Uniform Word.next points range.1 range.2 ∨
        Uniform (· + 1) points range.1 range.2) →
      (runs points).length ≤ ranges.length := by
  have coalesces := coalesces_runs words
  refine ⟨fun run member => ?_, ?_, expandRuns_runs words, fun ranges covers uniform => ?_⟩
  · have listed := mem_reverse.mpr member
    have uniform := (coalesces.tells run listed).uniform
    exact ⟨coalesces.ordered run listed, uniform, fun natural => uniform.plain words natural⟩
  · have tiles := congrArg reverse coalesces.tiles
    rw [reverse_flatMap, reverse_reverse, Nat.sub_zero, ← range_eq_range'] at tiles
    exact tiles
  · have words : ∀ range ∈ ranges, Uniform Word.next points range.1 range.2 :=
      fun range member => (uniform range member).elim id (Uniform.word words)
    have lows := coalesces.lows_subset words covers
    simpa using (subperm_of_subset (nodup_lows coalesces) lows).length_le

/-- Three runs around an open bit, and no covering has fewer. -/
theorem runs_coalesce_gap :
    runs [⟨3, 0⟩, ⟨3, 1⟩, ⟨-7, 4⟩, ⟨3, 2⟩] =
        [⟨3, 3, some ⟨3, 2, 2⟩⟩, ⟨2, 2, none⟩, ⟨1, 0, some ⟨3, 1, 0⟩⟩] ∧
      ∀ ranges : List (Nat × Nat),
        (∀ position < 4, ∃ range ∈ ranges, range.1 ≤ position ∧ position ≤ range.2) →
        (∀ range ∈ ranges,
          Uniform (· + 1) [⟨3, 0⟩, ⟨3, 1⟩, ⟨-7, 4⟩, ⟨3, 2⟩] range.1 range.2) →
        3 ≤ ranges.length :=
  ⟨by decide, fun ranges covers uniform =>
    (@runs_coalesce [⟨3, 0⟩, ⟨3, 1⟩, ⟨-7, 4⟩, ⟨3, 2⟩] (by decide)).2.2.2 ranges covers
      fun range member => .inr (uniform range member)⟩

end Schematic
