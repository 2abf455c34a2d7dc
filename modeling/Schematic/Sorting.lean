/-! # Sorting in place

A quicksort with insertion for short ranges and a heap sort after too many uneven partitions. The
order of items of equal rank is fixed by the comparisons alone. -/

namespace Schematic.Sorting

variable {α : Type}

def ranks (less : α → α → Bool) (items : Array α) (i j : Nat) : Bool :=
  match items[i]?, items[j]? with
  | some a, some b => less a b
  | _, _ => false

def settleDown (less : α → α → Bool) (first : Nat) : (position : Nat) → Array α → Array α
  | 0, items => items
  | below + 1, items =>
    if first ≤ below && ranks less items (below + 1) below then
      settleDown less first below (items.swapIfInBounds (below + 1) below)
    else items

def settleUp (less : α → α → Bool) : (steps : Nat) → (position : Nat) → Array α → Array α
  | 0, _, items => items
  | steps + 1, position, items =>
    if ranks less items position (position - 1) then
      settleUp less steps (position + 1) (items.swapIfInBounds position (position - 1))
    else items

def insertion (less : α → α → Bool) (first last : Nat) (items : Array α) : Array α :=
  (List.range (last - first - 1)).foldl
    (fun items step => settleDown less first (first + 1 + step) items) items

def sift (less : α → α → Bool) (first size : Nat) :
    (steps : Nat) → (root : Nat) → Array α → Array α
  | 0, _, items => items
  | steps + 1, root, items =>
    let left := 2 * root + 1
    if left ≥ size then items
    else
      let child :=
        if left + 1 < size && ranks less items (first + left) (first + left + 1) then left + 1
        else left
      if ranks less items (first + root) (first + child) then
        sift less first size steps child (items.swapIfInBounds (first + root) (first + child))
      else items

def heap (less : α → α → Bool) (first last : Nat) (items : Array α) : Array α :=
  let size := last - first
  let built := (List.range ((size - 1) / 2 + 1)).reverse.foldl
    (fun items root => sift less first size size root items) items
  (List.range size).reverse.foldl
    (fun items position =>
      sift less first position size 0 (items.swapIfInBounds first (first + position)))
    built

def climb (test : Nat → Bool) (j : Nat) : (steps : Nat) → (i : Nat) → Nat
  | 0, i => i
  | steps + 1, i => if i ≤ j && test i then climb test j steps (i + 1) else i

def descend (test : Nat → Bool) (i : Nat) : (steps : Nat) → (j : Nat) → Nat
  | 0, j => j
  | steps + 1, j => if i ≤ j && test j then descend test i steps (j - 1) else j

def divide (lower upper : Array α → Nat → Bool) :
    (steps : Nat) → (i j : Nat) → (untouched : Bool) → Array α → Array α × Nat × Bool
  | 0, i, _, untouched, items => (items, i, untouched)
  | steps + 1, i, j, untouched, items =>
    let i := climb (lower items) j (j + 1 - i) i
    let j := descend (upper items) i (j + 1 - i) j
    if i > j then (items, j + 1, untouched)
    else divide lower upper steps (i + 1) (j - 1) false (items.swapIfInBounds i j)

def partition (less : α → α → Bool) (first last pivot : Nat) (items : Array α) :
    Array α × Nat × Bool :=
  let (items, upper, untouched) :=
    divide (fun items i => ranks less items i first) (fun items j => !ranks less items j first)
      (last - first) (first + 1) (last - 1) true (items.swapIfInBounds first pivot)
  (items.swapIfInBounds (upper - 1) first, upper - 1, untouched)

def partitionEqual (less : α → α → Bool) (first last pivot : Nat) (items : Array α) :
    Array α × Nat :=
  let (items, upper, _) :=
    divide (fun items i => !ranks less items first i) (fun items j => ranks less items first j)
      (last - first) (first + 1) (last - 1) true (items.swapIfInBounds first pivot)
  (items, upper)

def repair (less : α → α → Bool) (first last : Nat) :
    (tries : Nat) → (position : Nat) → Array α → Array α × Bool
  | 0, _, items => (items, false)
  | tries + 1, position, items =>
    let position :=
      climb (fun i => !ranks less items i (i - 1)) (last - 1) (last - position) position
    if position = last then (items, true)
    else if last - first < 50 then (items, false)
    else
      let items := items.swapIfInBounds position (position - 1)
      let items :=
        if position - first ≥ 2 then settleDown less 0 (position - 1) items else items
      let items :=
        if last - position ≥ 2 then settleUp less (last - position - 1) (position + 1) items
        else items
      repair less first last tries position items

def scatter (seed : UInt64) : UInt64 :=
  let seed := seed ^^^ (seed <<< 13)
  let seed := seed ^^^ (seed >>> 7)
  seed ^^^ (seed <<< 17)

def shuffle (first last : Nat) (items : Array α) : Array α :=
  let length := last - first
  let middle := first + length / 4 * 2 - 1
  let bound := Nat.pow 2 (length.log2 + 1)
  let exchange (state : UInt64 × Array α) (step : Nat) : UInt64 × Array α :=
    let seed := scatter state.1
    let other := seed.toNat % bound
    let other := if other ≥ length then other - length else other
    (seed, state.2.swapIfInBounds (middle - 1 + step) (first + other))
  ([0, 1, 2].foldl exchange (length.toUInt64, items)).2

def median (less : α → α → Bool) (items : Array α) (a b c count : Nat) : Nat × Nat :=
  let (a, b, count) := if ranks less items b a then (b, a, count + 1) else (a, b, count)
  let (b, count) := if ranks less items c b then (c, count + 1) else (b, count)
  if ranks less items b a then (a, count + 1) else (b, count)

/-- What the samples of a range say about it. -/
inductive Trend where
  | rising
  | falling
  | mixed
  deriving DecidableEq, Repr

def choosePivot (less : α → α → Bool) (first last : Nat) (items : Array α) : Nat × Trend :=
  let quarter := (last - first) / 4
  let samples := [first + quarter, first + quarter * 2, first + quarter * 3]
  let (samples, count) :=
    if last - first ≥ 50 then
      samples.foldl
        (fun (chosen, count) sample =>
          let (sample, count) := median less items (sample - 1) sample (sample + 1) count
          (chosen ++ [sample], count))
        ([], 0)
    else (samples, 0)
  let (pivot, count) :=
    median less items (samples.headD 0) (samples.tail.headD 0) (samples.tail.tail.headD 0) count
  (pivot, if count = 0 then .rising else if count = 12 then .falling else .mixed)

def reverseRange (first last : Nat) (items : Array α) : Array α :=
  (List.range ((last - first) / 2)).foldl
    (fun items step => items.swapIfInBounds (first + step) (last - 1 - step)) items

def sortRange (less : α → α → Bool) :
    (steps : Nat) → (first last limit : Nat) → (even divided : Bool) → Array α → Array α
  | 0, _, _, _, _, _, items => items
  | steps + 1, first, last, limit, even, divided, items =>
    let length := last - first
    if length ≤ 12 then insertion less first last items
    else if limit = 0 then heap less first last items
    else
      let items := if even then items else shuffle first last items
      let limit := if even then limit else limit - 1
      let (pivot, trend) := choosePivot less first last items
      let (items, pivot) :=
        if trend = .falling then
          (reverseRange first last items, last - 1 - (pivot - first))
        else (items, pivot)
      let (items, sorted) :=
        if even && divided && trend ≠ .mixed then repair less first last 5 (first + 1) items
        else (items, false)
      if sorted then items
      else if 0 < first && !ranks less items (first - 1) pivot then
        let (items, upper) := partitionEqual less first last pivot items
        sortRange less steps upper last limit even divided items
      else
        let (items, middle, divided) := partition less first last pivot items
        let below := middle - first
        let above := last - middle
        if below < above then
          sortRange less steps (middle + 1) last limit (below ≥ length / 8) divided
            (sortRange less steps first middle limit true true items)
        else
          sortRange less steps first middle limit (above ≥ length / 8) divided
            (sortRange less steps (middle + 1) last limit true true items)

def sort (less : α → α → Bool) (items : List α) : List α :=
  let length := items.length
  let limit := if length = 0 then 0 else length.log2 + 1
  (sortRange less (length + 1) 0 length limit true true items.toArray).toList

end Schematic.Sorting
