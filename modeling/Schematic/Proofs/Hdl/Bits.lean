import Schematic.Hdl.Instance

/-! # Expressions bit by bit -/

open List

namespace Schematic.Hdl

/-- A bit of an expression: a constant, or a bit of a signal that may be inverted. -/
inductive ExprBit (σ : Type) where
  | constant (value : Bool)
  | wired (signal : σ) (position : Int) (inverted : Bool := false)
  deriving DecidableEq, Repr

/-- The signal and the declared width behind each name. -/
abbrev Scope (σ : Type) := String → Option (σ × Int)

variable {σ : Type}

def ExprBit.complement : ExprBit σ → ExprBit σ
  | .constant value => .constant !value
  | .wired signal position inverted => .wired signal position !inverted

/-- Bits of a signal, from the highest position down. -/
def rangeBits (signal : σ) (high low : Int) : List (ExprBit σ) :=
  (List.range (high - low + 1).toNat).map fun offset : Nat => .wired signal (high - offset)

/-- The bits `high` down to `low` of a name, which must be those of a declared vector. -/
def Scope.select? (scope : Scope σ) (name : String) (high low : Int) : Option (List (ExprBit σ)) :=
  match scope name with
  | some (signal, width) =>
    if 1 < width ∧ 0 ≤ low ∧ low ≤ high ∧ high < width then some (rangeBits signal high low)
    else none
  | none => none

namespace Expr

/-- What each bit of an expression is, from the most significant down. -/
def bits? (scope : Scope σ) : Expr → Option (List (ExprBit σ))
  | .signal name => (scope name).map fun entry => rangeBits entry.1 (entry.2 - 1) 0
  | .number _ => none
  | .bit value => some [.constant value]
  | .literal value width =>
    some ((List.range width).reverse.map fun position => .constant (value.testBit position))
  | .fill value width => some (List.replicate width (.constant value))
  | .index name position => scope.select? name position position
  | .slice name high low => scope.select? name high low
  | .concat parts => allBits? scope parts
  | .complement operand => (operand.bits? scope).map (·.map ExprBit.complement)
where
  allBits? (scope : Scope σ) : List Expr → Option (List (ExprBit σ))
    | [] => some []
    | part :: parts =>
      match part.bits? scope, allBits? scope parts with
      | some bits, some others => some (bits ++ others)
      | _, _ => none

theorem bits?_bitsOf {scope : Scope σ} {name : String} {signal : σ} {width high low : Int}
    (declared : scope name = some (signal, width)) (fitting : Word.fits width = true)
    (bounds : 0 ≤ low ∧ low ≤ high ∧ high < width) :
    (bitsOf name width high low).bits? scope = some (rangeBits signal high low) := by
  have lastFits : Word.fits (width - 1) = true := by
    rw [Word.fits_iff] at fitting ⊢
    simp only [Word.least, Word.greatest] at fitting ⊢
    omega
  simp only [bitsOf, Word.wrap_of_fits lastFits]
  split
  case isTrue whole =>
    have ends : high = width - 1 ∧ low = 0 := by
      simp only [Bool.or_eq_true, Bool.and_eq_true, beq_iff_eq] at whole
      omega
    simp only [bits?, declared, Option.map_some, ends.1, ends.2]
  case isFalse part =>
    have vector : 1 < width := by
      simp only [Bool.or_eq_true, Bool.and_eq_true, beq_iff_eq] at part
      omega
    simp only [bits?, Scope.select?, declared, vector, bounds, and_self, ↓reduceIte]

end Expr

variable {scope : Scope σ}

theorem length_rangeBits (signal : σ) (high low : Int) :
    (rangeBits signal high low).length = (high - low + 1).toNat := by
  simp [rangeBits]

namespace Expr

/-- The number of bits of an expression whose selections lie inside declared widths. -/
def size? (scope : Scope σ) (expression : Expr) : Option Nat :=
  (expression.bits? scope).map List.length

theorem size?_fill (value : Bool) (width : Nat) : (fill value width).size? scope = some width := by
  simp [size?, bits?]

theorem size?_literal (value width : Nat) : (literal value width).size? scope = some width := by
  simp [size?, bits?]

theorem size?_signal {name : String} {signal : σ} {width : Nat}
    (declared : scope name = some (signal, (width : Int))) :
    (Expr.signal name).size? scope = some width := by
  simp [size?, bits?, declared, length_rangeBits]

section

variable {name : String} {signal : σ} {width : Int} (declared : scope name = some (signal, width))
include declared

theorem size?_bitsOf {high low : Int} (fitting : Word.fits width = true)
    (bounds : 0 ≤ low ∧ low ≤ high ∧ high < width) :
    (bitsOf name width high low).size? scope = some (high - low + 1).toNat := by
  rw [size?, bits?_bitsOf declared fitting bounds, Option.map_some, length_rangeBits]

end

end Expr

end Schematic.Hdl

namespace Schematic.Assignment

open Hdl

variable {σ : Type}

/-- The bits of the target of an assignment, each with the bit it takes, most significant first.
Both sides must have equally many bits. -/
def links? (scope : Scope σ) (assignment : Assignment) : Option (List (ExprBit σ × ExprBit σ)) :=
  match assignment.target.bits? scope, assignment.source.bits? scope with
  | some target, some source =>
    if target.length = source.length then some (target.zip source) else none
  | _, _ => none

/-- The links of some assignments, one assignment after the other. -/
def allLinks? (scope : Scope σ) : List Assignment → Option (List (ExprBit σ × ExprBit σ))
  | [] => some []
  | assignment :: rest =>
    match assignment.links? scope, allLinks? scope rest with
    | some links, some others => some (links ++ others)
    | _, _ => none

theorem links?_of_map {α : Type} {scope : Scope σ} {assignment : Assignment} {items : List α}
    {target source : α → ExprBit σ}
    (targets : assignment.target.bits? scope = some (items.map target))
    (sources : assignment.source.bits? scope = some (items.map source)) :
    assignment.links? scope = some (items.map fun item => (target item, source item)) := by
  simp only [links?, targets, sources, length_map, ↓reduceIte, zip_map']

theorem allLinks?_filterMap {α : Type} {scope : Scope σ} {make : α → Option Assignment}
    {links : α → List (ExprBit σ × ExprBit σ)} {items : List α}
    (each : ∀ item ∈ items, match make item with
      | some assignment => assignment.links? scope = some (links item)
      | none => links item = []) :
    allLinks? scope (items.filterMap make) = some (items.flatMap links) := by
  induction items with
  | nil => rfl
  | cons item items ih =>
    have rest := ih fun item member => each item (mem_cons_of_mem _ member)
    have first := each item (mem_cons_self ..)
    cases made : make item with
    | none =>
      rw [made] at first
      simp only [filterMap_cons, made, flatMap_cons, first, nil_append, rest]
    | some assignment =>
      rw [made] at first
      simp only [filterMap_cons, made, allLinks?, first, rest, flatMap_cons]

end Schematic.Assignment
