import Schematic.Proofs.Circuit.Vocabulary
import Schematic.Proofs.Circuit.ForcedRoots
import Schematic.Proofs.Hdl.Listing

/-! # Constants on their nets

The assignments of a constant, read back from their text in either dialect, put the bits of its
value in two's complement on the net bits of its ends. -/

open List

namespace Schematic

open Hdl Text Naming

theorem Hdl.isSign_of_mem_int {n : Int} {c : Char} (member : c ∈ (toString n).toList) :
    isSign c = false := by
  have none : ∀ sign ∈ " ()[]\x7b\x7d,&~'\"<=;:.\n".toList, sign ≠ '-' ∧ sign.isDigit = false := by
    decide
  by_contra listed
  rw [Bool.not_eq_false, isSign, isBreak, Bool.or_eq_true, contains_iff_mem,
    contains_iff_mem] at listed
  obtain ⟨unsigned, other⟩ := none c (mem_append.mpr listed)
  exact not_mem_toString_int unsigned other n member

theorem Net.plain_signal (net : Net) : Plain net.signal := by
  have fronts : ∀ front ∈ ["s_bus_", "s_net_"], front.toList.head? = some 's' ∧
      ∀ c ∈ front.toList, isSign c = false := by decide
  obtain ⟨front, listed, form⟩ : ∃ front ∈ ["s_bus_", "s_net_"],
      net.signal = front ++ toString net.id := by
    rw [signal]
    split
    · exact ⟨_, mem_cons_self .., rfl⟩
    · exact ⟨_, mem_cons_of_mem _ (mem_cons_self ..), rfl⟩
  obtain ⟨begins, free⟩ := fronts front listed
  have first : net.signal.toList.head? = some 's' := by
    rw [form, String.toList_append, head?_append, begins]
    rfl
  refine ⟨fun c member => ?_, ⟨?_, ?_⟩, fun c head => ?_⟩
  · rw [form, String.toList_append] at member
    exact (mem_append.mp member).elim (free c) Hdl.isSign_of_mem_int
  · intro same
    rw [same] at first
    cases first
  · intro same
    rw [same] at first
    cases first
  · cases first.symm.trans head
    decide

namespace Hdl.Piece

variable {σ : Type} {scope : Scope σ}

/-- The bits that a piece of a read text stands for. -/
def bits? (scope : Scope σ) : Piece → Option (List (ExprBit σ))
  | .number _ => none
  | .constant value => some [.constant value]
  | .whole name inverted => ((Expr.signal name).bits? scope).map (·.map (turned inverted))
  | .part name high low inverted => (scope.select? name high low).map (·.map (turned inverted))
where
  turned (inverted : Bool) (bit : ExprBit σ) : ExprBit σ :=
    if inverted then bit.complement else bit

def allBits? (scope : Scope σ) (pieces : List Piece) : Option (List (ExprBit σ)) :=
  (pieces.mapM (bits? scope)).map List.flatten

theorem allBits?_constants (scope : Scope σ) (values : List Bool) :
    allBits? scope (values.map .constant) = some (values.map .constant) := by
  have each : (values.map Piece.constant).mapM (bits? scope) =
      some (values.map fun value => [ExprBit.constant value]) := by
    rw [mapM_map]
    exact mapM_eq_pure_map fun _ _ => rfl
  rw [allBits?, each, Option.map_some, ← flatMap_def, ← map_eq_flatMap]

end Hdl.Piece

namespace Hdl.Expr

variable {σ : Type} {scope : Scope σ}

theorem Shows.allBits?_eq {expression : Expr} {pieces : List Piece}
    (shows : expression.Shows pieces) :
    Piece.allBits? scope pieces = expression.bits? scope := by
  have single : ∀ piece : Piece, Piece.allBits? scope [piece] = piece.bits? scope := by
    intro piece
    simp only [Piece.allBits?, mapM_cons, mapM_nil]
    cases piece.bits? scope <;> simp
  have straight : ∀ bits : List (ExprBit σ), bits.map (Piece.bits?.turned false) = bits :=
    fun bits => map_id' bits
  cases shows with
  | whole => simp [single, Piece.bits?, straight]
  | part => simp [single, Piece.bits?, straight, bits?]
  | literal value width =>
    have read := Piece.allBits?_constants scope
      ((List.range width).reverse.map value.testBit)
    rwa [map_map, map_map] at read

end Hdl.Expr

namespace BodyLine

variable {σ : Type} {scope : Scope σ}

/-- The pairs of bits that a line joins, if both of its sides have the same width. -/
def links? (scope : Scope σ) : BodyLine → Option (List (ExprBit σ × ExprBit σ))
  | .assignment target source =>
    match Piece.allBits? scope target, Piece.allBits? scope source with
    | some target, some source =>
      if target.length = source.length then some (target.zip source) else none
    | _, _ => none
  | .association _ _ => none

def allLinks? (scope : Scope σ) (lines : List BodyLine) : Option (List (ExprBit σ × ExprBit σ)) :=
  (lines.mapM (links? scope)).map List.flatten

/-- Reading assignments back from their lines gives the bits that they link. -/
theorem allLinks?_readLine? {dialect : Dialect} {assignments : List Assignment}
    (shown : ∀ assignment ∈ assignments, (∃ places, assignment.target.Shows places) ∧
      ∃ values, assignment.source.Shows values) :
    allLinks? scope ((Statement.spell dialect (assignments.map .assign)).filterMap
      dialect.readLine?) = Assignment.allLinks? scope assignments := by
  rw [Statement.spell_assign]
  induction assignments with
  | nil => rfl
  | cons assignment assignments ih =>
    obtain ⟨⟨⟨places, place⟩, values, value⟩, others⟩ := forall_mem_cons.mp shown
    have link : links? scope (.assignment places values) = assignment.links? scope := by
      rw [links?, place.allBits?_eq, value.allBits?_eq]
      rfl
    rw [Assignment.allLinks?, ← ih others, flatMap_cons, filterMap_append, lines_assign place value,
      filterMap_cons_some (readLine?_assign place value), filterMap_nil, singleton_append]
    simp only [allLinks?, mapM_cons, link]
    cases assignment.links? scope with
    | none => rfl
    | some links =>
      cases ((assignments.flatMap (·.lines dialect)).filterMap dialect.readLine?).mapM
          (links? scope) with
      | none => rfl
      | some others => simp

end BodyLine

theorem Net.signal_ne_empty (net : Net) : net.signal ≠ "" := by
  intro empty
  have none := congrArg String.toList empty
  rw [signal] at none
  split at none <;> simp at none

theorem Word.testBit_unsigned (value : Int) (position : Nat) :
    (unsigned value).testBit position = (BitVec.ofInt 64 value).getLsbD position := by
  rw [BitVec.getLsbD, BitVec.toNat_ofInt]
  rfl

namespace WiringContext

variable {context : WiringContext}

/-- The bits of a constant of `value` on the net bits of an end, most significant first. -/
def constantLinks (value : Int) (points : List Point) :
    List (ExprBit PortSignal × ExprBit PortSignal) :=
  (points.zipIdx.filter (·.1.isConnected)).reverse.map fun entry =>
    (.wired (.net entry.1.net) entry.1.bit, .constant ((BitVec.ofInt 64 value).getLsbD entry.2))

theorem bits?_literal_run {σ : Type} {scope : Scope σ} {run : Run} (ordered : run.low ≤ run.high)
    (value : Nat) : (Expr.literal (value >>> run.low) run.width).bits? scope =
      some (run.spread.map fun entry => .constant (value.testBit entry.2)) := by
  rw [Expr.bits?, Run.spread, map_map, Option.some.injEq]
  refine ext_getElem (by simp) fun position first second => ?_
  simp only [length_map, length_reverse, length_range, Run.width] at first
  simp only [getElem_map, getElem_reverse, length_range, getElem_range, Function.comp_apply,
    Nat.testBit_shiftRight, Run.width]
  congr 2
  omega

def constantPart (circuit : Circuit) (component : Component) : List Assignment :=
  component.ends.flatMap fun e => (runs e.points).filterMap fun run =>
    run.source.map fun range =>
      ⟨circuit.rangeOf range, .literal (constantValue component >>> run.low) run.width⟩

theorem allLinks?_constantPart {circuit : Circuit} {component : Component}
    (carries : ∀ e ∈ component.ends, circuit.Carries e.points) :
    Assignment.allLinks? circuit.netScope (constantPart circuit component) =
      some (component.ends.flatMap fun e =>
        constantLinks (component.attributes.int "value" 0) e.points) := by
  refine Assignment.allLinks?_flatMap fun e listed => ?_
  have own := carries e listed
  have nets := fun net => @Circuit.netScope_signal circuit own.indexed net
  simp only [constantLinks, ← Word.testBit_unsigned]
  exact own.allLinks?_runs fun run member range source =>
    Assignment.links?_of_map (own.bits?_rangeOf nets member source)
      (bits?_literal_run (coherent_of_mem_runs own.counted member).ordered _)

/-- Every constant drives the connected points of its ends, and only these, with the bits of its
value in two's complement and zeros from bit 64 on. Its lines say so in both dialects. -/
theorem constants_drive_ends {draft : DraftCircuit} (checked : draft.check = .ok context.circuit)
    (words : ∀ net ∈ context.circuit.nets, Word.fits net.width = true) :
    ∃ part : Component → List Assignment,
      context.constants = (context.circuit.componentsOf .constant).flatMap part ∧
      ∀ component ∈ context.circuit.componentsOf .constant, ∀ dialect : Dialect,
        BodyLine.allLinks? context.circuit.netScope
          ((Statement.spell dialect ((part component).map .assign)).filterMap dialect.readLine?) =
            some (component.ends.flatMap fun e =>
              constantLinks (component.attributes.int "value" 0) e.points) := by
  refine ⟨constantPart context.circuit, rfl, fun component member dialect => ?_⟩
  have home := (Design.mem_componentsOf.mp member).1
  have indexed := (DraftCircuit.indexed_of_check checked).2
  have placed := DraftCircuit.placed_of_check checked
  have carries : ∀ e ∈ component.ends, context.circuit.Carries e.points := fun e listed =>
    ⟨indexed, words, placed.ends component home e listed⟩
  rw [BodyLine.allLinks?_readLine?, allLinks?_constantPart carries]
  intro assignment listed
  obtain ⟨e, own, listed⟩ := mem_flatMap.mp listed
  obtain ⟨run, present, made⟩ := mem_filterMap.mp listed
  obtain ⟨range, source, rfl⟩ := Option.map_eq_some_iff.mp made
  obtain ⟨net, found, _⟩ := (carries e own).range_inside present source
  refine ⟨?_, _, .literal _ _⟩
  simp only [Circuit.rangeOf, found, Expr.bitsOf]
  split
  · exact ⟨_, .whole net.plain_signal net.signal_ne_empty⟩
  · exact ⟨_, .part net.plain_signal _ _⟩

/-- A constant of -2 on the bits 3 and 64 of an end. -/
theorem constants_drive_ends_negative :
    let points := (List.range 65).map fun position : Nat =>
      if position = 3 then ⟨0, 1⟩ else if position = 64 then ⟨0, 0⟩ else Point.unconnected
    let constant : Component := ⟨1, .constant, [("value", "-2")], [⟨"Out", true, points⟩], ""⟩
    let main : Circuit := ⟨"main", [⟨0, 2, false, [], [], none⟩], [constant], none⟩
    let context : WiringContext := ⟨⟨"d", "main", [main], []⟩, main, "main", 0, {}, {}⟩
    ∃ part, context.constants = part ∧ ∀ dialect : Dialect, BodyLine.allLinks? main.netScope
      ((Statement.spell dialect (part.map .assign)).filterMap dialect.readLine?) =
        some [(.wired (.net 0) 0, .constant false), (.wired (.net 0) 1, .constant true)] := by
  intro points constant main context
  have checked : DraftCircuit.check ⟨"main", main.nets, [some constant], none⟩ =
      .ok context.circuit := by rfl
  obtain ⟨part, split, each⟩ := constants_drive_ends checked (by decide)
  have only : context.circuit.componentsOf .constant = [constant] := by rfl
  rw [only, flatMap_singleton] at split
  refine ⟨_, split, fun dialect => (each constant (by rw [only]; simp) dialect).trans ?_⟩
  decide +kernel

end WiringContext

end Schematic
