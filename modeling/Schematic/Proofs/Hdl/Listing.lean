import Schematic.Proofs.Hdl.Reading
import Schematic.Proofs.Hdl.Spelled

/-! # Reading assignments back -/

open List (forall_mem_nil mem_append)

namespace Schematic

open Hdl Text Naming

/-- What a line of a body says. -/
inductive BodyLine where
  | assignment (target source : List Piece)
  | association (formal actual : List Piece)
  deriving DecidableEq, Repr

namespace Hdl.Dialect

def withoutLast? (c : Char) (text : List Char) : Option (List Char) :=
  if text.getLast? = some c then some text.dropLast else none

/-- The assignment of one text to another, up to a semicolon. -/
def readAssignment? (dialect : Dialect) (target source : List Char) : Option BodyLine := do
  let source ← withoutLast? ';' source
  return .assignment (← dialect.read target) (← dialect.read source)

/-- What a line says, if it is an assignment or an association. -/
def readLine? (dialect : Dialect) (line : String) : Option BodyLine :=
  match dialect with
  | .vhdl => do
    let (front, behind) ← splitFirst? ['='] line.toList
    match withoutLast? '<' front with
    | some target => readAssignment? .vhdl target behind
    | none =>
      let actual ← dropStart? ['>'] behind
      return .association (← Dialect.vhdl.read front)
        (← Dialect.vhdl.read ((withoutLast? ',' actual).getD actual))
  | .verilog =>
    let text := line.toList.dropWhile (· == ' ')
    match dropStart? "assign ".toList text with
    | some text => do
      let (target, source) ← splitFirst? ['='] text
      readAssignment? .verilog target source
    | none => do
      let text ← dropStart? ['.'] text
      let (formal, behind) ← splitFirst? ['('] text
      let actual ← withoutLast? ')' ((withoutLast? ',' behind).getD behind)
      return .association (← Dialect.verilog.read formal) (← Dialect.verilog.read actual)

end Hdl.Dialect

namespace Hdl

variable {dialect : Dialect} {target source : Expr} {places values : List Piece}

namespace Dialect

theorem withoutLast?_concat (c : Char) (text : List Char) :
    withoutLast? c (text ++ [c]) = some text := by
  simp [withoutLast?]

end Dialect

theorem Expr.Shows.not_mem_spell (shows : target.Shows places) {c : Char}
    (apart : c ∈ ['=', '\n']) :
    c ∉ (target.spell dialect).toList := by
  have marks : ∀ c ∈ ['=', '\n'], isSign c = true ∧ c ≠ '-' ∧ c.isDigit = false ∧
      c ∉ ['\'', '"', 'b'] ∧ ∀ dialect ∈ [Dialect.vhdl, .verilog],
        c ≠ dialect.opening ∧ c ≠ dialect.closing ∧ c ∉ dialect.between := by decide
  obtain ⟨sign, unsigned, other, unquoted, brackets⟩ := marks c apart
  have figures := not_mem_toString_int unsigned other
  obtain ⟨opening, closing, between⟩ := brackets dialect (by cases dialect <;> simp)
  cases shows with
  | whole plain named => exact plain.not_mem sign
  | @part name plain high low =>
    by_cases same : (high == low) = true
    · rw [Expr.spell, Dialect.slice.eq_def, if_pos same, Dialect.toList_index]
      simpa [plain.not_mem sign, opening, closing] using figures high
    · rw [Expr.spell, Dialect.toList_slice name same]
      simpa [plain.not_mem sign, opening, closing, between] using ⟨figures high, figures low⟩
  | literal value width =>
    intro member
    obtain digit | quoted := Dialect.mem_literal member
    · rw [digit] at other
      cases other
    · exact unquoted quoted

theorem readLine?_assign (place : target.Shows places) (value : source.Shows values) :
    dialect.readLine? (dialect.assign (target.spell dialect) (source.spell dialect)) =
      some (.assignment places values) := by
  have free : '=' ∉ (target.spell dialect).toList := place.not_mem_spell (by simp)
  have one : ∀ c ∈ [' '], c = ' ' := by simp
  cases dialect with
  | vhdl =>
    have form : (Dialect.vhdl.assign (target.spell .vhdl) (source.spell .vhdl)).toList =
        ([] ++ (target.spell .vhdl).toList ++ [' '] ++ ['<']) ++ (['='] ++
          ([' '] ++ (source.spell .vhdl).toList ++ [] ++ [';'])) := by
      simp [Dialect.assign]
    have apart : '=' ∉ [] ++ (target.spell .vhdl).toList ++ [' '] ++ ['<'] := by
      simp only [mem_append, not_or]
      exact ⟨⟨⟨List.not_mem_nil, free⟩, by decide⟩, by decide⟩
    rw [Dialect.readLine?, form, splitFirst?_pattern apart]
    simp only [Option.bind_eq_bind, Option.bind_some, Dialect.withoutLast?_concat,
      Dialect.readAssignment?, place.read_spell (forall_mem_nil _) one,
      value.read_spell one (forall_mem_nil _)]
    rfl
  | verilog =>
    have form : (Dialect.verilog.assign (target.spell .verilog) (source.spell .verilog)).toList =
        "assign ".toList ++ (([] ++ (target.spell .verilog).toList ++ [' ']) ++ (['='] ++
          ([' '] ++ (source.spell .verilog).toList ++ [] ++ [';']))) := by
      simp [Dialect.assign]
    have apart : '=' ∉ [] ++ (target.spell .verilog).toList ++ [' '] := by
      simp only [mem_append, not_or]
      exact ⟨⟨List.not_mem_nil, free⟩, by decide⟩
    have unindented : ∀ rest, ("assign ".toList ++ rest).dropWhile (· == ' ') =
        "assign ".toList ++ rest := fun _ => rfl
    simp only [Dialect.readLine?, form, unindented, dropStart?_eq_some.mpr rfl,
      splitFirst?_pattern apart, Option.bind_eq_bind, Option.bind_some, Dialect.readAssignment?,
      Dialect.withoutLast?_concat, place.read_spell (forall_mem_nil _) one,
      value.read_spell one (forall_mem_nil _)]
    rfl

theorem lines_assign (place : target.Shows places) (value : source.Shows values) :
    Assignment.lines ⟨target, source⟩ dialect =
      [dialect.assign (target.spell dialect) (source.spell dialect)] := by
  refine Scan.ofText_eq (Dialect.unbroken_assign (place.not_mem_spell (by simp))
    (value.not_mem_spell (by simp))) ?_
  refine Scan.isBlankText_eq_false (by decide : isBlank ';' = false) ?_
  cases dialect <;> simp [Dialect.assign]

end Hdl

theorem Statement.spell_assign (dialect : Dialect) (assignments : List Assignment) :
    spell dialect (assignments.map .assign) = assignments.flatMap (·.lines dialect) := by
  -- The lines are appended to those of the statements before, so the induction is on the last one.
  induction assignments using List.reverseRecOn with
  | nil => rfl
  | append_singleton before last ih =>
    rw [spell] at ih
    rw [spell, List.map_append, List.foldl_append, ih, List.flatMap_append, List.flatMap_singleton]
    rfl

end Schematic
