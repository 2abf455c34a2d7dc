import Schematic.Hdl.Unit
import Schematic.Proofs.Scan.Line

/-! # Commented headers

The header of a file is a frame of comments. A line break in one of its texts leads out of the
comment: the further lines of a text stand there as they are. -/

open List

namespace Schematic

namespace Hdl

open Text

variable {dialect : Dialect}

/-- The lines of a file as its line breaks end them. -/
def Lines.physical (lines : List String) : List String :=
  (Text.lines (toText lines)).dropLast

/-- The line is a comment of the dialect. -/
def Commented (dialect : Dialect) (line : String) : Prop :=
  startsWith line dialect.commentMark = true

instance (dialect : Dialect) (line : String) : Decidable (Commented dialect line) :=
  inferInstanceAs (Decidable (_ = true))

theorem commented_append (dialect : Dialect) (text : String) :
    Commented dialect (dialect.commentMark ++ text) := by
  rw [Commented, startsWith, String.toList_append, dropStart?_eq_some.mpr rfl]
  rfl

theorem unbroken_commentMark (dialect : Dialect) : Unbroken dialect.commentMark := by
  cases dialect <;> decide

theorem physical_remark (dialect : Dialect) (texts : List String) :
    Lines.physical (Lines.remark dialect texts) =
      (dialect.commentMark ++ repeated 74 "=") ::
        texts.flatMap (fun text => lines (dialect.commentMark ++ "== " ++ text)) ++
          [dialect.commentMark ++ repeated 74 "="] := by
  have rule : lines (dialect.commentMark ++ repeated 74 "=") =
      [dialect.commentMark ++ repeated 74 "="] :=
    lines_of_unbroken (unbroken_append.mpr ⟨unbroken_commentMark dialect, by decide⟩)
  have placed : ∀ text, Lines.place 0 (dialect.commentMark ++ "== " ++ text) =
      dialect.commentMark ++ "== " ++ text := by
    intro text
    refine Scan.place_zero ?_
    rw [Scan.isBlankText_append, Scan.isBlankText_append]
    cases dialect <;> rfl
  rw [Lines.physical, Scan.lines_toText, dropLast_concat]
  simp only [Lines.remark, cons_append, flatMap_cons, flatMap_append, flatMap_nil, append_nil,
    flatMap_map, placed, rule, nil_append]

theorem commented_lines_iff (text : String) :
    (∀ line ∈ lines (dialect.commentMark ++ "== " ++ text), Commented dialect line) ↔
      ∀ line ∈ (lines text).tail, Commented dialect line := by
  have front : Unbroken (dialect.commentMark ++ "== ") :=
    unbroken_append.mpr ⟨unbroken_commentMark dialect, by decide⟩
  obtain ⟨first, rest, same, longer⟩ := exists_lines_append front text
  rw [longer, same, forall_mem_cons, String.append_assoc]
  exact and_iff_right (commented_append dialect _)

/-- A header is commented line by line exactly if the further lines of its texts are. -/
theorem banner_commented_iff (dialect : Dialect) (name : String) (notes : List String) :
    (∀ line ∈ Lines.physical (banner dialect name notes), Commented dialect line) ↔
      ∀ text ∈ name :: notes, ∀ line ∈ (lines text).tail, Commented dialect line := by
  have first : (lines "Generated by hdlgen").tail = [] := by
    rw [lines_of_unbroken (by decide), tail_cons]
  have second : (lines ("Component : " ++ name)).tail = (lines name).tail := by
    have front : Unbroken "Component : " := by decide
    obtain ⟨_, _, same, longer⟩ := exists_lines_append front name
    rw [same, longer, tail_cons, tail_cons]
  have rule := commented_append dialect (repeated 74 "=")
  rw [banner, physical_remark]
  simp only [forall_mem_cons, forall_mem_append, forall_mem_flatMap, commented_lines_iff, first,
    second, rule, not_mem_nil, false_imp_iff, implies_true, true_and, and_true]

/-- A circuit name can bring lines of its own into the header of its module. -/
theorem banner_lets_lines_out : Unbroken "main" ∧
    ¬∀ line ∈ Lines.physical (banner .verilog "main" ["Circuit   : a\nmodule b;"]),
      Commented .verilog line := by
  refine ⟨by decide, fun commented => ?_⟩
  rw [banner, physical_remark] at commented
  have out : "module b;" ∈
      lines (Dialect.verilog.commentMark ++ "== " ++ "Circuit   : a\nmodule b;") := by
    decide
  exact absurd (commented "module b;" (by simp [out])) (by decide)

end Hdl

end Schematic
