import Schematic.Hdl.Instance
import Schematic.Proofs.Naming.Legal

/-! # Names in written expressions -/

open List

namespace Schematic

open Text Naming

namespace Text

@[simp] theorem toString_text (text : String) : toString text = text := rfl

@[simp] theorem unbroken_nat (n : Nat) : Unbroken (toString n) := by
  intro member
  have digit := isDigit_of_mem_toString member
  exact absurd digit (by decide)

@[simp] theorem unbroken_int (n : Int) : Unbroken (toString n) :=
  not_mem_toString_int (by decide) (by decide) n

end Text

namespace Naming

variable {name : String}

def Named (name : String) : Prop :=
  ∀ c ∈ name.toList, isNameChar c = true

theorem Named.not_mem (named : Named name) {c : Char}
    (other : isNameChar c = false) : c ∉ name.toList := by
  intro member
  rw [named c member] at other
  cases other

theorem Named.unbroken (named : Named name) : Unbroken name :=
  named.not_mem (by decide)

end Naming

namespace Hdl

namespace Dialect

variable {dialect : Dialect}

theorem unbroken_assign {target source : String} (first : Unbroken target)
    (second : Unbroken source) : Unbroken (dialect.assign target source) := by
  cases dialect <;> simp only [assign, unbroken_append, toString_text, first, second] <;> decide

end Dialect

namespace Expr

variable {good : String → Prop}

/-- An expression that can be assigned to, of a good name. -/
inductive IsPlace (good : String → Prop) : Expr → Prop
  | signal {name : String} : good name → IsPlace good (.signal name)
  | index {name : String} (position : Int) : good name → IsPlace good (.index name position)
  | slice {name : String} (high low : Int) : good name → IsPlace good (.slice name high low)

theorem isPlace_bitsOf {name : String} (named : good name)
    (width high low : Int) : (bitsOf name width high low).IsPlace good := by
  rw [bitsOf]
  split
  · exact .signal named
  · exact .slice high low named

end Expr

end Hdl

end Schematic
