import Schematic.Component.Unit
import Schematic.Proofs.Naming.Legal
import Schematic.Proofs.Netlist.Attributes

/-! # Signatures of components -/

open List
open String (toList toList_append)

namespace Schematic

open Text

namespace Kind

def leaves : List Kind :=
  [.and, .or, .xor, .nand, .nor, .xnor, .not, .buffer, .mux, .adder, .multiplier, .register, .rom,
    .ram, .led, .button, .dipSwitch, .portIO, .hdl]

theorem eq_of_name {first second : Kind} (firstLeaf : first ∈ leaves) (secondLeaf : second ∈ leaves)
    (same : first.name = second.name) : first = second := by
  have all : ∀ first ∈ leaves, ∀ second ∈ leaves, first.name = second.name → first = second := by
    decide
  exact all first firstLeaf second secondLeaf same

theorem bar_not_mem_name {kind : Kind} (leaf : kind ∈ leaves) : '|' ∉ kind.name.toList := by
  have all : ∀ kind ∈ leaves, '|' ∉ kind.name.toList := by decide
  exact all kind leaf

end Kind

theorem not_mem_toDigits {mark : Char} (strange : mark.isDigit = false) (n : Nat) :
    mark ∉ Nat.toDigits 10 n := by
  intro member
  rw [Nat.isDigit_of_mem_toDigits (by omega) (by omega) member] at strange
  cases strange

theorem toDigits_append_inj {m n : Nat} {first second : List Char}
    (same : Nat.toDigits 10 m ++ ',' :: first = Nat.toDigits 10 n ++ ',' :: second) :
    m = n ∧ first = second := by
  obtain ⟨numerals, rests⟩ :=
    split_unique (not_mem_toDigits rfl m) (not_mem_toDigits rfl n) same
  exact ⟨toDigits_injective numerals, rests⟩

theorem Naming.IsIdentifier.bar_not_mem {name : String} (identifier : Naming.IsIdentifier name) :
    '|' ∉ name.toList := by
  intro member
  cases identifier.chars _ member

theorem Trigger.token_injective {first second : Trigger} (same : first.token = second.token) :
    first = second := by
  cases first <;> cases second <;> first | rfl | exact absurd same (by decide)

namespace Variant

theorem busShape_append_inj {first second : Bool} {firstRest secondRest : List Char}
    (same : (busShape first).toList ++ firstRest = (busShape second).toList ++ secondRest) :
    first = second ∧ firstRest = secondRest := by
  cases first <;> cases second <;> simp [busShape] at same ⊢ <;> exact same

theorem busShape_injective {first second : Bool} (same : busShape first = busShape second) :
    first = second := by
  have lists := congrArg (fun text => text.toList ++ []) same
  exact (busShape_append_inj lists).1

theorem shape_gate (operator : GateOperator) (inputs : Nat) (bus : Bool) :
    (gate operator inputs bus).shape = busShape bus ++ (",inputs=" ++ toString inputs) := rfl

theorem shape_mux (select : Nat) (bus : Bool) :
    (mux select bus).shape = busShape bus ++ (",select=" ++ toString select) := rfl

theorem shape_register (bus : Bool) (trigger : Trigger) :
    (register bus trigger).shape = busShape bus ++ ",trigger=" ++ trigger.token := rfl

theorem shape_rom (addressBits dataBits lanes : Nat) :
    (rom addressBits dataBits lanes).shape = "addr=" ++ toString addressBits ++ ",data=" ++
      toString dataBits ++ ",lines=" ++ toString lanes := rfl

theorem shape_ram (addressBits dataBits : Nat) (trigger : Trigger) :
    (ram addressBits dataBits trigger).shape = "addr=" ++ toString addressBits ++ ",data=" ++
      toString dataBits ++ ",trigger=" ++ trigger.token := rfl

theorem shape_dipSwitch (width : Nat) : (dipSwitch width).shape = "width=" ++ toString width := rfl

section Shapes

variable {first second : Bool} {m n addressBits otherBits : Nat} {trigger other : Trigger}

theorem gate_of_shape {operator : GateOperator}
    (same : (gate operator m first).shape = (gate operator n second).shape) :
    gate operator m first = gate operator n second := by
  have lists := congrArg toList same
  simp only [shape_gate, toList_append, toList_toString] at lists
  obtain ⟨bus, rests⟩ := busShape_append_inj lists
  have inputs := toDigits_injective (append_cancel_left rests)
  rw [bus, inputs]

theorem mux_of_shape (same : (mux m first).shape = (mux n second).shape) :
    mux m first = mux n second := by
  have lists := congrArg toList same
  simp only [shape_mux, toList_append, toList_toString] at lists
  obtain ⟨bus, rests⟩ := busShape_append_inj lists
  have select := toDigits_injective (append_cancel_left rests)
  rw [bus, select]

theorem register_of_shape (same : (register first trigger).shape = (register second other).shape) :
    register first trigger = register second other := by
  have lists := congrArg toList same
  simp only [shape_register, toList_append, append_assoc] at lists
  obtain ⟨bus, rests⟩ := busShape_append_inj lists
  have tokens := String.toList_inj.mp (append_cancel_left rests)
  rw [bus, Trigger.token_injective tokens]

theorem ram_of_shape (same : (ram addressBits m trigger).shape = (ram otherBits n other).shape) :
    ram addressBits m trigger = ram otherBits n other := by
  have lists := congrArg toList same
  simp only [shape_ram, toList_append, toList_toString, append_assoc] at lists
  have comma : ∀ rest, ",data=".toList ++ rest = ',' :: ("data=".toList ++ rest) := fun _ => rfl
  have lastComma : ∀ rest, ",trigger=".toList ++ rest = ',' :: ("trigger=".toList ++ rest) :=
    fun _ => rfl
  rw [comma, comma, lastComma, lastComma] at lists
  obtain ⟨address, rests⟩ := toDigits_append_inj (append_cancel_left lists)
  obtain ⟨data, triggers⟩ := toDigits_append_inj (append_cancel_left rests)
  have tokens := String.toList_inj.mp (append_cancel_left triggers)
  rw [address, data, Trigger.token_injective tokens]

theorem dipSwitch_of_shape (same : (dipSwitch m).shape = (dipSwitch n).shape) : m = n := by
  have lists := congrArg toList same
  simp only [shape_dipSwitch, toList_append, toList_toString] at lists
  exact toDigits_injective (append_cancel_left lists)

end Shapes

theorem bar_not_mem_shape (variant : Variant) : '|' ∉ variant.shape.toList := by
  have numeral := not_mem_toDigits (rfl : '|'.isDigit = false)
  have bus : ∀ bus, '|' ∉ (busShape bus).toList := by decide
  have trigger : ∀ trigger : Trigger, '|' ∉ trigger.token.toList := by
    intro trigger
    cases trigger <;> decide
  have width : ∀ width, '|' ∉ (dipSwitch width).shape.toList := by
    simp [shape_dipSwitch, numeral]
  cases variant with
  | gate operator inputs isBus => simp [shape_gate, numeral, bus]
  | mux select isBus => simp [shape_mux, numeral, bus]
  | register isBus edge => simp [shape_register, bus, trigger]
  | rom addressBits dataBits lanes => simp [shape_rom, numeral]
  | ram addressBits dataBits edge => simp [shape_ram, numeral, trigger]
  | buffer _ isBus | adder isBus | multiplier isBus => exact bus isBus
  | dipSwitch bits | portIO bits => exact width bits
  | led | button | external => exact not_mem_nil

end Variant

namespace Component

variable {first second : Component} {variant other : Variant}

theorem kind_mem_leaves (known : first.variant? = some variant) : first.kind ∈ Kind.leaves := by
  cases kind : first.kind <;> simp [variant?, kind] at known <;> simp [Kind.leaves]

theorem isLabelSpecific_eq (known : first.variant? = some variant) :
    variant.isLabelSpecific = (first.kind = .rom || first.kind = .hdl) := by
  cases kind : first.kind <;> simp [variant?, kind] at known <;> subst known <;>
    simp [Variant.isLabelSpecific]

theorem variant_eq_of_shape (kinds : first.kind = second.kind)
    (known : first.variant? = some variant) (otherKnown : second.variant? = some other)
    (general : variant.isLabelSpecific = false) (same : variant.shape = other.shape) :
    variant = other := by
  cases kind : first.kind with
  | and | or | xor | nand | nor | xnor =>
    simp only [variant?, kind, ← kinds, Option.some.injEq] at known otherKnown
    subst known otherKnown
    exact Variant.gate_of_shape same
  | not | buffer | adder | multiplier =>
    simp only [variant?, kind, ← kinds, Option.some.injEq] at known otherKnown
    subst known otherKnown
    rw [Variant.busShape_injective same]
  | mux =>
    simp only [variant?, kind, ← kinds, Option.some.injEq] at known otherKnown
    subst known otherKnown
    exact Variant.mux_of_shape same
  | register =>
    simp only [variant?, kind, ← kinds, Option.some.injEq] at known otherKnown
    subst known otherKnown
    exact Variant.register_of_shape same
  | ram =>
    simp only [variant?, kind, ← kinds, Option.some.injEq] at known otherKnown
    subst known otherKnown
    exact Variant.ram_of_shape same
  | dipSwitch | portIO =>
    simp only [variant?, kind, ← kinds, Option.some.injEq] at known otherKnown
    subst known otherKnown
    rw [Variant.dipSwitch_of_shape same]
  | led | button =>
    simp only [variant?, kind, ← kinds, Option.some.injEq] at known otherKnown
    rw [← known, ← otherKnown]
  | rom | hdl =>
    rw [isLabelSpecific_eq known, kind] at general
    simp at general
  | constant | pin | clock | dynamicClock | subcircuit | unknown =>
    simp only [variant?, kind, reduceCtorEq] at known

/-- The circuit and attributes that tell components with modules of their own apart. -/
def specificText (component : Component) (circuit : String) : String :=
  circuit ++ "|" ++ component.attributes.canonical

theorem toList_signature (known : first.variant? = some variant) (circuit base : String) :
    (first.signature circuit base).toList = first.kind.name.toList ++ '|' ::
      (base.toList ++ '|' :: (variant.shape.toList ++
        if variant.isLabelSpecific then '|' :: (first.specificText circuit).toList else [])) := by
  simp only [signature, known]
  split <;> simp [specificText]

theorem signature_eq_iff (known : first.variant? = some variant)
    (otherKnown : second.variant? = some other) {circuit otherCircuit base otherBase : String}
    (identifier : Naming.IsIdentifier base) (otherIdentifier : Naming.IsIdentifier otherBase) :
    first.signature circuit base = second.signature otherCircuit otherBase ↔
      first.kind = second.kind ∧ base = otherBase ∧ variant.shape = other.shape ∧
        (variant.isLabelSpecific = true →
          first.specificText circuit = second.specificText otherCircuit) := by
  have specific := isLabelSpecific_eq known
  have otherSpecific := isLabelSpecific_eq otherKnown
  constructor
  · intro same
    have lists := congrArg toList same
    rw [toList_signature known, toList_signature otherKnown] at lists
    obtain ⟨names, lists⟩ := split_unique (Kind.bar_not_mem_name (kind_mem_leaves known))
      (Kind.bar_not_mem_name (kind_mem_leaves otherKnown)) lists
    obtain ⟨bases, lists⟩ := split_unique identifier.bar_not_mem otherIdentifier.bar_not_mem lists
    have kinds := Kind.eq_of_name (kind_mem_leaves known) (kind_mem_leaves otherKnown)
      (String.toList_inj.mp names)
    have alike : other.isLabelSpecific = variant.isLabelSpecific := by
      rw [specific, otherSpecific, kinds]
    rw [alike] at lists
    refine ⟨kinds, String.toList_inj.mp bases, ?_⟩
    cases own : variant.isLabelSpecific with
    | false =>
      simp only [own, Bool.false_eq_true, ↓reduceIte, append_nil] at lists
      exact ⟨String.toList_inj.mp lists, fun absent => by cases absent⟩
    | true =>
      simp only [own, ↓reduceIte] at lists
      obtain ⟨shapes, texts⟩ :=
        split_unique variant.bar_not_mem_shape other.bar_not_mem_shape lists
      exact ⟨String.toList_inj.mp shapes, fun _ => String.toList_inj.mp texts⟩
  · rintro ⟨kinds, bases, shapes, texts⟩
    have alike : other.isLabelSpecific = variant.isLabelSpecific := by
      rw [specific, otherSpecific, kinds]
    rw [← String.toList_inj, toList_signature known, toList_signature otherKnown, kinds, bases,
      shapes, alike]
    cases own : variant.isLabelSpecific with
    | false => simp only [Bool.false_eq_true, ↓reduceIte]
    | true => simp only [↓reduceIte, texts own]

end Component

end Schematic
