import Schematic.Proofs.Circuit.Planning
import Schematic.Proofs.Component.Signature

/-! # Shared modules -/

namespace Schematic

open Hdl

/-- Both computations fail, or both give the same. -/
def Agree {ε α : Type} (first second : Except ε α) : Prop :=
  (∃ failure other, first = .error failure ∧ second = .error other) ∨
    ∃ result, first = .ok result ∧ second = .ok result

namespace Agree

variable {ε α : Type}

theorem refl (outcome : Except ε α) : Agree outcome outcome := by
  cases outcome with
  | error failure => exact .inl ⟨failure, failure, rfl, rfl⟩
  | ok result => exact .inr ⟨result, rfl, rfl⟩

theorem error (failure other : ε) : Agree (.error failure : Except ε α) (.error other) :=
  .inl ⟨failure, other, rfl, rfl⟩

end Agree

namespace Component

variable {first second : Component}

theorem externalText_agree (attributes : first.attributes = second.attributes)
    (settings : Settings) (module : String) :
    Agree (first.externalText settings module) (second.externalText settings module) := by
  simp only [externalText, attributes]
  split
  · exact .refl _
  · cases settings.library with
    | none => exact .error _ _
    | some library => exact .refl _

theorem externalUnit_agree (attributes : first.attributes = second.attributes)
    (settings : Settings) (module category : String)
    (ports : Except PortListError (List ExternalPort)) :
    Agree (first.externalUnit settings module category ports)
      (second.externalUnit settings module category ports) := by
  have texts := externalText_agree attributes settings module
  simp only [externalUnit, attributes, Bind.bind, Except.bind, pure, Except.pure]
  cases Dialect.named (second.attributes.text "language" settings.dialect.name) with
  | error unknown => exact .error _ _
  | ok dialect =>
    dsimp only
    by_cases foreign : dialect ≠ settings.dialect
    · rw [if_pos foreign, if_pos foreign]
      exact .error _ _
    rw [if_neg foreign, if_neg foreign]
    cases ports with
    | error fault => exact .error _ _
    | ok ports =>
      obtain ⟨failure, other, failed, otherFailed⟩ | ⟨text, read, otherRead⟩ := texts
      · simp only [failed, otherFailed]
        exact .error _ _
      · simp only [read, otherRead]
        by_cases blank : Text.isBlankText text = true
        · rw [if_pos blank, if_pos blank]
          exact .error _ _
        rw [if_neg blank, if_neg blank]
        split
        · exact .error _ _
        · exact .refl _

theorem variant?_congr (kinds : first.kind = second.kind)
    (attributes : first.attributes = second.attributes) : first.variant? = second.variant? := by
  obtain ⟨_, _, _, _, _⟩ := first
  obtain ⟨_, _, _, _, _⟩ := second
  obtain rfl := kinds
  obtain rfl := attributes
  rfl

theorem attachments_eq {variant : Variant}
    (attributes : variant.isLabelSpecific = true → first.attributes = second.attributes)
    (vendor : Vendor) (module : String) :
    first.attachments variant vendor module = second.attachments variant vendor module := by
  cases variant with
  | rom addressBits dataBits lanes => simp only [attachments, attributes rfl]
  | _ => rfl

theorem unit_agree {variant : Variant} (kinds : first.kind = second.kind)
    (known : first.variant? = some variant) (otherKnown : second.variant? = some variant)
    (attributes : variant.isLabelSpecific = true → first.attributes = second.attributes)
    (settings : Settings) (circuit otherCircuit module : String) :
    Agree (first.unit settings circuit (some module))
      (second.unit settings otherCircuit (some module)) := by
  have attached := attachments_eq attributes settings.vendor module
  cases variant with
  | external ports =>
    simp only [unit, known, otherKnown, plannedModule, Bind.bind, Except.bind]
    exact externalUnit_agree (attributes rfl) settings module _ ports
  | _ =>
    simp only [unit, known, otherKnown, plannedModule, Bind.bind, Except.bind, attached, kinds]
    exact .refl _

/-- An attribute name that holds a quote or a bar, which the text of attributes does not mark. -/
def HasUnmarkedName (component : Component) : Prop :=
  ∃ entry ∈ component.attributes, '"' ∈ entry.1.toList ∨ '|' ∈ entry.1.toList

theorem attributes_of_specificText {circuit otherCircuit : String}
    (same : first.specificText circuit = second.specificText otherCircuit) :
    first.attributes = second.attributes ∨ first.HasUnmarkedName ∨ second.HasUnmarkedName := by
  by_cases firstMarked : first.HasUnmarkedName
  · exact .inr (.inl firstMarked)
  by_cases secondMarked : second.HasUnmarkedName
  · exact .inr (.inr secondMarked)
  left
  simp only [HasUnmarkedName, not_exists, not_and, not_or] at firstMarked secondMarked
  exact Attributes.eq_of_barred_canonical
    (fun entry member => (firstMarked entry member).1)
    (fun entry member => (firstMarked entry member).2)
    (fun entry member => (secondMarked entry member).1)
    (fun entry member => (secondMarked entry member).2) same

end Component

/-- **When components share a module.** Two planned components get one module name exactly if they
have one kind, ask for one name and have one shape, and one specific text where the module depends
on the component. Such components have the same module, or none of them has one, unless they
differ in attributes of which one has a name with a quote or a bar. -/
theorem Design.plan_shares_exactly {draft : Draft} {design : Design} {settings : Settings}
    {names : Names} (checked : draft.check = .ok design)
    (planned : (design.plan settings).1 = .ok names)
    {circuit otherCircuit : Circuit} (member : circuit ∈ design.circuits)
    (otherMember : otherCircuit ∈ design.circuits) {first second : Component}
    (present : first ∈ circuit.components) (otherPresent : second ∈ otherCircuit.components)
    {module otherModule : String}
    (named : names.module? circuit.name first.id = some module)
    (otherNamed : names.module? otherCircuit.name second.id = some otherModule) :
    ∃ variant other, first.variant? = some variant ∧ second.variant? = some other ∧
      (module = otherModule ↔
        first.kind = second.kind ∧
          first.baseName settings circuit.name variant =
            second.baseName settings otherCircuit.name other ∧
          variant.shape = other.shape ∧
          (variant.isLabelSpecific = true →
            first.specificText circuit.name = second.specificText otherCircuit.name)) ∧
      (module = otherModule →
        Agree (first.unit settings circuit.name (some module))
            (second.unit settings otherCircuit.name (some otherModule)) ∨
          (variant.isLabelSpecific = true ∧ first.attributes ≠ second.attributes ∧
            (first.HasUnmarkedName ∨ second.HasUnmarkedName))) := by
  have indexed := Draft.indexed_of_check checked
  obtain ⟨planning, rfl, consistent⟩ := Design.exists_planning planned
  obtain ⟨variant, claimed⟩ := consistent.claimed indexed member present named
  obtain ⟨other, otherClaimed⟩ := consistent.claimed indexed otherMember otherPresent otherNamed
  have shared := (consistent.sound.name_eq_iff claimed.given otherClaimed.given).trans
    (Component.signature_eq_iff claimed.variant_eq otherClaimed.variant_eq
      (first.isIdentifier_baseName settings circuit.name variant)
      (second.isIdentifier_baseName settings otherCircuit.name other))
  refine ⟨variant, other, claimed.variant_eq, otherClaimed.variant_eq, shared, ?_⟩
  intro same
  obtain ⟨kinds, _, shapes, texts⟩ := shared.mp same
  rw [← same]
  cases own : variant.isLabelSpecific with
  | false =>
    obtain rfl := Component.variant_eq_of_shape kinds claimed.variant_eq
      otherClaimed.variant_eq own shapes
    exact .inl (Component.unit_agree kinds claimed.variant_eq otherClaimed.variant_eq
      (fun specific => by rw [own] at specific; cases specific) settings _ _ module)
  | true =>
    by_cases attributes : first.attributes = second.attributes
    · left
      have variants : other = variant := by
        have known := claimed.variant_eq
        rw [Component.variant?_congr kinds attributes, otherClaimed.variant_eq] at known
        exact Option.some.inj known
      exact Component.unit_agree kinds claimed.variant_eq (variants ▸ otherClaimed.variant_eq)
        (fun _ => attributes) settings _ _ module
    · right
      refine ⟨rfl, attributes, ?_⟩
      exact (Component.attributes_of_specificText (texts own)).resolve_left attributes

/-- Two memories with the same label and contents share one module. -/
theorem Design.plan_shares_twin_memories :
    let memory (id : Int) : Component :=
      ⟨id, .rom, [("contents", "2*5"), ("dataBits", "4"), ("label", "a\"|b")], [], ""⟩
    Agree ((memory 1).unit {} "main" (some "main_ROM_a_b"))
      ((memory 2).unit {} "main" (some "main_ROM_a_b")) := by
  intro memory
  have checked : Draft.check ⟨"d", "main",
      [some ⟨"main", [], [some (memory 1), some (memory 2)], none⟩], []⟩ =
        .ok ⟨"d", "main", [⟨"main", [], [memory 1, memory 2], none⟩], []⟩ := by rfl
  have modules : (Design.plan ⟨"d", "main", [⟨"main", [], [memory 1, memory 2], none⟩], []⟩
      {}).1.toOption.map (fun names => (names.module? "main" 1, names.module? "main" 2)) =
        some (some "main_ROM_a_b", some "main_ROM_a_b") := by decide +kernel
  cases planned : (Design.plan ⟨"d", "main", [⟨"main", [], [memory 1, memory 2], none⟩], []⟩
      {}).1 with
  | error failure => rw [planned] at modules; cases modules
  | ok names =>
    rw [planned, Except.toOption, Option.map_some, Option.some.injEq, Prod.mk.injEq] at modules
    obtain ⟨variant, other, _, _, _, shared⟩ := plan_shares_exactly checked planned
      (List.mem_singleton_self _) (List.mem_singleton_self _) (List.mem_cons_self ..)
      (List.mem_cons_of_mem _ (List.mem_singleton_self _)) modules.1 modules.2
    exact (shared rfl).resolve_right fun differ => differ.2.1 rfl

/-- The contents of one memory stand in an attribute name of the other: both get one module name,
but their files differ. -/
theorem Design.plan_confuses_memories :
    let first : Component := ⟨1, .rom, [("contents", "1"), ("dataBits", "1")], [], ""⟩
    let second : Component := ⟨2, .rom, [("contents=\"1\";dataBits", "1")], [], ""⟩
    let design : Design := ⟨"d", "main", [⟨"main", [], [first, second], none⟩], []⟩
    Draft.check ⟨"d", "main", [some ⟨"main", [], [some first, some second], none⟩], []⟩ =
        .ok design ∧
      (design.plan {}).1.toOption.map
        (fun names => (names.module? "main" 1, names.module? "main" 2)) =
          some (some "main_ROM_UNLABELED", some "main_ROM_UNLABELED") ∧
      ¬Agree (first.unit {} "main" (some "main_ROM_UNLABELED"))
        (second.unit {} "main" (some "main_ROM_UNLABELED")) := by
  intro first second design
  refine ⟨rfl, by decide +kernel, ?_⟩
  intro agree
  have differ : (first.unit {} "main" (some "main_ROM_UNLABELED")).toOption.map (·.attachments) ≠
      (second.unit {} "main" (some "main_ROM_UNLABELED")).toOption.map (·.attachments) := by
    decide +kernel
  obtain ⟨failure, other, failed, otherFailed⟩ | ⟨unit, made, otherMade⟩ := agree
  · rw [failed, otherFailed] at differ
    exact differ rfl
  · rw [made, otherMade] at differ
    exact differ rfl

end Schematic
