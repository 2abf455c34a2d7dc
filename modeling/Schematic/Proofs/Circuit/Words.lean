import Schematic.Proofs.Circuit.Identifiers
import Schematic.Proofs.Circuit.Vocabulary
import Schematic.Proofs.Circuit.Body
import Schematic.Proofs.Hdl.Declared
import Schematic.Proofs.Scan.Line

/-! # Planned names are legal -/

open List

namespace Schematic

open Text

theorem isLegal_pinPort (path : String) : Naming.IsLegal (pinPort path) := by
  have legal := Naming.isLegal_sanitize path
  simp only [pinPort]
  split
  · exact Naming.isLegal_mark legal.worded
  · exact legal

theorem worded_instanceCategory (component : Component) :
    Naming.Worded component.instanceCategory.toList ∧
      Naming.startsWithLetter component.instanceCategory = true := by
  have words : instanceCategories.all (fun category => !category.toList.isEmpty &&
      category.toList.all Naming.isWordChar && Naming.startsWithLetter category) = true := by decide
  have word := all_eq_true.mp words _ component.instanceCategory_mem
  simp only [Bool.and_eq_true, Bool.not_eq_true', isEmpty_eq_false_iff] at word
  exact ⟨.of_word word.1.1 (all_eq_true.mp word.1.2), word.2⟩

theorem Names.isLegal_labelBase {component : Component} (natural : 0 ≤ component.id) :
    Naming.IsLegal (labelBase component) := by
  obtain ⟨number, id⟩ := Int.eq_ofNat_of_zero_le natural
  obtain ⟨worded, letter⟩ := worded_instanceCategory component
  have digits : toString (number : Int) = toString number := rfl
  rw [labelBase, id, digits]
  exact Naming.isLegal_numbered worded letter number

namespace Planning

variable {settings : Settings}

theorem Asks.isLegal {name signature : String} (asks : Asks settings name signature) :
    Naming.IsLegal name := by
  cases asks with
  | circuit circuit => exact Naming.isLegal_sanitize circuit
  | component circuit component variant known =>
    rw [Component.baseName, Naming.expand]
    exact Naming.isLegal_sanitize _

structure Lawful (registry : Naming.Registry) : Prop where
  reserved : registry.reserved = reservedModules.map lower
  given : ∀ signature module, (signature, module) ∈ registry.claims →
    Naming.IsLegal module ∧ lower module ∉ reservedModules.map lower

theorem lawful_start : Lawful start.registry :=
  ⟨rfl, fun _ _ listed => absurd listed not_mem_nil⟩

theorem kept_lawful : Kept settings Lawful := by
  intro registry later name signature module asks claimed lawful
  obtain ⟨_, rfl⟩ | ⟨_, free, ⟨number, rfl, _⟩, rfl⟩ := Naming.Registry.claim_eq_ok claimed
  · exact lawful
  · refine ⟨lawful.reserved, ?_⟩
    intro other chosen listed
    obtain here | earlier := mem_cons.mp listed
    · cases here
      refine ⟨asks.isLegal.candidate number, ?_⟩
      rw [← lawful.reserved]
      exact fun taken => free (mem_append_left _ taken)
    · exact lawful.given other chosen earlier

end Planning

variable {design : Design} {settings : Settings} {names : Names}

/-- Every name that planning assigns is legal in both dialects, and no module has the name of the
wrapper or of a clock module, whatever its case. -/
theorem planned_names_legal {draft : Draft} (checked : draft.check = .ok design)
    (natural : ∀ circuit ∈ design.circuits, ∀ component ∈ circuit.components, 0 ≤ component.id)
    (planned : (design.plan settings).1 = .ok names) :
    (∀ circuit module, names.circuit? circuit = some module →
      Naming.IsLegal module ∧ lower module ∉ reservedModules.map lower) ∧
    (∀ circuit component module, names.module? circuit component = some module →
      Naming.IsLegal module ∧ lower module ∉ reservedModules.map lower) ∧
    (∀ circuit pin port, names.port? circuit pin = some port → Naming.IsLegal port) ∧
    ∀ circuit component label, names.instance? circuit component = some label →
      Naming.IsLegal label := by
  have apart := Design.apart_of_plan (Draft.linked_of_check checked) planned
  obtain ⟨planning, rfl, consistent, lawful⟩ :=
    Design.exists_registry Planning.kept_lawful Planning.lawful_start planned
  refine ⟨?_, ?_, ?_, ?_⟩
  · intro circuit module named
    exact lawful.given _ _ (consistent.circuits _ (mem_of_lookup named))
  · intro circuit component module named
    obtain ⟨_, _, _, _, _, claimed⟩ := consistent.modules _ (mem_of_lookup named)
    exact lawful.given _ _ claimed.given
  · intro circuit pin port named
    obtain ⟨number, rfl⟩ := apart.exists_port named
    exact (isLegal_pinPort pin).candidate number
  · intro circuit component label named
    obtain ⟨home, member, owner, present, _, _, number, rfl⟩ :=
      apart.labels _ (mem_of_lookup named)
    exact (Names.isLegal_labelBase (natural home member owner present)).candidate number

/-- A circuit and a template that are reserved words, a pin that looks like an inner signal, and two
pins whose names differ in what is no letter. -/
theorem planned_names_legal_marked :
    let pin (id : Int) (label : String) : Component :=
      ⟨id, .pin, [("label", label)], [⟨label, true, [⟨0, 0⟩]⟩], ""⟩
    let gate : Component := ⟨0, .not, [], [], ""⟩
    let components := [pin 1 "s_x", pin 2 "7 up", pin 3 "7-UP", gate]
    let main : Circuit := ⟨"end", [⟨0, 1, false, [], [], none⟩], components, none⟩
    let design : Design := ⟨"d", "end", [main], []⟩
    let settings : Settings := { templates := [("not", "Signal")] }
    ∃ names, (design.plan settings).1 = .ok names ∧
      names.circuit? "end" = some "L_end" ∧ Naming.IsLegal "L_end" ∧
      names.module? "end" 0 = some "L_Signal" ∧ Naming.IsLegal "L_Signal" ∧
      lower "L_Signal" ∉ reservedModules.map lower ∧
      names.port? "end" "s_x" = some "L_s_x" ∧ Naming.IsLegal "L_s_x" ∧
      names.port? "end" "7-UP" = some "L_7_UP_1" ∧ Naming.IsLegal "L_7_UP_1" ∧
      names.instance? "end" 0 = some "GATES_0" ∧ Naming.IsLegal "GATES_0" := by
  intro pin gate components main design settings
  have checked : Draft.check ⟨"d", "end", [some ⟨"end", [⟨0, 1, false, [], [], none⟩],
      components.map some, none⟩], []⟩ = .ok design := by rfl
  have natural : ∀ circuit ∈ design.circuits, ∀ component ∈ circuit.components,
      0 ≤ component.id := by decide
  have chosen : (design.plan settings).1.toOption.map (fun names => [names.circuit? "end",
      names.module? "end" 0, names.port? "end" "s_x", names.port? "end" "7-UP",
      names.instance? "end" 0]) =
      some [some "L_end", some "L_Signal", some "L_s_x", some "L_7_UP_1", some "GATES_0"] := by
    decide +kernel
  cases planned : (design.plan settings).1 with
  | error failure => rw [planned] at chosen; cases chosen
  | ok names =>
    rw [planned] at chosen
    simp only [Except.toOption, Option.map_some, Option.some.injEq, List.cons.injEq,
      and_true] at chosen
    obtain ⟨circuit, module, inner, repeated, label⟩ := chosen
    obtain ⟨circuits, modules, ports, labels⟩ := planned_names_legal checked natural planned
    exact ⟨names, rfl, circuit, (circuits _ _ circuit).1, module, (modules _ _ _ module).1,
      (modules _ _ _ module).2, inner, ports _ _ _ inner, repeated, ports _ _ _ repeated, label,
      labels _ _ _ label⟩

end Schematic

/-! ## Identifiers of planned circuits -/

namespace Schematic

open Hdl Text Reporting

open Naming

structure Names.Spelled (names : Names) : Prop where
  circuits : ∀ circuit module, names.circuit? circuit = some module → IsLegal module
  modules : ∀ circuit component module, names.module? circuit component = some module →
    IsLegal module
  ports : ∀ circuit pin port, names.port? circuit pin = some port → IsLegal port
  labels : ∀ circuit component label, names.instance? circuit component = some label →
    Unbroken label

namespace Design

variable {draft : Draft} {design : Design} {settings : Settings} {names : Names}

theorem spelled_of_plan (checked : draft.check = .ok design)
    (planned : (design.plan settings).1 = .ok names) : names.Spelled := by
  have apart := apart_of_plan (Draft.linked_of_check checked) planned
  obtain ⟨planning, rfl, consistent, lawful⟩ :=
    exists_registry Planning.kept_lawful Planning.lawful_start planned
  refine ⟨?_, ?_, ?_, ?_⟩
  · intro circuit module named
    exact (lawful.given _ _ (consistent.circuits _ (mem_of_lookup named))).1
  · intro circuit component module named
    obtain ⟨_, _, _, _, _, claimed⟩ := consistent.modules _ (mem_of_lookup named)
    exact (lawful.given _ _ claimed.given).1
  · intro circuit pin port named
    obtain ⟨number, rfl⟩ := apart.exists_port named
    exact (isLegal_pinPort pin).candidate number
  · intro circuit component label named
    obtain ⟨_, _, owner, _, _, _, number, rfl⟩ := apart.labels _ (mem_of_lookup named)
    have category : Named owner.instanceCategory := (worded_instanceCategory owner).1.chars.2
    have base : Unbroken (Names.labelBase owner) := by
      simp only [Names.labelBase, unbroken_append, category.unbroken, unbroken_int, and_true,
        true_and]
      decide
    cases number with
    | zero => exact base
    | succ number =>
      simp only [candidate_succ, unbroken_append, base, unbroken_nat, and_true, true_and]
      decide

end Design

end Schematic
