import Schematic.Proofs.Circuit.Planning
import Schematic.Proofs.Circuit.Instances

/-! # The walk over a design -/

open List

namespace Schematic

open Hdl

namespace Design

/-- The circuits that the walk can reach: the top, and the circuits inside a reached one that is
planned and is not written elsewhere. -/
inductive Reaches (design : Design) (names : Names) : Circuit → Prop where
  | top {circuit : Circuit} (root : design.topCircuit? = some circuit) :
      Reaches design names circuit
  | inner {circuit inner : Circuit} {module : String} (above : Reaches design names circuit)
      (planned : names.circuit? circuit.name = some module) (plain : circuit.blackBox = none)
      (inside : inner ∈ design.subcircuits circuit) : Reaches design names inner

theorem Reaches.mem {design : Design} {names : Names} {circuit : Circuit}
    (reached : design.Reaches names circuit) : circuit ∈ design.circuits := by
  cases reached with
  | top root => exact (circuit?_eq_some root).1
  | inner _ _ _ inside => exact mem_of_mem_subcircuits inside

/-- What the wiring of a circuit consults during the walk. -/
def wiring (design : Design) (settings : Settings) (names : Names) (layouts : Layouts)
    (circuit : Circuit) (module : String) : WiringContext :=
  ⟨design, circuit, module, settings.period, names, layouts⟩

inductive Makes (design : Design) (settings : Settings) (names : Names) (layouts : Layouts) :
    String → Except Failure DesignUnit → Prop where
  | circuit {circuit : Circuit} {module : String} (reached : design.Reaches names circuit)
      (planned : names.circuit? circuit.name = some module) (plain : circuit.blackBox = none)
      (earlier : List Message) :
      Makes design settings names layouts module (Reporting.outcome
        ((design.wiring settings names layouts circuit module).unit settings.dialect) earlier).1
  | blackBox {circuit : Circuit} {module : String} {box : BlackBox}
      (reached : design.Reaches names circuit)
      (planned : names.circuit? circuit.name = some module)
      (boxed : circuit.blackBox = some box) :
      Makes design settings names layouts module (box.unit settings module)
  | component {circuit : Circuit} {component : Component} {home module : String}
      (reached : design.Reaches names circuit)
      (planned : names.circuit? circuit.name = some home) (plain : circuit.blackBox = none)
      (present : component ∈ circuit.components) (ordinary : component.kind.isSpecial = false)
      (named : names.module? circuit.name component.id = some module) :
      Makes design settings names layouts module
        (component.unit settings circuit.name (some module))

theorem Makes.unit_name {design : Design} {settings : Settings} {names : Names}
    {layouts : Layouts} {module : String} {outcome : Except Failure DesignUnit}
    (made : design.Makes settings names layouts module outcome) {unit : DesignUnit}
    (succeeded : outcome = .ok unit) : unit.name = module := by
  cases made with
  | @circuit circuit _ reached planned plain earlier =>
    obtain ⟨_, _, _, _, _, rfl⟩ := WiringContext.exists_sections (Prod.ext succeeded rfl)
    exact DesignUnit.write_name ..
  | blackBox reached planned boxed =>
    obtain ⟨text, rfl⟩ := BlackBox.exists_text succeeded
    rfl
  | component reached planned plain present ordinary named =>
    exact Component.unit_name succeeded

end Design

namespace Output

variable {design : Design} {settings : Settings} {names : Names} {layouts : Layouts}

def next (output : Output) (module : String) (messages : List Message)
    (outcome : Except Failure DesignUnit) : Output :=
  { output.claim module with messages }.add outcome

theorem addComponent_cases (settings : Settings) (names : Names) (circuit : String)
    (output : Output) (component : Component) :
    (addComponent settings names circuit output component = output ∧
        (component.kind.isSpecial = false → ∀ module,
          names.module? circuit component.id = some module → module ∈ output.written)) ∨
      (component.kind.isSpecial = false ∧ ∃ module,
        names.module? circuit component.id = some module ∧ module ∉ output.written ∧
        addComponent settings names circuit output component =
          output.next module output.messages (component.unit settings circuit (some module))) := by
  simp only [addComponent]
  split
  case isTrue special =>
    exact .inl ⟨rfl, fun ordinary => by rw [special] at ordinary; cases ordinary⟩
  case isFalse ordinary =>
    split
    case h_1 unplanned =>
      exact .inl ⟨rfl, fun _ module planned => by rw [unplanned] at planned; cases planned⟩
    case h_2 module named =>
      split
      case isTrue written =>
        rw [contains_iff_mem] at written
        refine .inl ⟨rfl, fun _ other planned => ?_⟩
        rw [named] at planned
        exact Option.some.inj planned ▸ written
      case isFalse fresh =>
        rw [contains_iff_mem] at fresh
        exact .inr ⟨Bool.not_eq_true _ ▸ ordinary, module, named, fresh, rfl⟩

theorem visit_cases (design : Design) (settings : Settings) (names : Names) (layouts : Layouts)
    (depth : Nat) (output : Output) (circuit : Circuit) :
    (visit design settings names layouts (depth + 1) output circuit = output ∧
        ∀ module, names.circuit? circuit.name = some module → module ∈ output.written) ∨
      ∃ module, names.circuit? circuit.name = some module ∧ module ∉ output.written ∧
        ((∃ box, circuit.blackBox = some box ∧
            visit design settings names layouts (depth + 1) output circuit =
              output.next module output.messages (box.unit settings module)) ∨
          (circuit.blackBox = none ∧ ∃ messages,
            visit design settings names layouts (depth + 1) output circuit =
              (design.subcircuits circuit).foldl (visit design settings names layouts depth)
                (circuit.components.foldl (addComponent settings names circuit.name)
                  (output.next module messages (Reporting.outcome
                    ((design.wiring settings names layouts circuit module).unit settings.dialect)
                    output.messages).1)))) := by
  simp only [visit]
  split
  case h_1 unplanned =>
    exact .inl ⟨rfl, fun module planned => by rw [unplanned] at planned; cases planned⟩
  case h_2 module planned =>
    split
    case isTrue written =>
      rw [contains_iff_mem] at written
      refine .inl ⟨rfl, fun other same => ?_⟩
      rw [planned] at same
      exact Option.some.inj same ▸ written
    case isFalse absent =>
      rw [contains_iff_mem] at absent
      refine .inr ⟨module, planned, absent, ?_⟩
      split
      case h_1 box boxed => exact .inl ⟨box, boxed, rfl⟩
      case h_2 plain => exact .inr ⟨plain, _, rfl⟩

theorem visit_preserves (keeps : Output → Prop)
    (step : ∀ output module messages outcome, keeps output → module ∉ output.written →
      design.Makes settings names layouts module outcome →
      keeps (output.next module messages outcome))
    (depth : Nat) {output : Output} (kept : keeps output) {circuit : Circuit}
    (reached : design.Reaches names circuit) :
    keeps (visit design settings names layouts depth output circuit) := by
  induction depth generalizing output circuit with
  | zero => exact kept
  | succ depth ih =>
    obtain ⟨unchanged, _⟩ | ⟨module, planned, absent, ⟨box, boxed, visited⟩ |
        ⟨plain, messages, visited⟩⟩ :=
      visit_cases design settings names layouts depth output circuit
    · rw [unchanged]
      exact kept
    · rw [visited]
      exact step output module _ _ kept absent (.blackBox reached planned boxed)
    · rw [visited]
      apply List.foldlRecOn (motive := keeps)
      · apply List.foldlRecOn (motive := keeps)
        · exact step output module messages _ kept absent
            (.circuit reached planned plain output.messages)
        · intro output kept component present
          obtain ⟨unchanged, _⟩ | ⟨ordinary, module, named, fresh, added⟩ :=
            addComponent_cases settings names circuit.name output component
          · rw [unchanged]
            exact kept
          · rw [added]
            exact step output module _ _ kept fresh
              (.component reached planned plain present ordinary named)
      · intro output kept inner inside
        exact ih kept (.inner reached planned plain inside)

theorem written_next (output : Output) (module : String) (messages : List Message)
    (outcome : Except Failure DesignUnit) :
    (output.next module messages outcome).written = output.written ++ [module] := by
  cases outcome <;> rfl

structure Accounts (makes : String → Except Failure DesignUnit → Prop) (start : List String)
    (output : Output) : Prop where
  nodup : output.written.Nodup
  kept : ∀ module ∈ start, module ∈ output.written
  count : output.units.length + output.failures.length + start.length = output.written.length
  made : ∀ module ∈ output.written, module ∈ start ∨ ∃ outcome, makes module outcome
  units : ∀ unit ∈ output.units,
    makes unit.name (.ok unit) ∧ unit.name ∉ start ∧ unit.name ∈ output.written
  unitNames : (output.units.map (·.name)).Nodup

namespace Accounts

variable {makes : String → Except Failure DesignUnit → Prop} {start : List String}

theorem empty (nodup : start.Nodup) : Accounts makes start { written := start } where
  nodup := nodup
  kept _ member := member
  count := by simp
  made _ member := .inl member
  units := by simp
  unitNames := by simp

theorem next {output : Output} (accounts : Accounts makes start output) {module : String}
    (messages : List Message) {outcome : Except Failure DesignUnit}
    (fresh : module ∉ output.written) (making : makes module outcome)
    (named : ∀ unit, outcome = .ok unit → unit.name = module) :
    Accounts makes start (output.next module messages outcome) := by
  have nodup : (output.written ++ [module]).Nodup :=
    concat_eq_append ▸ accounts.nodup.concat fresh
  have kept : ∀ module' ∈ start, module' ∈ output.written ++ [module] :=
    fun other member => mem_append_left _ (accounts.kept other member)
  have made : ∀ other ∈ output.written ++ [module],
      other ∈ start ∨ ∃ outcome, makes other outcome := by
    intro other member
    obtain member | member := mem_append.mp member
    · exact accounts.made other member
    · rw [mem_singleton.mp member]
      exact .inr ⟨outcome, making⟩
  have earlier : ∀ unit ∈ output.units,
      makes unit.name (.ok unit) ∧ unit.name ∉ start ∧ unit.name ∈ output.written ++ [module] := by
    intro unit member
    obtain ⟨making, absent, listed⟩ := accounts.units unit member
    exact ⟨making, absent, mem_append_left _ listed⟩
  have count := accounts.count
  cases outcome with
  | error failure =>
    refine ⟨nodup, kept, ?_, made, earlier, accounts.unitNames⟩
    simp only [Output.next, Output.add, claim, length_append, length_singleton]
    omega
  | ok unit =>
    have same := named unit rfl
    refine ⟨nodup, kept, ?_, made, ?_, ?_⟩
    · simp only [Output.next, Output.add, claim, length_append, length_singleton]
      omega
    · intro other member
      obtain member | member := mem_append.mp member
      · exact earlier other member
      · rw [mem_singleton.mp member]
        refine ⟨same ▸ making, ?_, ?_⟩
        · rw [same]
          exact fun member => fresh (accounts.kept module member)
        · rw [same, written_next]
          exact mem_append_right _ (mem_singleton_self _)
    · have absent : unit.name ∉ output.units.map (·.name) := by
        intro member
        obtain ⟨other, listed, shared⟩ := mem_map.mp member
        exact fresh (same ▸ shared ▸ (accounts.units other listed).2.2)
      simp only [Output.next, Output.add, claim, map_append, map_cons, map_nil]
      exact concat_eq_append ▸ accounts.unitNames.concat absent

end Accounts

theorem accounts_visit (depth : Nat) {start : List String} {output : Output}
    (accounts : Accounts (design.Makes settings names layouts) start output) {circuit : Circuit}
    (reached : design.Reaches names circuit) : Accounts (design.Makes settings names layouts) start
      (visit design settings names layouts depth output circuit) := by
  refine visit_preserves (Accounts (design.Makes settings names layouts) start) ?_ depth accounts
    reached
  intro output module messages outcome accounts fresh making
  exact accounts.next messages fresh making fun unit succeeded => making.unit_name succeeded

theorem written_addComponents (settings : Settings) (names : Names) (circuit : String)
    (components : List Component) (output : Output) :
    let later := components.foldl (addComponent settings names circuit) output
    (∀ module ∈ output.written, module ∈ later.written) ∧
      (∀ component ∈ components, component.kind.isSpecial = false → ∀ module,
        names.module? circuit component.id = some module → module ∈ later.written) ∧
      ∀ module ∈ later.written, module ∈ output.written ∨
        ∃ id, names.module? circuit id = some module := by
  induction components generalizing output with
  | nil => exact ⟨fun _ member => member, by simp, fun _ member => .inl member⟩
  | cons component components ih =>
    simp only [foldl_cons]
    obtain ⟨kept, covered, only⟩ := ih (addComponent settings names circuit output component)
    obtain ⟨unchanged, known⟩ | ⟨_, module, named, _, added⟩ :=
      addComponent_cases settings names circuit output component
    · rw [unchanged] at kept covered only ⊢
      refine ⟨kept, ?_, only⟩
      intro other member ordinary module planned
      obtain rfl | member := mem_cons.mp member
      · exact kept module (known ordinary module planned)
      · exact covered other member ordinary module planned
    · rw [added] at kept covered only ⊢
      rw [written_next] at kept only
      refine ⟨fun other member => kept other (mem_append_left _ member), ?_, ?_⟩
      · intro other member ordinary module' planned
        obtain rfl | member := mem_cons.mp member
        · rw [named] at planned
          exact Option.some.inj planned ▸
            kept module (mem_append_right _ (mem_singleton_self _))
        · exact covered other member ordinary module' planned
      · intro other member
        obtain member | known := only other member
        · obtain member | member := mem_append.mp member
          · exact .inl member
          · exact .inr ⟨component.id, mem_singleton.mp member ▸ named⟩
        · exact .inr known

end Output

end Schematic
