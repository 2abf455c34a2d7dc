import Mathlib.Data.List.Perm.Subperm
import Schematic.Proofs.Netlist.Checked

/-! # Hierarchies without recursion -/

open List

namespace Schematic

namespace Design

variable {circuit : Circuit} {trail done after names : List String} {depth : Nat} {design : Design}

/-- Each circuit comes before those that it contains. -/
def Ordered (design : Design) : List String → Prop
  | [] => True
  | name :: rest => name ∉ rest ∧
      (∃ circuit, design.circuit? name = some circuit ∧
        ∀ component ∈ circuit.components, component.kind = .subcircuit →
          component.circuit ∈ rest) ∧
      design.Ordered rest

structure Advances (design : Design) (trail before : List String) (name : String)
    (after : List String) : Prop where
  ordered : design.Ordered after
  reached : name ∈ after
  kept : ∀ other ∈ before, other ∈ after
  apart : ∀ other ∈ trail, other ∉ after

theorem mem_componentsOf {kind : Kind} {component : Component} :
    component ∈ circuit.componentsOf kind ↔
      component ∈ circuit.components ∧ component.kind = kind := by
  simp only [Circuit.componentsOf, mem_filter, decide_eq_true_eq]

theorem advances_foldlM {visit : List String → String → Except DesignError (List String)}
    (each : ∀ (done : List String) (name : String) (after : List String),
      design.Ordered done → (∀ other ∈ trail, other ∉ done) →
      (∃ circuit, design.circuit? name = some circuit) → visit done name = .ok after →
      design.Advances trail done name after) {components : List Component}
    (known : ∀ component ∈ components, ∃ circuit, design.circuit? component.circuit = some circuit)
    (ordered : design.Ordered done) (apart : ∀ other ∈ trail, other ∉ done)
    (visited : components.foldlM (fun done component => visit done component.circuit) done =
      .ok after) : design.Ordered after ∧ (∀ component ∈ components, component.circuit ∈ after) ∧
      (∀ other ∈ done, other ∈ after) ∧ ∀ other ∈ trail, other ∉ after := by
  induction components generalizing done with
  | nil =>
    cases visited
    exact ⟨ordered, by simp, fun _ member => member, apart⟩
  | cons component components ih =>
    rw [foldlM_cons] at visited
    simp only [bind, Except.bind] at visited
    split at visited
    · cases visited
    case h_2 between first =>
      have here := each done component.circuit between ordered apart
        (known component (mem_cons_self ..)) first
      obtain ⟨rest, others, kept, later⟩ := ih
        (fun component member => known component (mem_cons_of_mem _ member))
        here.ordered here.apart visited
      refine ⟨rest, ?_, fun other member => kept other (here.kept other member), later⟩
      intro other member
      obtain rfl | member := mem_cons.mp member
      · exact kept _ here.reached
      · exact others other member

theorem advances_of_visitAcyclic (linked : ∀ circuit ∈ design.circuits,
      ∀ component ∈ circuit.components, component.kind = .subcircuit →
      ∃ inner, design.circuit? component.circuit = some inner) {name : String}
        (ordered : design.Ordered done) (apart : ∀ other ∈ trail, other ∉ done)
    (known : ∃ circuit, design.circuit? name = some circuit)
    (visited : visitAcyclic design depth trail done name = .ok after) :
    design.Advances trail done name after := by
  induction depth generalizing trail done after name with
  | zero => cases visited
  | succ depth ih =>
    obtain ⟨circuit, found⟩ := known
    simp only [visitAcyclic, found] at visited
    split at visited
    · cases visited
    case isFalse offTrail =>
      rw [contains_iff_mem] at offTrail
      split at visited
      case isTrue finished =>
        cases visited
        exact ⟨ordered, contains_iff_mem.mp finished, fun _ member => member, apart⟩
      case isFalse fresh =>
        rw [contains_iff_mem] at fresh
        cases inside : (circuit.componentsOf .subcircuit).foldlM
            (fun done component =>
              visitAcyclic design depth (trail ++ [name]) done component.circuit) done with
        | error fault => rw [inside] at visited; cases visited
        | ok later =>
          rw [inside] at visited
          cases visited
          have member := (circuit?_eq_some found).1
          have below : ∀ other ∈ trail ++ [name], other ∉ done := by
            intro other listed
            obtain listed | listed := mem_append.mp listed
            · exact apart other listed
            · exact mem_singleton.mp listed ▸ fresh
          obtain ⟨rest, reached, kept, off⟩ := advances_foldlM
            (fun done name after ordered apart known visited =>
              ih ordered apart known visited)
            (fun component listed =>
              linked circuit member component (mem_componentsOf.mp listed).1
                (mem_componentsOf.mp listed).2)
            ordered below inside
          refine ⟨⟨off name (mem_append_right _ (mem_singleton_self _)),
            ⟨circuit, found, ?_⟩, rest⟩, mem_cons_self .., ?_, ?_⟩
          · intro component present inner
            exact reached component (mem_componentsOf.mpr ⟨present, inner⟩)
          · exact fun other listed => mem_cons_of_mem _ (kept other listed)
          · intro other listed again
            obtain rfl | again := mem_cons.mp again
            · exact offTrail listed
            · exact off other (mem_append_left _ listed) again

theorem Ordered.length_le (ordered : design.Ordered names) :
    names.length ≤ design.circuits.length := by
  have listed : names.Nodup ∧ names ⊆ design.circuits.map (·.name) := by
    induction names with
    | nil => simp
    | cons name names ih =>
      obtain ⟨fresh, ⟨circuit, found, _⟩, rest⟩ := ordered
      obtain ⟨nodup, subset⟩ := ih rest
      obtain ⟨member, same⟩ := circuit?_eq_some found
      refine ⟨nodup_cons.mpr ⟨fresh, nodup⟩, cons_subset.mpr ⟨?_, subset⟩⟩
      exact mem_map.mpr ⟨circuit, member, same⟩
  simpa using (subperm_of_subset listed.1 listed.2).length_le

@[elab_as_elim]
theorem ordered_induction {property : Nat → List String → Circuit → Prop}
    (widen : ∀ depth names more circuit, property depth names circuit →
      names <:+ more → property depth more circuit)
    (step : ∀ depth rest circuit, circuit.name ∉ rest →
      design.circuit? circuit.name = some circuit →
      (∀ component ∈ circuit.components, component.kind = .subcircuit →
        ∀ inner, design.circuit? component.circuit = some inner → property depth rest inner) →
      property (depth + 1) (circuit.name :: rest) circuit) (ordered : design.Ordered names)
    (enough : names.length ≤ depth)
    (found : design.circuit? circuit.name = some circuit) (listed : circuit.name ∈ names) :
    property depth names circuit := by
  induction names generalizing depth circuit with
  | nil => cases listed
  | cons name names ih =>
    obtain ⟨fresh, ⟨head, headFound, inside⟩, rest⟩ := ordered
    by_cases below : circuit.name ∈ names
    · have shorter : names.length ≤ depth := by
        rw [length_cons] at enough
        omega
      exact widen _ _ _ _ (ih rest shorter found below) (suffix_cons ..)
    · obtain rfl : circuit.name = name := (mem_cons.mp listed).resolve_right below
      rw [found] at headFound
      cases headFound
      cases depth with
      | zero => simp at enough
      | succ depth =>
        rw [length_cons] at enough
        refine step depth names circuit fresh found ?_
        intro component present isInner inner innerFound
        have name := (circuit?_eq_some innerFound).2
        refine ih rest (by omega) (name ▸ innerFound) ?_
        rw [name]
        exact inside component present isInner

end Design

theorem Draft.ordered_of_check {draft : Draft} {design : Design}
    (checked : draft.check = .ok design) : ∃ names, design.Ordered names ∧ design.top ∈ names := by
  obtain ⟨_, top, _, _, acyclic⟩ := Draft.exists_of_check checked
  simp only [Design.checkAcyclic] at acyclic
  cases visited : Design.visitAcyclic design (design.circuits.length + 1) [] [] design.top with
  | error fault => rw [visited] at acyclic; cases acyclic
  | ok names =>
    have none : design.Ordered [] := by simp only [Design.Ordered]
    have advances := Design.advances_of_visitAcyclic (Draft.linked_of_check checked).circuits none
      (by simp) top visited
    exact ⟨names, advances.ordered, advances.reached⟩

end Schematic
