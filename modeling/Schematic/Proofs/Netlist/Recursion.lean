import Mathlib.Data.List.Chain
import Mathlib.Logic.Relation
import Schematic.Proofs.Netlist.Hierarchy

/-! # Recursive hierarchies

The search for recursion fails exactly if a circuit below the top holds itself, and what it reports
is a way from the top back onto itself. -/

open List Relation

namespace Schematic.Design

variable {design : Design} {circuit : Circuit} {trail done names : List String}
  {name outer inner : String} {depth : Nat}

/-- A circuit has the other as a component, be it a black box or not. -/
def Holds (design : Design) (outer inner : String) : Prop :=
  ∃ circuit ∈ design.circuits, circuit.name = outer ∧
    ∃ component ∈ circuit.components, component.kind = .subcircuit ∧ component.circuit = inner

/-- No two circuits share a name, and the top and all components name circuits. -/
structure Resolved (design : Design) : Prop where
  names : (design.circuits.map (·.name)).Nodup
  top : ∃ circuit, design.topCircuit? = some circuit
  circuits : ∀ circuit ∈ design.circuits, ∀ component ∈ circuit.components,
    component.kind = .subcircuit → ∃ inner, design.circuit? component.circuit = some inner

/-- The way from the top down to a circuit, without the circuit itself. -/
structure Trail (design : Design) (trail : List String) (name : String) : Prop where
  once : trail.Nodup
  known : trail ⊆ design.circuits.map (·.name)
  chain : (trail ++ [name]).IsChain design.Holds
  start : (trail ++ [name]).head? = some design.top

section Fold

variable {α β ε : Type} {items : List α} {step other : β → α → Except ε β} {state : β}

theorem exists_of_foldlM_error {fault : ε} (failed : items.foldlM step state = .error fault) :
    ∃ item ∈ items, ∃ before, step before item = .error fault := by
  induction items generalizing state with
  | nil => cases failed
  | cons item items ih =>
    rw [foldlM_cons] at failed
    cases first : step state item with
    | error fault =>
      rw [first] at failed
      cases failed
      exact ⟨item, mem_cons_self .., state, first⟩
    | ok next =>
      rw [first] at failed
      obtain ⟨item, listed, before, failed⟩ := ih failed
      exact ⟨item, mem_cons_of_mem _ listed, before, failed⟩

theorem foldlM_congr (same : ∀ item ∈ items, ∀ state, step state item = other state item) :
    items.foldlM step state = items.foldlM other state := by
  induction items generalizing state with
  | nil => rfl
  | cons item items ih =>
    obtain ⟨first, rest⟩ := forall_mem_cons.mp same
    rw [foldlM_cons, foldlM_cons, first]
    exact congrArg _ (funext fun _ => ih rest)

end Fold

namespace Trail

theorem length_le (on : design.Trail trail name) : trail.length ≤ design.circuits.length := by
  simpa using (subperm_of_subset on.once on.known).length_le

theorem next (on : design.Trail trail name) (fresh : name ∉ trail)
    (found : design.circuit? name = some circuit) {component : Component}
    (listed : component ∈ circuit.componentsOf .subcircuit) :
    design.Trail (trail ++ [name]) component.circuit := by
  obtain ⟨member, same⟩ := circuit?_eq_some found
  obtain ⟨present, isInner⟩ := mem_componentsOf.mp listed
  refine ⟨?_, ?_, ?_, ?_⟩
  · exact nodup_append.mpr ⟨on.once, pairwise_singleton .., fun other above last behind apart =>
      fresh (mem_singleton.mp behind ▸ apart ▸ above)⟩
  · exact append_subset.mpr ⟨on.known, by simpa using ⟨circuit, member, same⟩⟩
  · rw [append_assoc, singleton_append, isChain_split, isChain_pair]
    exact ⟨on.chain, circuit, member, same, component, present, isInner, rfl⟩
  · rw [head?_append, on.start, Option.some_or]

theorem exists_of_error {fault : DesignError} (on : design.Trail trail name)
    (enough : design.circuits.length < trail.length + depth)
    (failed : visitAcyclic design depth trail done name = .error fault) :
    ∃ trail last, fault = .recursive (trail ++ [last]) ∧ design.Trail trail last ∧
      last ∈ trail := by
  induction depth generalizing trail done name with
  | zero => exact absurd enough (Nat.not_lt.mpr on.length_le)
  | succ depth ih =>
    rw [visitAcyclic] at failed
    split at failed
    case isTrue above =>
      cases failed
      exact ⟨trail, name, rfl, on, contains_iff_mem.mp above⟩
    case isFalse fresh =>
      rw [contains_iff_mem] at fresh
      split at failed
      · cases failed
      split at failed
      · cases failed
      case h_2 circuit found =>
        cases visited : (circuit.componentsOf .subcircuit).foldlM (fun done component =>
            visitAcyclic design depth (trail ++ [name]) done component.circuit) done with
        | ok later => rw [visited] at failed; cases failed
        | error other =>
          rw [visited] at failed
          cases failed
          obtain ⟨component, listed, before, failed⟩ := exists_of_foldlM_error visited
          refine ih (on.next fresh found listed) ?_ failed
          rw [length_append, length_singleton]
          omega

/-- The search ends by itself before the depth is used up. -/
theorem visitAcyclic_succ (on : design.Trail trail name)
    (enough : design.circuits.length < trail.length + depth) :
    visitAcyclic design (depth + 1) trail done name =
      visitAcyclic design depth trail done name := by
  induction depth generalizing trail done name with
  | zero => exact absurd enough (Nat.not_lt.mpr on.length_le)
  | succ depth ih =>
    rw [visitAcyclic, visitAcyclic]
    split
    · rfl
    case isFalse fresh =>
      rw [contains_iff_mem] at fresh
      split
      · rfl
      split
      · rfl
      case h_2 circuit found =>
        refine congrArg _ (foldlM_congr fun component listed done => ?_)
        refine ih (on.next fresh found listed) ?_
        rw [length_append, length_singleton]
        omega

/-- A way that ends on itself leads from the top to a circuit that holds itself. -/
theorem exists_cycle {last : String} (on : design.Trail trail last) (again : last ∈ trail) :
    ReflTransGen design.Holds design.top last ∧ TransGen design.Holds last last := by
  obtain ⟨chain, start⟩ := on.chain, on.start
  constructor
  · have nonempty : trail ++ [last] ≠ [] := by simp
    have reach := relationReflTransGen_of_exists_isChain _ chain nonempty
    rwa [getLast_concat, (head_eq_iff_head?_eq_some nonempty).mpr start] at reach
  · obtain ⟨before, after, rfl⟩ := append_of_mem again
    rw [append_assoc, cons_append, isChain_split] at chain
    obtain ⟨next, rest, form⟩ := exists_cons_of_ne_nil (concat_ne_nil last after)
    rw [form, isChain_cons_cons] at chain
    refine .head' chain.2.1 (relationReflTransGen_of_exists_isChain_cons rest chain.2.2 ?_)
    simp only [← form, getLast_concat]

end Trail

namespace Ordered

theorem mem_of_head_holds (ordered : design.Ordered (outer :: names)) (resolved : design.Resolved)
    (holds : design.Holds outer inner) : inner ∈ names := by
  obtain ⟨_, ⟨circuit, found, inside⟩, _⟩ := ordered
  obtain ⟨other, member, rfl, component, present, isInner, rfl⟩ := holds
  obtain rfl : other = circuit :=
    Option.some.inj ((find?_of_nodup_map resolved.names member).symm.trans found)
  exact inside component present isInner

theorem mem_of_holds (ordered : design.Ordered names) (resolved : design.Resolved)
    (listed : outer ∈ names) (holds : design.Holds outer inner) : inner ∈ names := by
  induction names with
  | nil => cases listed
  | cons name names ih =>
    obtain rfl | listed := mem_cons.mp listed
    · exact mem_cons_of_mem _ (ordered.mem_of_head_holds resolved holds)
    · exact mem_cons_of_mem _ (ih ordered.2.2 listed)

theorem not_transGen (ordered : design.Ordered names) (resolved : design.Resolved)
    (listed : name ∈ names) : ¬TransGen design.Holds name name := by
  induction names with
  | nil => cases listed
  | cons first names ih =>
    obtain rfl | listed := mem_cons.mp listed
    · intro cycle
      -- What the first circuit holds is listed behind it, and so is all that follows from there.
      have behind : ∀ other, TransGen design.Holds name other → other ∈ names := by
        intro other reach
        induction reach with
        | single holds => exact ordered.mem_of_head_holds resolved holds
        | tail _ holds below => exact ordered.2.2.mem_of_holds resolved below holds
      exact ordered.1 (behind name cycle)
    · exact ih ordered.2.2 listed

end Ordered

/-- **Recursion is found exactly.** The check of a resolved design fails if and only if a circuit
that the top reaches through components reaches itself. What it then reports starts at the top, goes
from circuit to component and ends on a circuit passed before. Any greater depth of search gives the
same answer. -/
theorem recursion_found_iff (design : Design) (resolved : design.Resolved) :
    ((∃ fault, design.checkAcyclic = .error fault) ↔
      ∃ name, ReflTransGen design.Holds design.top name ∧ TransGen design.Holds name name) ∧
    (∀ fault, design.checkAcyclic = .error fault → ∃ trail last,
      fault = .recursive (trail ++ [last]) ∧ (trail ++ [last]).head? = some design.top ∧
      (trail ++ [last]).IsChain design.Holds ∧ last ∈ trail) ∧
    ∀ depth, design.circuits.length < depth →
      (visitAcyclic design depth [] [] design.top).map (fun _ => ()) = design.checkAcyclic := by
  have root : design.Trail [] design.top := ⟨nodup_nil, nil_subset _, isChain_singleton _, rfl⟩
  have failed : ∀ fault, design.checkAcyclic = .error fault → ∃ trail last,
      fault = .recursive (trail ++ [last]) ∧ design.Trail trail last ∧ last ∈ trail := by
    intro fault found
    rw [checkAcyclic] at found
    cases visited : visitAcyclic design (design.circuits.length + 1) [] [] design.top with
    | ok names => rw [visited] at found; cases found
    | error other =>
      rw [visited] at found
      cases found
      exact root.exists_of_error (by simp) visited
  refine ⟨⟨?_, ?_⟩, ?_, ?_⟩
  · rintro ⟨fault, found⟩
    obtain ⟨trail, last, _, on, again⟩ := failed fault found
    exact ⟨last, on.exists_cycle again⟩
  · rintro ⟨name, reach, cycle⟩
    rw [checkAcyclic]
    cases visited : visitAcyclic design (design.circuits.length + 1) [] [] design.top with
    | error fault => exact ⟨fault, rfl⟩
    | ok names =>
      have none : design.Ordered [] := by simp only [Ordered]
      have advances :=
        advances_of_visitAcyclic resolved.circuits none (by simp) resolved.top visited
      refine absurd cycle (advances.ordered.not_transGen resolved ?_)
      clear cycle
      induction reach with
      | refl => exact advances.reached
      | tail _ holds ih => exact advances.ordered.mem_of_holds resolved ih holds
  · intro fault found
    obtain ⟨trail, last, rfl, on, again⟩ := failed fault found
    exact ⟨trail, last, rfl, on.start, on.chain, again⟩
  · intro depth enough
    induction depth, enough using Nat.le_induction with
    | base => rfl
    | succ depth enough ih =>
      rw [root.visitAcyclic_succ (by simpa using Nat.lt_of_succ_le enough)]
      exact ih

/-- A black box that holds itself is reported. -/
theorem recursion_found_iff_box :
    let use (id : Int) (name : String) : Component := ⟨id, .subcircuit, [], [], name⟩
    let design : Design := ⟨"d", "main", [⟨"main", [], [use 1 "leaf", use 2 "box"], none⟩,
      ⟨"leaf", [], [], none⟩, ⟨"box", [], [use 1 "leaf", use 2 "box"], some ⟨"", ""⟩⟩], []⟩
    design.checkAcyclic = .error (.recursive ["main", "box", "box"]) ∧
      ∃ name, ReflTransGen design.Holds "main" name ∧ TransGen design.Holds name name := by
  intro use design
  have known : ∀ circuit ∈ design.circuits, ∀ component ∈ circuit.components,
      component.kind = .subcircuit → (design.circuit? component.circuit).isSome = true := by decide
  have resolved : design.Resolved := ⟨by decide, ⟨_, rfl⟩, fun circuit member component present
    isInner => Option.isSome_iff_exists.mp (known circuit member component present isInner)⟩
  have found : design.checkAcyclic = .error (.recursive ["main", "box", "box"]) := by decide
  exact ⟨found, (design.recursion_found_iff resolved).1.mp ⟨_, found⟩⟩

end Schematic.Design
