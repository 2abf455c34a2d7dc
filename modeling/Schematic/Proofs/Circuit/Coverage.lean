import Schematic.Proofs.Circuit.Walk
import Schematic.Proofs.Component.Signature

/-! # What the walk covers -/

open List

namespace Schematic

open Hdl

/-- Circuits have modules of their own. -/
structure Names.Separate (names : Names) (design : Design) : Prop where
  circuits : ∀ first ∈ design.circuits, ∀ second ∈ design.circuits, ∀ module,
    names.circuit? first.name = some module → names.circuit? second.name = some module →
    first = second
  components : ∀ circuit home id module, names.circuit? circuit = some module →
    names.module? home id ≠ some module

theorem Component.signature_ne_circuit {component : Component} {variant : Variant}
    (known : component.variant? = some variant) (home base circuit : String) :
    component.signature home base ≠ Circuit.signature circuit := by
  intro same
  have lists := congrArg String.toList same
  rw [toList_signature known, Circuit.signature, String.toList_append] at lists
  have circuitName : "circuit|".toList ++ circuit.toList =
      "circuit".toList ++ '|' :: circuit.toList := rfl
  rw [circuitName] at lists
  have kind := (Text.split_unique (Kind.bar_not_mem_name (kind_mem_leaves known)) (by decide)
    lists).1
  have none : ∀ kind ∈ Kind.leaves, kind.name.toList ≠ "circuit".toList := by decide
  exact none _ (kind_mem_leaves known) kind

theorem Planning.Consistent.separate {design : Design} {settings : Settings} {planning : Planning}
    (consistent : planning.Consistent design settings) (indexed : design.Indexed) :
    planning.names.Separate design where
  circuits first firstMember second secondMember module firstPlanned secondPlanned := by
    have signatures := (consistent.sound.name_eq_iff
      (consistent.circuits _ (mem_of_lookup firstPlanned))
      (consistent.circuits _ (mem_of_lookup secondPlanned))).mp rfl
    exact inj_on_of_nodup_map indexed.names firstMember secondMember
      (Circuit.signature_inj signatures)
  components circuit home id module planned named := by
    obtain ⟨_, component, variant, _, _, claimed⟩ := consistent.modules _ (mem_of_lookup named)
    have signatures := (consistent.sound.name_eq_iff claimed.given
      (consistent.circuits _ (mem_of_lookup planned))).mp rfl
    exact component.signature_ne_circuit claimed.variant_eq _ _ _ signatures

namespace Design

variable {before after written : List String} {circuit : Circuit} {module : String}

variable (design : Design) (names : Names)

/-- Everything right below a circuit is written. -/
structure Covered (written : List String) (circuit : Circuit) : Prop where
  components : ∀ component ∈ circuit.components, component.kind.isSpecial = false → ∀ module,
    names.module? circuit.name component.id = some module → module ∈ written
  circuits : ∀ inner ∈ design.subcircuits circuit, ∀ module,
    names.circuit? inner.name = some module → module ∈ written

structure Completes (before after : List String) : Prop where
  kept : ∀ module ∈ before, module ∈ after
  covered : ∀ circuit ∈ design.circuits, ∀ module, names.circuit? circuit.name = some module →
    module ∉ before → module ∈ after → circuit.blackBox = none →
    design.Covered names after circuit

def isPending (written : List String) (circuit : Circuit) : Bool :=
  match names.circuit? circuit.name with
  | some module => !written.contains module
  | none => false

def pending (written : List String) : Nat :=
  design.circuits.countP (isPending names written)

variable {design names}

theorem Covered.mono (covered : design.Covered names before circuit)
    (kept : ∀ module ∈ before, module ∈ after) : design.Covered names after circuit where
  components component present ordinary module named :=
    kept module (covered.components component present ordinary module named)
  circuits inner inside module planned :=
    kept module (covered.circuits inner inside module planned)

theorem Completes.refl (written : List String) : design.Completes names written written where
  kept _ member := member
  covered _ _ _ _ absent present := absurd present absent

theorem Completes.trans {first second third : List String}
    (earlier : design.Completes names first second)
    (later : design.Completes names second third) : design.Completes names first third where
  kept module member := later.kept module (earlier.kept module member)
  covered circuit member module planned absent present plain := by
    by_cases between : module ∈ second
    · exact (earlier.covered circuit member module planned absent between plain).mono later.kept
    · exact later.covered circuit member module planned between present plain

theorem Completes.around (separate : names.Separate design) (member : circuit ∈ design.circuits)
    (planned : names.circuit? circuit.name = some module) {made last : List String}
    (kept : ∀ other ∈ written ++ [module], other ∈ made)
    (others : ∀ other ∈ made, other ∈ written ++ [module] ∨
      ∃ id, names.module? circuit.name id = some other) (rest : design.Completes names made last)
    (covered : circuit.blackBox = none → design.Covered names last circuit) :
    design.Completes names written last where
  kept other present := rest.kept other (kept other (mem_append_left _ present))
  covered other present otherModule same absent listed plain := by
    by_cases early : otherModule ∈ made
    -- A circuit that was made before the walk went on inside is this one: no component shares its
    -- name with a circuit.
    · obtain early | ⟨id, named⟩ := others otherModule early
      · obtain early | early := mem_append.mp early
        · exact absurd early absent
        · rw [mem_singleton.mp early] at same
          obtain rfl := separate.circuits other present circuit member module same planned
          exact covered plain
      · exact absurd named (separate.components _ _ _ _ same)
    · exact rest.covered other present otherModule same early listed plain

theorem isPending_mono (kept : ∀ module ∈ before, module ∈ after)
    (waiting : isPending names after circuit = true) : isPending names before circuit = true := by
  simp only [isPending] at waiting ⊢
  split at waiting
  case h_1 module planned =>
    simp only [Bool.not_eq_true', contains_eq_mem, decide_eq_false_iff_not] at waiting ⊢
    exact fun member => waiting (kept module member)
  case h_2 => cases waiting

theorem pending_mono (kept : ∀ module ∈ before, module ∈ after) :
    design.pending names after ≤ design.pending names before :=
  countP_mono_left fun _ _ waiting => isPending_mono kept waiting

theorem pending_append_lt (member : circuit ∈ design.circuits)
    (planned : names.circuit? circuit.name = some module) (absent : module ∉ written) :
    design.pending names (written ++ [module]) < design.pending names written := by
  have kept : ∀ other ∈ written, other ∈ written ++ [module] :=
    fun other member => mem_append_left _ member
  have fewer : ∀ circuits : List Circuit,
      circuits.countP (isPending names (written ++ [module])) ≤
        circuits.countP (isPending names written) :=
    fun circuits => countP_mono_left fun _ _ waiting => isPending_mono kept waiting
  have waiting : isPending names written circuit = true := by
    simp [isPending, planned, absent]
  have done : ¬isPending names (written ++ [module]) circuit = true := by
    simp [isPending, planned]
  obtain ⟨before, after, split⟩ := append_of_mem member
  have first := fewer before
  have last := fewer after
  simp only [pending, split, countP_append, countP_cons_of_pos waiting,
    countP_cons_of_neg done]
  omega

end Design

namespace Output

variable {design : Design} {settings : Settings} {names : Names} {layouts : Layouts}

theorem completes_foldl {visit : Output → Circuit → Output} {inners : List Circuit} {depth : Nat}
    (each : ∀ inner ∈ inners, ∀ state : Output, design.pending names state.written < depth →
      design.Completes names state.written (visit state inner).written ∧
        ∀ module, names.circuit? inner.name = some module → module ∈ (visit state inner).written)
    {output : Output} (enough : design.pending names output.written < depth) :
    design.Completes names output.written (inners.foldl visit output).written ∧
      ∀ inner ∈ inners, ∀ module, names.circuit? inner.name = some module →
        module ∈ (inners.foldl visit output).written := by
  induction inners generalizing output with
  | nil => exact ⟨.refl _, by simp⟩
  | cons inner inners ih =>
    rw [foldl_cons]
    obtain ⟨first, here⟩ := each inner (mem_cons_self ..) output enough
    have remaining : design.pending names (visit output inner).written < depth :=
      Nat.lt_of_le_of_lt (Design.pending_mono first.kept) enough
    obtain ⟨rest, others⟩ := ih
      (fun other member => each other (mem_cons_of_mem _ member)) remaining
    refine ⟨first.trans rest, ?_⟩
    intro other member module planned
    obtain rfl | member := mem_cons.mp member
    · exact rest.kept module (here module planned)
    · exact others other member module planned

theorem completes_visit (separate : names.Separate design) (depth : Nat) (output : Output)
    {circuit : Circuit} (reached : design.Reaches names circuit)
    (enough : design.pending names output.written < depth) : design.Completes names output.written
        (visit design settings names layouts depth output circuit).written ∧
      ∀ module, names.circuit? circuit.name = some module →
        module ∈ (visit design settings names layouts depth output circuit).written := by
  induction depth generalizing output circuit with
  | zero => omega
  | succ depth ih =>
    obtain ⟨unchanged, written⟩ | ⟨module, planned, absent, walked⟩ :=
      visit_cases design settings names layouts depth output circuit
    · rw [unchanged]
      exact ⟨.refl _, written⟩
    -- From here on one circuit less is pending, so one level less is deep enough.
    have claimed := Design.pending_append_lt reached.mem planned absent
    obtain ⟨box, boxed, visited⟩ | ⟨plain, messages, visited⟩ := walked
    · rw [visited, written_next]
      refine ⟨.around separate reached.mem planned (fun _ member => member)
        (fun _ member => .inl member) (.refl _) ?_, ?_⟩
      · intro plain
        rw [boxed] at plain
        cases plain
      · intro other same
        rw [planned] at same
        exact Option.some.inj same ▸ mem_append_right _ (mem_singleton_self _)
    · rw [visited]
      obtain ⟨kept, components, others⟩ := written_addComponents settings names circuit.name
        circuit.components (output.next module messages (Reporting.outcome
          ((design.wiring settings names layouts circuit module).unit settings.dialect)
          output.messages).1)
      rw [written_next] at kept others
      have fewer : design.pending names _ ≤ _ := Design.pending_mono kept
      obtain ⟨rest, inside⟩ := completes_foldl (fun inner inside state enough =>
        ih state (.inner reached planned plain inside) enough) (Nat.lt_of_le_of_lt fewer (by omega))
      refine ⟨.around separate reached.mem planned kept others rest ?_, ?_⟩
      · exact fun _ => ⟨fun component present ordinary module named =>
          rest.kept module (components component present ordinary module named), inside⟩
      · intro other same
        rw [planned] at same
        apply rest.kept
        exact Option.some.inj same ▸
          kept module (mem_append_right _ (mem_singleton_self _))

end Output

end Schematic
