import Schematic.Circuit.Plan
import Schematic.Proofs.Naming.Legal
import Schematic.Proofs.Netlist.Checked

/-! # What planning promises -/

open List

namespace Schematic

def startsWithCapital (text : String) : Bool :=
  match text.toList with
  | c :: _ => 'A' ≤ c && c ≤ 'Z'
  | [] => false

variable {first : String} {design : Design} {names : Names}

theorem startsWithCapital_append (capital : startsWithCapital first = true) (second : String) :
    startsWithCapital (first ++ second) = true := by
  simp only [startsWithCapital, String.toList_append] at capital ⊢
  cases chars : first.toList with
  | nil => rw [chars] at capital; cases capital
  | cons c rest => rwa [chars] at capital

theorem startsWithCapital_candidate {name : String} (capital : startsWithCapital name = true)
    (number : Nat) : startsWithCapital (Naming.candidate name number) = true := by
  cases number with
  | zero => exact capital
  | succ number =>
    rw [Naming.candidate_succ]
    exact startsWithCapital_append (startsWithCapital_append capital _) _

def Variant.categories : List String :=
  ["gates", "plexers", "arithmetic", "memory", "io", "custom"]

theorem Variant.category_mem (variant : Variant) : variant.category ∈ categories := by
  cases variant <;> simp [category, categories]

theorem Component.startsWithCapital_instanceCategory (component : Component) :
    startsWithCapital component.instanceCategory = true := by
  have capital : ∀ category ∈ Variant.categories,
      startsWithCapital (Text.upper category) = true := by decide
  simp only [instanceCategory]
  split
  · decide
  · split
    case h_1 variant _ => exact capital _ variant.category_mem
    case h_2 => decide

theorem Component.isIdentifier_baseName (component : Component) (settings : Settings)
    (circuit : String) (variant : Variant) :
    Naming.IsIdentifier (component.baseName settings circuit variant) := by
  rw [baseName, Naming.expand]
  exact Naming.isIdentifier_sanitize _

theorem Circuit.signature_inj {second : String} (same : signature first = signature second) :
    first = second := by
  have lists := congrArg String.toList same
  simp only [signature, String.toList_append, append_cancel_left_eq] at lists
  exact String.toList_inj.mp lists

theorem Design.mem_of_mem_subcircuits {circuit inner : Circuit}
    (below : inner ∈ design.subcircuits circuit) : inner ∈ design.circuits := by
  obtain ⟨_, _, found⟩ := mem_filterMap.mp below
  exact (design.circuit?_eq_some found).1

/-- The circuit has a planned module. -/
def Names.Lists (names : Names) (circuit : String) : Prop :=
  ∃ module, (circuit, module) ∈ names.circuits

namespace Planning

variable {registry : Naming.Registry} {circuit : Circuit} {component : Component} {module : String}
  {state : Planning × List String} {design : Design} {settings : Settings} {planning : Planning}

/-! ## What planning does, step by step -/

theorem planPins_names (circuit module : String) (seen taken : List String) (names : Names)
    (pins : List Component) :
    ∃ ports, (planPins circuit module seen taken names pins).1 = { names with ports } := by
  induction pins generalizing seen taken names with
  | nil => exact ⟨names.ports, rfl⟩
  | cons pin pins ih =>
    simp only [planPins]
    split
    · exact ⟨names.ports, rfl⟩
    · obtain ⟨ports, planned⟩ := ih (pin.pathName :: seen)
        (Naming.takeUnique taken (pinPort pin.pathName)).2
        (names.setPort circuit pin.pathName (Naming.takeUnique taken (pinPort pin.pathName)).1)
      exact ⟨ports, by rw [planned]; rfl⟩

def visitAll (design : Design) (settings : Settings) (depth : Nat) (planning : Planning)
    (inners : List Circuit) : Planning :=
  inners.foldl
    (fun planning inner =>
      match visit design settings depth planning inner with
      | (planning, none) => planning
      | (planning, some failure) => planning.report (.ofFailure inner.name failure))
    planning

/-- What a visit to a circuit does. -/
inductive Visits (design : Design) (settings : Settings) (depth : Nat) (planning : Planning)
    (circuit : Circuit) : Planning × Option Failure → Prop
  | again : circuit.name ∈ planning.visited →
      Visits design settings depth planning circuit (planning, none)
  | refused (failure : Failure) : circuit.name ∉ planning.visited →
      Visits design settings depth planning circuit (planning.meet circuit, some failure)
  | repeated (module : String) (registry : Naming.Registry) (failure : Failure) :
      circuit.name ∉ planning.visited → planning.claimOf circuit = .ok (module, registry) →
      (pinsOf design planning circuit module).2 = .error failure →
      Visits design settings depth planning circuit
        (planning.withPins design circuit module registry, some failure)
  | closed (module : String) (registry : Naming.Registry) (taken : List String) :
      circuit.name ∉ planning.visited → (pinsOf design planning circuit module).2 = .ok taken →
      planning.claimOf circuit = .ok (module, registry) → circuit.blackBox ≠ none →
      Visits design settings depth planning circuit
        (planning.withPins design circuit module registry, none)
  | opened (module : String) (registry : Naming.Registry) (taken : List String) :
      circuit.name ∉ planning.visited → (pinsOf design planning circuit module).2 = .ok taken →
      circuit.blackBox = none → planning.claimOf circuit = .ok (module, registry) →
      Visits design settings depth planning circuit
        (visitAll design settings depth
          (circuit.components.foldl (planComponent settings circuit.name)
            (planning.withPins design circuit module registry, taken)).1
          (design.subcircuits circuit), none)

theorem visits (design : Design) (settings : Settings) (depth : Nat) (planning : Planning)
    (circuit : Circuit) : Visits design settings depth planning circuit
      (visit design settings (depth + 1) planning circuit) := by
  simp only [Planning.visit]
  split
  case isTrue met => exact .again (contains_iff_mem.mp met)
  case isFalse unmet =>
    rw [contains_iff_mem] at unmet
    split
    · exact .refused _ unmet
    case h_2 module registry claimed =>
      split
      case h_1 failure stopped => exact .repeated module registry _ unmet claimed stopped
      case h_2 taken ended =>
        split
        case isTrue box =>
          exact .closed module registry taken unmet ended claimed
            (Option.isSome_iff_ne_none.mp box)
        case isFalse notBox =>
          exact .opened module registry taken unmet ended
            (Option.not_isSome_iff_eq_none.mp notBox) claimed

variable {motive : Planning → Prop}

theorem visitAll_preserves {depth : Nat} {inners : List Circuit}
    (each : ∀ planning, motive planning → ∀ inner ∈ inners, (visit design settings depth planning
      inner).2 = none → motive (visit design settings depth planning inner).1)
    (failed : ∀ planning, motive planning → ∀ inner ∈ inners, ∀ failure, (visit design settings
      depth planning inner).2 = some failure → motive ((visit design settings depth planning
      inner).1.report (.ofFailure inner.name failure))) (holds : motive planning) :
    motive (visitAll design settings depth planning inners) := by
  refine List.foldlRecOn (motive := motive) _ _ holds ?_
  intro later holds inner below
  split
  case h_1 ended =>
    have kept := each later holds inner below
    rw [ended] at kept
    exact kept rfl
  case h_2 failure ended =>
    have kept := failed later holds inner below failure
    rw [ended] at kept
    exact kept rfl

theorem planModule_cases (settings : Settings) (circuit : String) (planning : Planning)
    (component : Component) :
    (∃ messages, planning.messages <+: messages ∧
      planModule settings circuit planning component = { planning with messages }) ∨
      ∃ variant module registry messages, planning.messages <+: messages ∧
        component.variant? = some variant ∧
        planning.registry.claim (component.baseName settings circuit variant)
          (component.signature circuit (component.baseName settings circuit variant)) =
            .ok (module, registry) ∧ planModule settings circuit planning component =
          { planning with
            registry, messages, names :=
              planning.names.setModule circuit component.id module } := by
  have reported : ∀ (planning : Planning) (message : Message),
      planning.messages <+: (planning.report message).messages := fun _ _ => prefix_append ..
  cases known : component.variant? with
  | none =>
    left
    simp only [planModule, known]
    exact ⟨_, reported .., rfl⟩
  | some variant =>
    cases claimed : planning.registry.claim (component.baseName settings circuit variant)
        (component.signature circuit (component.baseName settings circuit variant)) with
    | error reserved =>
      left
      simp only [planModule, known]
      cases component.nameIssue settings circuit variant with
      | none => simp only [claimed]; exact ⟨_, reported .., rfl⟩
      | some issue =>
        simp only [report, claimed]
        exact ⟨_, (reported ..).trans (reported ..), rfl⟩
    | ok given =>
      right
      simp only [planModule, known]
      cases component.nameIssue settings circuit variant with
      | none =>
        exact ⟨variant, given.1, given.2, _, prefix_rfl, rfl, claimed, by simp only [claimed]⟩
      | some issue => exact ⟨variant, given.1, given.2, _, reported .., rfl, claimed, by
          simp only [report, claimed]; rfl⟩

/-- A property that planning one component keeps. -/
structure Stepwise (settings : Settings) (circuit : String) (component : Component)
    (motive : Planning → Prop) : Prop where
  report : ∀ {planning : Planning} (messages : List Message), motive planning →
    motive { planning with messages }
  label : ∀ {planning : Planning} (taken : List String), motive planning →
    motive (planning.withLabel circuit taken component)
  module : ∀ {planning : Planning} {variant : Variant} {module : String}
    {registry : Naming.Registry}, component.kind.isSpecial = false →
    component.variant? = some variant →
    planning.registry.claim (component.baseName settings circuit variant)
      (component.signature circuit (component.baseName settings circuit variant)) =
        .ok (module, registry) → motive planning →
    motive { planning with
      registry, names := planning.names.setModule circuit component.id module }

theorem Stepwise.planComponent {circuit : String}
    (steps : Stepwise settings circuit component motive) (holds : motive state.1) :
    motive (planComponent settings circuit state component).1 := by
  rw [Planning.planComponent]
  split
  · exact holds
  case isFalse instantiated =>
    split
    · exact steps.label _ holds
    case isFalse inner =>
      have ordinary : component.kind.isSpecial = false := by simpa [inner] using instantiated
      obtain ⟨messages, _, planned⟩ | ⟨_, _, _, messages, _, known, claimed, planned⟩ :=
        planModule_cases settings circuit (state.1.withLabel circuit state.2 component) component
      · rw [planned]
        exact steps.report messages (steps.label _ holds)
      · rw [planned]
        exact steps.report messages (steps.module ordinary known claimed (steps.label _ holds))

theorem planComponents_preserves {circuit : String} {components : List Component}
    (steps : ∀ component ∈ components, Stepwise settings circuit component motive)
    (holds : motive state.1) : motive (components.foldl (planComponent settings circuit) state).1 :=
  List.foldlRecOn (motive := fun later : Planning × List String => motive later.1) components _
    holds fun _ holds component present => (steps component present).planComponent holds

theorem circuits_planComponents (settings : Settings) (circuit : String)
    (state : Planning × List String) (components : List Component) :
    (components.foldl (planComponent settings circuit) state).1.names.circuits =
      state.1.names.circuits :=
  planComponents_preserves
    (motive := fun later => later.names.circuits = state.1.names.circuits)
    (fun _ _ => ⟨fun _ => id, fun _ => id, fun _ _ _ => id⟩) rfl

section

variable (design : Design) (planning : Planning) (circuit : Circuit) (module : String)
  (registry : Naming.Registry)

theorem names_withPins : ∃ ports, (planning.withPins design circuit module registry).names =
    { planning.names.setCircuit circuit.name module with ports } :=
  planPins_names ..

theorem circuits_withPins : (planning.withPins design circuit module registry).names.circuits =
    (circuit.name, module) :: planning.names.circuits := by
  obtain ⟨ports, named⟩ := names_withPins design planning circuit module registry
  rw [named]
  rfl

theorem instances_withPins : (planning.withPins design circuit module registry).names.instances =
    planning.names.instances := by
  obtain ⟨ports, named⟩ := names_withPins design planning circuit module registry
  rw [named]
  rfl

theorem modules_withPins : (planning.withPins design circuit module registry).names.modules =
    planning.names.modules := by
  obtain ⟨ports, named⟩ := names_withPins design planning circuit module registry
  rw [named]
  rfl

end

/-- A property that every step of planning keeps. -/
structure Invariant (design : Design) (settings : Settings) (reached : Circuit → Prop)
    (motive : Planning → Prop) : Prop where
  below : ∀ {circuit inner : Circuit}, reached circuit → circuit.blackBox = none →
    inner ∈ design.subcircuits circuit → reached inner
  report : ∀ {planning : Planning} (messages : List Message), motive planning →
    motive { planning with messages }
  meet : ∀ {planning : Planning} (circuit : Circuit), motive planning →
    motive (planning.meet circuit)
  shut : ∀ {planning : Planning} {circuit : Circuit} {module : String}
    {registry : Naming.Registry}, reached circuit → circuit.name ∉ planning.visited →
    planning.claimOf circuit = .ok (module, registry) →
    (∀ taken, (pinsOf design planning circuit module).2 = .ok taken → circuit.blackBox ≠ none) →
    motive planning → motive (planning.withPins design circuit module registry)
  opened : ∀ {planning : Planning} {circuit : Circuit} {module : String}
    {registry : Naming.Registry} {taken : List String}, reached circuit →
    circuit.name ∉ planning.visited → planning.claimOf circuit = .ok (module, registry) →
    (pinsOf design planning circuit module).2 = .ok taken → circuit.blackBox = none →
    motive planning → motive (circuit.components.foldl (planComponent settings circuit.name)
      (planning.withPins design circuit module registry, taken)).1

namespace Invariant

variable {reached : Circuit → Prop} {motive further : Planning → Prop}

theorem visit (invariant : Invariant design settings reached motive) (depth : Nat)
    (holds : motive planning) (here : reached circuit) :
    motive (visit design settings depth planning circuit).1 := by
  induction depth generalizing planning circuit with
  | zero => exact holds
  | succ depth ih =>
    have outcome := visits design settings depth planning circuit
    generalize Planning.visit design settings (depth + 1) planning circuit = result at outcome ⊢
    cases outcome with
    | again => exact holds
    | refused => exact invariant.meet circuit holds
    | repeated module registry failure unmet claimed stopped =>
      refine invariant.shut here unmet claimed (fun taken ended => ?_) holds
      cases stopped.symm.trans ended
    | closed module registry taken unmet ended claimed box =>
      exact invariant.shut here unmet claimed (fun _ _ => box) holds
    | opened module registry taken unmet ended plain claimed =>
      refine visitAll_preserves ?_ ?_ (invariant.opened here unmet claimed ended plain holds)
      · intro later holds inner listed _
        exact ih holds (invariant.below here plain listed)
      · intro later holds inner listed failure _
        exact invariant.report _ (ih holds (invariant.below here plain listed))

theorem and (first : Invariant design settings reached motive)
    (second : Invariant design settings reached further) :
    Invariant design settings reached fun planning => motive planning ∧ further planning where
  below := first.below
  report messages holds := ⟨first.report messages holds.1, second.report messages holds.2⟩
  meet circuit holds := ⟨first.meet circuit holds.1, second.meet circuit holds.2⟩
  shut here unmet claimed box holds :=
    ⟨first.shut here unmet claimed box holds.1, second.shut here unmet claimed box holds.2⟩
  opened here unmet claimed ended plain holds :=
    ⟨first.opened here unmet claimed ended plain holds.1,
    second.opened here unmet claimed ended plain holds.2⟩

end Invariant

end Planning

namespace Design

variable {design : Design} {settings : Settings} {names : Names}

theorem visit_of_plan (planned : (design.plan settings).1 = .ok names) :
    ∃ top, design.topCircuit? = some top ∧ ∃ planning,
      Planning.visit design settings (design.circuits.length + 1) .start top = (planning, none) ∧
        planning.names = names ∧ planning.messages = (design.plan settings).2 := by
  simp only [Design.plan] at planned ⊢
  split at planned
  · cases planned
  case h_2 top found =>
    refine ⟨top, found, ?_⟩
    split at planned
    case h_1 planning visited =>
      exact ⟨planning, visited, Except.ok.inj planned, rfl⟩
    case h_2 => cases planned

theorem exists_of_plan {motive : Planning → Prop}
    (invariant : Planning.Invariant design settings (· ∈ design.circuits) motive)
    (start : motive .start) (planned : (design.plan settings).1 = .ok names) :
    ∃ planning : Planning, planning.names = names ∧ motive planning := by
  obtain ⟨top, root, planning, visited, named, _⟩ := visit_of_plan planned
  have holds := invariant.visit (design.circuits.length + 1) start (circuit?_eq_some root).1
  rw [visited] at holds
  exact ⟨planning, named, holds⟩

end Design

namespace Planning

variable {registry : Naming.Registry} {circuit : Circuit} {component : Component} {module : String}
  {design : Design} {settings : Settings} {planning : Planning}

structure Claimed (design : Design) (settings : Settings) (registry : Naming.Registry)
    (circuit : Circuit) (component : Component) (variant : Variant) (module : String) : Prop where
  circuit_mem : circuit ∈ design.circuits
  component_mem : component ∈ circuit.components
  ordinary : component.kind.isSpecial = false
  variant_eq : component.variant? = some variant
  given : (component.signature circuit.name (component.baseName settings circuit.name variant),
    module) ∈ registry.claims

structure Consistent (design : Design) (settings : Settings) (planning : Planning) : Prop where
  sound : planning.registry.Sound
  identifiers : ∀ claim ∈ planning.registry.claims, Naming.IsIdentifier claim.2
  circuits : ∀ entry ∈ planning.names.circuits,
    (Circuit.signature entry.1, entry.2) ∈ planning.registry.claims
  modules : ∀ entry ∈ planning.names.modules, ∃ circuit component variant,
    circuit.name = entry.1.1 ∧ component.id = entry.1.2 ∧
      Claimed design settings planning.registry circuit component variant entry.2
  homes : ∀ entry ∈ planning.names.modules, planning.names.Lists entry.1.1
  labels : ∀ entry ∈ planning.names.instances, startsWithCapital entry.2 = true

theorem consistent_start : start.Consistent design settings where
  sound := Naming.Registry.sound_empty _
  identifiers := by simp [start, Naming.Registry.empty]
  circuits := by simp [start]
  modules := by simp [start]
  homes := by simp [start]
  labels := by simp [start]

theorem Claimed.extend {later : Naming.Registry} {variant : Variant}
    (claimed : Claimed design settings registry circuit component variant module)
    (extended : later.Extends registry) :
    Claimed design settings later circuit component variant module :=
  { claimed with given := extended _ claimed.given }

theorem Consistent.claim (consistent : planning.Consistent design settings)
    {name signature : String} (identifier : Naming.IsIdentifier name)
    (claimed : planning.registry.claim name signature = .ok (module, registry)) :
    { planning with registry }.Consistent design settings where
  sound := consistent.sound.of_claim claimed
  identifiers :=
    Naming.Registry.isIdentifier_of_claim consistent.identifiers identifier claimed
  circuits entry member :=
    Naming.Registry.extends_of_claim claimed _ (consistent.circuits entry member)
  modules entry member := by
    obtain ⟨circuit, component, variant, name, id, given⟩ := consistent.modules entry member
    exact ⟨circuit, component, variant, name, id,
      given.extend (Naming.Registry.extends_of_claim claimed)⟩
  homes := consistent.homes
  labels := consistent.labels

theorem Consistent.withPins (consistent : planning.Consistent design settings)
    (claimed : planning.claimOf circuit = .ok (module, registry)) :
    (planning.withPins design circuit module registry).Consistent design settings := by
  have extended := consistent.claim (Naming.isIdentifier_sanitize _) claimed
  refine ⟨extended.sound, extended.identifiers, ?_, ?_, ?_, ?_⟩
  · rw [circuits_withPins]
    intro entry added
    obtain rfl | earlier := mem_cons.mp added
    · exact Naming.Registry.mem_of_claim claimed
    · exact extended.circuits entry earlier
  · rw [modules_withPins]
    exact extended.modules
  · rw [modules_withPins]
    intro entry earlier
    obtain ⟨module, home⟩ := extended.homes entry earlier
    rw [Names.Lists, circuits_withPins]
    exact ⟨module, mem_cons_of_mem _ home⟩
  · rw [instances_withPins]
    exact extended.labels

theorem Consistent.withLabel (consistent : planning.Consistent design settings) (circuit : String)
    (taken : List String) (component : Component) :
    (planning.withLabel circuit taken component).Consistent design settings := by
  refine { consistent with labels := ?_ }
  intro entry added
  obtain rfl | earlier := mem_cons.mp added
  · obtain ⟨number, chosen, _⟩ := Naming.takeUnique_free taken (Names.labelBase component)
    rw [chosen]
    apply startsWithCapital_candidate
    exact startsWithCapital_append (startsWithCapital_append
      component.startsWithCapital_instanceCategory _) _
  · exact consistent.labels entry earlier

theorem Consistent.stepwise (member : circuit ∈ design.circuits)
    (present : component ∈ circuit.components) : Stepwise settings circuit.name component
      fun planning => planning.Consistent design settings ∧ planning.names.Lists circuit.name where
  report messages holds := ⟨{ holds.1 with }, holds.2⟩
  label taken holds := ⟨holds.1.withLabel circuit.name taken component, holds.2⟩
  module ordinary known claimed holds := by
    have extended := holds.1.claim (component.isIdentifier_baseName ..) claimed
    refine ⟨{ extended with modules := ?_, homes := ?_ }, holds.2⟩
    · intro entry added
      obtain rfl | earlier := mem_cons.mp added
      · exact ⟨circuit, component, _, rfl, rfl, member, present, ordinary, known,
          Naming.Registry.mem_of_claim claimed⟩
      · exact extended.modules entry earlier
    · intro entry added
      obtain rfl | earlier := mem_cons.mp added
      · exact holds.2
      · exact extended.homes entry earlier

theorem consistent_invariant :
    Invariant design settings (· ∈ design.circuits) (Consistent design settings) where
  below _ _ := design.mem_of_mem_subcircuits
  report _ consistent := { consistent with }
  meet _ consistent := { consistent with }
  shut _ _ claimed _ consistent := consistent.withPins claimed
  opened member _ claimed _ _ consistent := by
    refine (planComponents_preserves (fun _ present => Consistent.stepwise member present)
      ⟨consistent.withPins claimed, ?_⟩).1
    rw [Names.Lists, circuits_withPins]
    exact ⟨_, mem_cons_self ..⟩

theorem Consistent.claimed (consistent : planning.Consistent design settings)
    (indexed : design.Indexed) (member : circuit ∈ design.circuits)
    (present : component ∈ circuit.components)
    (named : planning.names.module? circuit.name component.id = some module) :
    ∃ variant, Claimed design settings planning.registry circuit component variant module := by
  obtain ⟨other, found, variant, name, id, claimed⟩ :=
    consistent.modules _ (mem_of_lookup named)
  obtain rfl := inj_on_of_nodup_map indexed.names claimed.circuit_mem member name
  obtain rfl := inj_on_of_nodup_map (indexed.circuits other member).componentIds
    claimed.component_mem present id
  exact ⟨variant, claimed⟩

end Planning

theorem Design.exists_planning {settings : Settings}
    (planned : (design.plan settings).1 = .ok names) :
    ∃ planning : Planning, planning.names = names ∧ planning.Consistent design settings :=
  exists_of_plan Planning.consistent_invariant Planning.consistent_start planned

/-! ## What planning asks of the registry -/

namespace Planning

inductive Asks (settings : Settings) : (name signature : String) → Prop
  | circuit (circuit : String) :
      Asks settings (Naming.sanitize circuit) (Circuit.signature circuit)
  | component (circuit : String) (component : Component) (variant : Variant) :
      component.variant? = some variant →
        Asks settings (component.baseName settings circuit variant)
        (component.signature circuit (component.baseName settings circuit variant))

def Kept (settings : Settings) (motive : Naming.Registry → Prop) : Prop :=
  ∀ ⦃registry later : Naming.Registry⦄ ⦃name signature module : String⦄,
    Asks settings name signature → registry.claim name signature = .ok (module, later) →
    motive registry → motive later

variable {settings : Settings} {motive : Naming.Registry → Prop}

theorem Kept.stepwise (kept : Kept settings motive) (circuit : String) (component : Component) :
    Stepwise settings circuit component fun planning => motive planning.registry where
  report _ := id
  label _ := id
  module _ known claimed := kept (.component circuit component _ known) claimed

theorem Kept.invariant (kept : Kept settings motive) (design : Design) :
    Invariant design settings (· ∈ design.circuits) fun planning => motive planning.registry where
  below _ _ := design.mem_of_mem_subcircuits
  report _ := id
  meet _ := id
  shut _ _ claimed _ := kept (.circuit _) claimed
  opened _ _ claimed _ _ holds := planComponents_preserves
    (motive := fun planning => motive planning.registry) (fun _ _ => kept.stepwise ..)
    (kept (.circuit _) claimed holds)

end Planning

theorem Design.exists_registry {settings : Settings} {motive : Naming.Registry → Prop}
    (kept : Planning.Kept settings motive) (start : motive Planning.start.registry)
    (planned : (design.plan settings).1 = .ok names) :
    ∃ planning : Planning, planning.names = names ∧ planning.Consistent design settings ∧
      motive planning.registry :=
  exists_of_plan (Planning.consistent_invariant.and (kept.invariant design))
    ⟨Planning.consistent_start, start⟩ planned

end Schematic
