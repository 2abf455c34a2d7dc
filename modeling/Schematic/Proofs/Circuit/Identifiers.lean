import Schematic.Proofs.Circuit.Planning

/-! # Identifiers inside circuits -/

open List

namespace Schematic

open Text

variable {design : Design}

theorem clockTreePort_eq (tree : Int) :
    clockTreePort tree = "LOGISIM_CLOCK_TREE_" ++ toString tree := rfl

theorem lower_clockTreePort (tree : Int) :
    lower (clockTreePort tree) = "logisim_clock_tree_" ++ toString tree := by
  have mark : lower "LOGISIM_CLOCK_TREE_" = "logisim_clock_tree_" := by decide
  rw [clockTreePort_eq, lower_append, lower_toString_int, mark]

theorem lower_clockTreePort_inj {first second : Int}
    (same : lower (clockTreePort first) = lower (clockTreePort second)) : first = second := by
  rw [lower_clockTreePort, lower_clockTreePort] at same
  exact toString_int_injective (String.append_right_inj _ |>.mp same)

theorem take_lower_clockTreePort (tree : Int) :
    (lower (clockTreePort tree)).toList.take 9 = "logisim_c".toList := by
  rw [lower_clockTreePort, String.toList_append]
  exact take_append_of_le_length (by decide)

theorem nodup_treeIds (linked : design.Linked) : design.treeIds.Nodup := by
  have reordered : design.treeIds.Perm (design.clockTrees.map (·.id)) :=
    (mergeSort_perm ..).map _
  exact reordered.nodup_iff.mpr linked.treeIds

theorem nodup_fixedNames (linked : design.Linked) : ((fixedNames design).map lower).Nodup := by
  rw [fixedNames, map_append, nodup_append]
  refine ⟨by decide, ?_, ?_⟩
  · rw [map_map]
    exact (nodup_treeIds linked).map fun _ _ same => lower_clockTreePort_inj same
  · rintro name listed _ tree rfl
    rw [map_map] at tree
    obtain ⟨tree, _, same⟩ := mem_map.mp tree
    have beginnings : ∀ name ∈ [tickSignal, dynamicClockPort, hiddenInput, hiddenOutput,
        hiddenInout].map lower, name.toList.take 9 ≠ "logisim_c".toList := by decide
    apply beginnings name listed
    rw [← same]
    exact take_lower_clockTreePort tree

/-- No two pins of the circuit have one name. -/
def Circuit.PinsDiffer (circuit : Circuit) : Prop :=
  ((circuit.componentsOf .pin).map (·.pathName)).Nodup

namespace Names

variable {after : Names} {taken : List String} {name : String}

def inside (names : Names) (circuit : String) : List String :=
  ((names.ports.filter fun entry => entry.1.1 = circuit).map fun entry => lower entry.2) ++
    (names.instances.filter fun entry => entry.1.1 = circuit).map fun entry => lower entry.2

variable {design : Design} {names : Names} {circuit other : String}

theorem inside_setPort_self (names : Names) (circuit pin port : String) :
    (names.setPort circuit pin port).inside circuit = lower port :: names.inside circuit := by
  simp [inside, setPort]

theorem inside_setPort_of_ne (differ : other ≠ circuit) (names : Names) (pin port : String) :
    (names.setPort circuit pin port).inside other = names.inside other := by
  simp [inside, setPort, differ.symm]

theorem inside_setInstance_self (names : Names) (circuit : String) (component : Int)
    (label : String) : ((names.setInstance circuit component label).inside circuit).Perm
      (lower label :: names.inside circuit) := by
  simp [inside, setInstance, perm_middle]

theorem inside_setInstance_of_ne (differ : other ≠ circuit) (names : Names) (component : Int)
    (label : String) :
    (names.setInstance circuit component label).inside other = names.inside other := by
  simp [inside, setInstance, differ.symm]

/-- The names in each circuit differ in more than case, from each other and from the fixed ones. -/
structure Apart (design : Design) (names : Names) : Prop where
  fresh : ∀ circuit, (names.inside circuit ++ (fixedNames design).map lower).Nodup
  ports : ∀ entry ∈ names.ports, ∃ number, entry.2 = Naming.candidate (pinPort entry.1.2) number
  labels : ∀ entry ∈ names.instances, ∃ circuit ∈ design.circuits,
    ∃ component ∈ circuit.components, circuit.name = entry.1.1 ∧ component.id = entry.1.2 ∧
      ∃ number, entry.2 = Naming.candidate (labelBase component) number

def Covered (design : Design) (names : Names) (circuit : String) (taken : List String) : Prop :=
  names.inside circuit ++ (fixedNames design).map lower ⊆ taken

structure Extends (design : Design) (circuit : String) (before after : Names) : Prop where
  apart : after.Apart design
  others : ∀ other, other ≠ circuit → after.inside other = before.inside other

theorem Extends.trans {first second third : Names} (early : Extends design circuit first second)
    (late : Extends design circuit second third) : Extends design circuit first third :=
  ⟨late.apart, fun other differ => (late.others other differ).trans (early.others other differ)⟩

theorem fresh_of_free (apart : names.Apart design)
    (covered : names.Covered design circuit taken) (free : name ∉ taken)
    (own : (after.inside circuit).Perm (name :: names.inside circuit))
    (others : ∀ other, other ≠ circuit → after.inside other = names.inside other) (place : String) :
    (after.inside place ++ (fixedNames design).map lower).Nodup := by
  by_cases here : place = circuit
  · subst here
    have reordered := own.append_right ((fixedNames design).map lower)
    rw [reordered.nodup_iff, cons_append, nodup_cons]
    exact ⟨fun listed => free (covered listed), apart.fresh place⟩
  · rw [others place here]
    exact apart.fresh place

theorem covered_of_perm (covered : names.Covered design circuit taken)
    (own : (after.inside circuit).Perm (name :: names.inside circuit)) :
    after.Covered design circuit (name :: taken) := by
  intro listed member
  obtain member | fixed := mem_append.mp member
  · obtain rfl | earlier := mem_cons.mp (own.mem_iff.mp member)
    · exact mem_cons_self ..
    · exact mem_cons_of_mem _ (covered (mem_append_left _ earlier))
  · exact mem_cons_of_mem _ (covered (mem_append_right _ fixed))

theorem Apart.takePort (apart : names.Apart design)
    (covered : names.Covered design circuit taken) (pin : String) : Extends design circuit names
        (names.setPort circuit pin (Naming.takeUnique taken (pinPort pin)).1) ∧
      (names.setPort circuit pin (Naming.takeUnique taken (pinPort pin)).1).Covered design circuit
        (Naming.takeUnique taken (pinPort pin)).2 := by
  obtain ⟨number, chosen, free⟩ := Naming.takeUnique_free taken (pinPort pin)
  have own := List.Perm.of_eq (inside_setPort_self names circuit pin
    (Naming.takeUnique taken (pinPort pin)).1)
  have others : ∀ other, other ≠ circuit → (names.setPort circuit pin
      (Naming.takeUnique taken (pinPort pin)).1).inside other = names.inside other :=
    fun other differ => inside_setPort_of_ne differ ..
  refine ⟨⟨⟨fresh_of_free apart covered free own others, ?_, apart.labels⟩, others⟩,
    covered_of_perm covered own⟩
  intro entry added
  obtain rfl | earlier := mem_cons.mp added
  · exact ⟨number, chosen⟩
  · exact apart.ports entry earlier

theorem Apart.takeLabel (apart : names.Apart design) {circuit : Circuit}
    (covered : names.Covered design circuit.name taken) (member : circuit ∈ design.circuits)
    {component : Component} (present : component ∈ circuit.components) :
    Extends design circuit.name names (names.setInstance circuit.name component.id
        (Naming.takeUnique taken (labelBase component)).1) ∧
      (names.setInstance circuit.name component.id
        (Naming.takeUnique taken (labelBase component)).1).Covered design circuit.name
          (Naming.takeUnique taken (labelBase component)).2 := by
  obtain ⟨number, chosen, free⟩ := Naming.takeUnique_free taken (labelBase component)
  have own := inside_setInstance_self names circuit.name component.id
    (Naming.takeUnique taken (labelBase component)).1
  have others : ∀ other, other ≠ circuit.name → (names.setInstance circuit.name component.id
      (Naming.takeUnique taken (labelBase component)).1).inside other = names.inside other :=
    fun other differ => inside_setInstance_of_ne differ ..
  refine ⟨⟨⟨fresh_of_free apart covered free own others, apart.ports, ?_⟩, others⟩,
    covered_of_perm covered own⟩
  intro entry added
  obtain rfl | earlier := mem_cons.mp added
  · exact ⟨circuit, member, component, present, rfl, rfl, number, chosen⟩
  · exact apart.labels entry earlier

end Names

namespace Planning

variable {circuit : Circuit} {taken : List String} {names : Names} {module : String}
  {design : Design} {settings : Settings} {planning : Planning}

theorem extends_planPins {circuit : String} (module : String) (seen : List String)
    (apart : names.Apart design)
    (covered : names.Covered design circuit taken) (pins : List Component) :
    Names.Extends design circuit names (planPins circuit module seen taken names pins).1 ∧
      ∀ later, (planPins circuit module seen taken names pins).2 = .ok later →
        (planPins circuit module seen taken names pins).1.Covered design circuit later := by
  induction pins generalizing seen taken names with
  | nil =>
    refine ⟨⟨apart, fun _ _ => rfl⟩, ?_⟩
    intro later ended
    cases ended
    exact covered
  | cons pin pins ih =>
    simp only [planPins]
    split
    · refine ⟨⟨apart, fun _ _ => rfl⟩, ?_⟩
      intro later ended
      cases ended
    · obtain ⟨taking, still⟩ := apart.takePort covered pin.pathName
      obtain ⟨rest, reached⟩ := ih (pin.pathName :: seen) taking.apart still
      exact ⟨taking.trans rest, reached⟩

theorem nodup_of_planPins {circuit : String} {seen later : List String} {pins : List Component}
    (planned : (planPins circuit module seen taken names pins).2 = .ok later) :
    (pins.map (·.pathName)).Nodup ∧ ∀ pin ∈ pins, pin.pathName ∉ seen := by
  induction pins generalizing seen taken names with
  | nil => exact ⟨nodup_nil, fun _ listed => absurd listed not_mem_nil⟩
  | cons pin pins ih =>
    simp only [planPins] at planned
    split at planned
    · cases planned
    case isFalse unseen =>
      rw [contains_iff_mem] at unseen
      obtain ⟨nodup, fresh⟩ := ih planned
      constructor
      · refine nodup_cons.mpr ⟨?_, nodup⟩
        intro repeated
        obtain ⟨other, listed, same⟩ := mem_map.mp repeated
        exact fresh other listed (same ▸ mem_cons_self ..)
      · intro other listed
        obtain rfl | listed := mem_cons.mp listed
        · exact unseen
        · exact fun early => fresh other listed (mem_cons_of_mem _ early)

structure Advances (design : Design) (circuit : String) (before after : Planning × List String) :
    Prop where
  names : Names.Extends design circuit before.1.names after.1.names
  covered : after.1.names.Covered design circuit after.2
  circuits : after.1.names.circuits = before.1.names.circuits
  visited : after.1.visited = before.1.visited
  messages : before.1.messages <+: after.1.messages

theorem advances_planComponent (settings : Settings) (member : circuit ∈ design.circuits)
    {state : Planning × List String} (apart : state.1.names.Apart design)
    (covered : state.1.names.Covered design circuit.name state.2) {component : Component}
    (present : component ∈ circuit.components) :
    Advances design circuit.name state (planComponent settings circuit.name state component) := by
  obtain ⟨planning, taken⟩ := state
  obtain ⟨taking, still⟩ := apart.takeLabel covered member present
  rw [planComponent]
  split
  · exact ⟨⟨apart, fun _ _ => rfl⟩, covered, rfl, rfl, prefix_rfl⟩
  · split
    · exact ⟨taking, still, rfl, rfl, prefix_rfl⟩
    · obtain ⟨_, kept, planned⟩ | ⟨_, _, _, _, kept, _, _, planned⟩ := planModule_cases settings
        circuit.name (planning.withLabel circuit.name taken component) component
      · rw [planned]
        exact ⟨taking, still, rfl, rfl, kept⟩
      · rw [planned]
        exact ⟨⟨{ taking.apart with }, taking.others⟩, still, rfl, rfl, kept⟩

theorem advances_planComponents (settings : Settings) (member : circuit ∈ design.circuits)
    (apart : planning.names.Apart design)
    (covered : planning.names.Covered design circuit.name taken) :
    Advances design circuit.name (planning, taken)
      (circuit.components.foldl (planComponent settings circuit.name) (planning, taken)) := by
  refine List.foldlRecOn (motive := fun later : Planning × List String =>
    Advances design circuit.name (planning, taken) later) _ _
      ⟨⟨apart, fun _ _ => rfl⟩, covered, rfl, rfl, prefix_rfl⟩ ?_
  intro later soFar component present
  have next := advances_planComponent settings member soFar.names.apart soFar.covered present
  exact ⟨soFar.names.trans next.names, next.covered, next.circuits.trans soFar.circuits,
    next.visited.trans soFar.visited, soFar.messages.trans next.messages⟩

structure Distinct (design : Design) (planning : Planning) : Prop where
  apart : planning.names.Apart design
  unmet : ∀ circuit, circuit ∉ planning.visited → planning.names.inside circuit = []

theorem distinct_start (linked : design.Linked) : start.Distinct design where
  apart :=
    { fresh := fun circuit => by simpa [start, Names.inside] using nodup_fixedNames linked
      ports := by simp [start]
      labels := by simp [start] }
  unmet circuit _ := by simp [start, Names.inside]

theorem Distinct.withPins (distinct : planning.Distinct design)
    (unmet : circuit.name ∉ planning.visited) (module : String) (registry : Naming.Registry) :
    (planning.withPins design circuit module registry).Distinct design ∧
      ∀ taken, (pinsOf design planning circuit module).2 = .ok taken →
        (planning.withPins design circuit module registry).names.Covered design circuit.name
          taken := by
  have covered : (planning.names.setCircuit circuit.name module).Covered design circuit.name
      ((fixedNames design).map lower) := by
    have none : (planning.names.setCircuit circuit.name module).inside circuit.name = [] :=
      distinct.unmet circuit.name unmet
    rw [Names.Covered, none]
    exact List.Subset.refl _
  have apart : (planning.names.setCircuit circuit.name module).Apart design :=
    { distinct.apart with }
  obtain ⟨pins, reached⟩ := extends_planPins module [] apart covered (circuit.componentsOf .pin)
  refine ⟨⟨pins.apart, ?_⟩, reached⟩
  intro other absent
  obtain ⟨differ, absent⟩ := not_or.mp (mem_cons.not.mp absent)
  exact (pins.others other differ).trans (distinct.unmet other absent)

theorem Distinct.advances (settings : Settings) (distinct : planning.Distinct design)
    (unmet : circuit.name ∉ planning.visited)
    (registry : Naming.Registry) (member : circuit ∈ design.circuits)
    (ended : (pinsOf design planning circuit module).2 = .ok taken) :
    Advances design circuit.name (planning.withPins design circuit module registry, taken)
      (circuit.components.foldl (planComponent settings circuit.name)
        (planning.withPins design circuit module registry, taken)) := by
  obtain ⟨pins, covered⟩ := distinct.withPins unmet module registry
  exact advances_planComponents settings member pins.apart (covered taken ended)

theorem Distinct.withLabels (distinct : planning.Distinct design)
    (unmet : circuit.name ∉ planning.visited) (registry : Naming.Registry)
    (member : circuit ∈ design.circuits)
    (ended : (pinsOf design planning circuit module).2 = .ok taken) :
    (circuit.components.foldl (planComponent settings circuit.name)
      (planning.withPins design circuit module registry, taken)).1.Distinct design := by
  have pins := (distinct.withPins unmet module registry).1
  have labels := distinct.advances settings unmet registry member ended
  refine ⟨labels.names.apart, ?_⟩
  intro other absent
  rw [labels.visited] at absent
  have differ : other ≠ circuit.name := fun same => absent (same ▸ mem_cons_self ..)
  exact (labels.names.others other differ).trans (pins.unmet other absent)

theorem distinct_invariant (settings : Settings) :
    Invariant design settings (· ∈ design.circuits) (Distinct design) where
  below _ _ := design.mem_of_mem_subcircuits
  report _ distinct := ⟨distinct.apart, distinct.unmet⟩
  meet _ distinct := ⟨distinct.apart, fun other absent =>
    distinct.unmet other fun met => absent (mem_cons_of_mem _ met)⟩
  shut _ unmet _ _ distinct := (distinct.withPins unmet ..).1
  opened member unmet _ ended _ distinct := distinct.withLabels unmet _ member ended

/-- Pins with one name are reported, or planned circuits have none. -/
def Reported (design : Design) (planning : Planning) : Prop :=
  (∃ message ∈ planning.messages, message.severity = .fatal) ∨
    ∀ circuit ∈ design.circuits, planning.names.Lists circuit.name → circuit.PinsDiffer

theorem reported_start : start.Reported design := by
  refine .inr ?_
  rintro circuit _ ⟨module, listed⟩
  cases listed

theorem Reported.mono {later : Planning} (reported : planning.Reported design)
    (messages : planning.messages <+: later.messages)
    (circuits : later.names.circuits = planning.names.circuits) : later.Reported design := by
  obtain ⟨message, listed, fatal⟩ | differ := reported
  · exact .inl ⟨message, messages.subset listed, fatal⟩
  · refine .inr ?_
    rintro circuit member ⟨module, named⟩
    exact differ circuit member ⟨module, circuits ▸ named⟩

theorem severity_ofFailure (circuit : String) (failure : Failure) :
    (Message.ofFailure circuit failure).severity = .fatal := by
  cases failure <;> rfl

theorem reported_ofFailure (planning : Planning) (circuit : String) (failure : Failure) :
    (planning.report (.ofFailure circuit failure)).Reported design :=
  .inl ⟨_, mem_append_right _ (mem_singleton_self _), severity_ofFailure ..⟩

theorem Reported.withPins (indexed : design.Indexed) (reported : planning.Reported design)
    (member : circuit ∈ design.circuits) (registry : Naming.Registry)
    (ended : (pinsOf design planning circuit module).2 = .ok taken) :
    (planning.withPins design circuit module registry).Reported design := by
  obtain fatal | differ := reported
  · exact .inl fatal
  · refine .inr ?_
    rintro other present ⟨given, named⟩
    rw [circuits_withPins] at named
    obtain here | earlier := mem_cons.mp named
    · obtain rfl := inj_on_of_nodup_map indexed.names present member (congrArg Prod.fst here)
      exact (nodup_of_planPins ended).1
    · exact differ other present ⟨given, earlier⟩

theorem Reported.visit (settings : Settings) (indexed : design.Indexed) (depth : Nat)
    (distinct : planning.Distinct design) (reported : planning.Reported design)
    (member : circuit ∈ design.circuits)
    (succeeded : (visit design settings depth planning circuit).2 = none) :
    (Planning.visit design settings depth planning circuit).1.Reported design := by
  induction depth generalizing planning circuit with
  | zero => exact reported
  | succ depth ih =>
    have outcome := visits design settings depth planning circuit
    generalize Planning.visit design settings (depth + 1) planning circuit = result
      at outcome succeeded ⊢
    cases outcome with
    | again => exact reported
    | refused => cases succeeded
    | repeated => cases succeeded
    | closed module registry taken unmet ended =>
      exact reported.withPins indexed member registry ended
    | opened module registry taken unmet ended =>
      have labels := distinct.advances settings unmet registry member ended
      have wired := (reported.withPins indexed member registry ended).mono labels.messages
        labels.circuits
      refine (visitAll_preserves (motive := fun later =>
        later.Distinct design ∧ later.Reported design) ?_ ?_
          ⟨distinct.withLabels unmet registry member ended, wired⟩).2
      · rintro later ⟨distinct, reported⟩ inner below succeeded
        have present := design.mem_of_mem_subcircuits below
        exact ⟨(distinct_invariant settings).visit depth distinct present,
          ih distinct reported present succeeded⟩
      · rintro later ⟨distinct, reported⟩ inner below failure _
        have deeper := (distinct_invariant settings).visit depth distinct
          (design.mem_of_mem_subcircuits below)
        exact ⟨(distinct_invariant settings).report _ deeper, reported_ofFailure ..⟩

end Planning

namespace Design

variable {design : Design} {settings : Settings} {names : Names}

theorem apart_of_plan (linked : design.Linked) (planned : (design.plan settings).1 = .ok names) :
    names.Apart design := by
  obtain ⟨planning, rfl, distinct⟩ :=
    exists_of_plan (Planning.distinct_invariant settings) (Planning.distinct_start linked) planned
  exact distinct.apart

theorem pinsDiffer_of_plan (linked : design.Linked) (indexed : design.Indexed)
    (planned : (design.plan settings).1 = .ok names)
    (clean : ∀ message ∈ (design.plan settings).2, message.severity ≠ .fatal) {circuit : Circuit}
    (member : circuit ∈ design.circuits) {module : String}
    (named : names.circuit? circuit.name = some module) : circuit.PinsDiffer := by
  obtain ⟨top, root, planning, visited, rfl, messages⟩ := visit_of_plan planned
  have reported := Planning.reported_start.visit settings indexed (design.circuits.length + 1)
    (Planning.distinct_start linked) (circuit?_eq_some root).1 (by rw [visited])
  rw [visited] at reported
  obtain ⟨message, listed, fatal⟩ | differ := reported
  · exact absurd fatal (clean message (messages ▸ listed))
  · exact differ circuit member ⟨module, mem_of_lookup named⟩

end Design

namespace Names.Apart

variable {design : Design} {names : Names} {circuit : String} (apart : names.Apart design)
include apart

variable {pin port label : String} {component : Int}

theorem port_inj {first second firstPort secondPort : String}
    (firstNamed : names.port? circuit first = some firstPort)
    (secondNamed : names.port? circuit second = some secondPort)
    (same : lower firstPort = lower secondPort) : first = second := by
  have nodup := (nodup_append.mp (nodup_append.mp (apart.fresh circuit)).1).1
  have own : ∀ {pin port : String}, names.port? circuit pin = some port →
      ((circuit, pin), port) ∈ names.ports.filter fun entry => entry.1.1 = circuit :=
    fun named => mem_filter.mpr ⟨mem_of_lookup named, by simp⟩
  have entries := inj_on_of_nodup_map nodup (own firstNamed) (own secondNamed) same
  exact congrArg (·.1.2) entries

theorem label_inj {first second : Int} {firstLabel secondLabel : String}
    (firstNamed : names.instance? circuit first = some firstLabel)
    (secondNamed : names.instance? circuit second = some secondLabel)
    (same : lower firstLabel = lower secondLabel) : first = second := by
  have nodup := (nodup_append.mp (nodup_append.mp (apart.fresh circuit)).1).2.1
  have own : ∀ {component : Int} {label : String},
      names.instance? circuit component = some label →
      ((circuit, component), label) ∈ names.instances.filter fun entry => entry.1.1 = circuit :=
    fun named => mem_filter.mpr ⟨mem_of_lookup named, by simp⟩
  have entries := inj_on_of_nodup_map nodup (own firstNamed) (own secondNamed) same
  exact congrArg (·.1.2) entries

omit apart in
theorem lower_port_mem_inside (named : names.port? circuit pin = some port) :
    lower port ∈ names.inside circuit :=
  mem_append_left _ (mem_map.mpr
    ⟨_, mem_filter.mpr ⟨mem_of_lookup named, by simp⟩, rfl⟩)

omit apart in
theorem lower_label_mem_inside (named : names.instance? circuit component = some label) :
    lower label ∈ names.inside circuit :=
  mem_append_right _ (mem_map.mpr
    ⟨_, mem_filter.mpr ⟨mem_of_lookup named, by simp⟩, rfl⟩)

theorem port_ne_label (named : names.port? circuit pin = some port)
    (labelled : names.instance? circuit component = some label) : lower port ≠ lower label := by
  have separate := (nodup_append.mp (nodup_append.mp (apart.fresh circuit)).1).2.2
  apply separate
  · exact mem_map.mpr ⟨_, mem_filter.mpr ⟨mem_of_lookup named, by simp⟩, rfl⟩
  · exact mem_map.mpr ⟨_, mem_filter.mpr ⟨mem_of_lookup labelled, by simp⟩, rfl⟩

theorem ne_fixed {name fixed : String} (planned : lower name ∈ names.inside circuit)
    (listed : fixed ∈ fixedNames design) : lower name ≠ lower fixed :=
  (nodup_append.mp (apart.fresh circuit)).2.2 _ planned _
    (mem_map.mpr ⟨fixed, listed, rfl⟩)

theorem exists_label (indexed : design.Indexed) {circuit : Circuit}
    (member : circuit ∈ design.circuits) {component : Component}
    (present : component ∈ circuit.components)
    (named : names.instance? circuit.name component.id = some label) :
    ∃ number, label = Naming.candidate (labelBase component) number := by
  obtain ⟨home, homeMember, owner, owned, name, id, number, form⟩ :=
    apart.labels _ (mem_of_lookup named)
  obtain rfl := inj_on_of_nodup_map indexed.names homeMember member name
  obtain rfl := inj_on_of_nodup_map (indexed.circuits home member).componentIds owned present
    id
  exact ⟨number, form⟩

theorem exists_port (named : names.port? circuit pin = some port) :
    ∃ number, port = Naming.candidate (pinPort pin) number :=
  apart.ports _ (mem_of_lookup named)

end Names.Apart

end Schematic
