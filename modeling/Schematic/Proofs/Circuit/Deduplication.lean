import Schematic.Proofs.Circuit.Coverage
import Schematic.Proofs.Circuit.Identifiers
import Schematic.Proofs.Component.Sharing

/-! # Which components get which modules -/

open List

namespace Schematic

open Text

theorem exists_lookup {α β : Type} [BEq α] [LawfulBEq α] {entries : List (α × β)} {key : α}
    {value : β} (listed : (key, value) ∈ entries) : ∃ found, entries.lookup key = some found := by
  cases result : entries.lookup key with
  | some found => exact ⟨found, rfl⟩
  | none => exact absurd (lookup_eq_none_iff.mp result _ listed) (by simp)

def Component.MayAsk (component : Component) (settings : Settings) (circuit : String) : Prop :=
  ∃ variant, component.variant? = some variant ∧
    lower (component.baseName settings circuit variant) ∉ reservedModules.map lower

/-- A circuit whose components planning looks at. -/
structure Names.Enters (names : Names) (circuit : Circuit) : Prop where
  listed : names.Lists circuit.name
  plain : circuit.blackBox = none
  differ : circuit.PinsDiffer

namespace Planning

variable {circuit module : String} {component : Component} {variant : Variant}
  {registry : Naming.Registry} {state : Planning × List String} {design : Design}
  {settings : Settings} {planning : Planning}

theorem ok_of_nodup (circuit module : String) {seen : List String} (taken : List String)
    (names : Names) {pins : List Component} (nodup : (pins.map (·.pathName)).Nodup)
    (fresh : ∀ pin ∈ pins, pin.pathName ∉ seen) :
    ∃ later, (planPins circuit module seen taken names pins).2 = .ok later := by
  induction pins generalizing seen taken names with
  | nil => exact ⟨taken, rfl⟩
  | cons pin pins ih =>
    have unseen : seen.contains pin.pathName ≠ true := by
      rw [Ne, contains_iff_mem]
      exact fresh pin (mem_cons_self ..)
    rw [map_cons, nodup_cons] at nodup
    simp only [planPins, if_neg unseen]
    apply ih _ _ nodup.2
    intro other listed
    rw [mem_cons, not_or]
    refine ⟨?_, fresh other (mem_cons_of_mem _ listed)⟩
    intro same
    exact nodup.1 (mem_map.mpr ⟨other, listed, same⟩)

theorem planModule_of_claim (known : component.variant? = some variant)
    (claimed : planning.registry.claim (component.baseName settings circuit variant)
      (component.signature circuit (component.baseName settings circuit variant)) =
        .ok (module, registry)) : (planModule settings circuit planning component).names =
      planning.names.setModule circuit component.id module := by
  simp only [planModule, known]
  cases component.nameIssue settings circuit variant with
  | none => simp only [claimed]
  | some issue => simp only [report, claimed]

theorem modules_planComponents (settings : Settings) (circuit : String)
    (state : Planning × List String) (components : List Component) : state.1.names.modules ⊆
      (components.foldl (planComponent settings circuit) state).1.names.modules :=
  planComponents_preserves (motive := fun later => state.1.names.modules ⊆ later.names.modules)
    (fun _ _ => ⟨fun _ => id, fun _ => id, fun _ _ _ kept =>
      List.Subset.trans kept (subset_cons_self ..)⟩)
    (List.Subset.refl _)

theorem kept_reserved (settings : Settings) :
    Kept settings fun registry => registry.reserved = reservedModules.map lower := by
  intro registry later name signature module _ claimed reserved
  obtain ⟨_, rfl⟩ | ⟨_, _, _, rfl⟩ := Naming.Registry.claim_eq_ok claimed
  · exact reserved
  · exact reserved

theorem exists_module_planComponent
    (reserved : state.1.registry.reserved = reservedModules.map lower)
    (free : component.MayAsk settings circuit) : ∃ module, ((circuit, component.id), module) ∈
      (planComponent settings circuit state component).1.names.modules := by
  obtain ⟨variant, known, free⟩ := free
  have ordinary : ∀ kind ∈ Kind.leaves, kind ≠ .subcircuit ∧ kind.isSpecial = false := by decide
  obtain ⟨leaf, plain⟩ := ordinary _ (Component.kind_mem_leaves known)
  rw [planComponent, if_neg (by simp [plain]), if_neg leaf]
  have labelled : (state.1.withLabel circuit state.2 component).registry.reserved =
      reservedModules.map lower := reserved
  rw [← labelled] at free
  obtain ⟨module, later, claimed⟩ := Naming.Registry.exists_claim free
    (component.signature circuit (component.baseName settings circuit variant))
  refine ⟨module, ?_⟩
  rw [planModule_of_claim known claimed]
  exact mem_cons_self ..

theorem exists_module_planComponents
    (reserved : state.1.registry.reserved = reservedModules.map lower)
    {components : List Component} (present : component ∈ components)
    (free : component.MayAsk settings circuit) : ∃ module, ((circuit, component.id), module) ∈
      (components.foldl (planComponent settings circuit) state).1.names.modules := by
  induction components generalizing state with
  | nil => cases present
  | cons first components ih =>
    rcases mem_cons.mp present with rfl | later
    · obtain ⟨module, given⟩ := exists_module_planComponent reserved free
      exact ⟨module, modules_planComponents settings circuit _ components given⟩
    · exact ih (((kept_reserved settings).stepwise circuit first).planComponent reserved) later

def Served (settings : Settings) (names : Names) (circuit : Circuit) : Prop :=
  ∀ component ∈ circuit.components, component.MayAsk settings circuit.name →
    ∃ module, ((circuit.name, component.id), module) ∈ names.modules

def Serves (design : Design) (settings : Settings) (planning : Planning) : Prop :=
  ∀ circuit ∈ design.circuits, planning.names.Enters circuit →
    Served settings planning.names circuit

theorem Serves.extend {later : Planning} (serves : planning.Serves design settings)
    (modules : planning.names.modules ⊆ later.names.modules)
    (listed : ∀ circuit ∈ design.circuits, later.names.Enters circuit →
      planning.names.Lists circuit.name ∨ Served settings later.names circuit) :
    later.Serves design settings := by
  intro circuit member enters
  rcases listed circuit member enters with earlier | served
  · intro component present free
    obtain ⟨module, given⟩ :=
      serves circuit member ⟨earlier, enters.plain, enters.differ⟩ component present free
    exact ⟨module, modules given⟩
  · exact served

theorem lists_withPins (indexed : design.Indexed) {circuit other : Circuit}
    (member : circuit ∈ design.circuits) (present : other ∈ design.circuits)
    (listed : (planning.withPins design circuit module registry).names.Lists other.name) :
    other = circuit ∨ planning.names.Lists other.name := by
  obtain ⟨given, listed⟩ := listed
  rw [circuits_withPins] at listed
  rcases mem_cons.mp listed with here | earlier
  · exact .inl (inj_on_of_nodup_map indexed.names present member (congrArg Prod.fst here))
  · exact .inr ⟨given, earlier⟩

theorem serves_invariant (indexed : design.Indexed) :
    Invariant design settings (· ∈ design.circuits) fun planning =>
      planning.Serves design settings ∧ planning.registry.reserved = reservedModules.map lower where
  below _ _ := design.mem_of_mem_subcircuits
  report _ := id
  meet _ := id
  shut member unmet claimed box holds := by
    refine ⟨holds.1.extend (modules_withPins .. ▸ List.Subset.refl _) ?_,
      kept_reserved settings (.circuit _) claimed holds.2⟩
    intro other present enters
    refine .inl ((lists_withPins indexed member present enters.listed).resolve_left ?_)
    rintro rfl
    obtain ⟨taken, ended⟩ := ok_of_nodup other.name _ ((fixedNames design).map lower) _
      enters.differ fun _ _ => not_mem_nil
    exact box taken ended enters.plain
  opened member unmet claimed ended plain holds := by
    have reserved := kept_reserved settings (.circuit _) claimed holds.2
    refine ⟨holds.1.extend ?_ ?_, ((kept_reserved settings).invariant design).opened member unmet
      claimed ended plain holds.2⟩
    · exact List.Subset.trans (modules_withPins .. ▸ List.Subset.refl _)
        (modules_planComponents settings _ (_, _) _)
    · rintro other present ⟨listed, _, _⟩
      rw [Names.Lists, circuits_planComponents] at listed
      rcases lists_withPins indexed member present listed with rfl | earlier
      · exact .inr fun component here free => exists_module_planComponents reserved here free
      · exact .inl earlier

theorem Asks.name_eq {name base : String}
    (known : component.variant? = some variant) (identifier : Naming.IsIdentifier base)
    (asks : Asks settings name (component.signature circuit base)) : name = base := by
  generalize same : component.signature circuit base = signature at asks
  cases asks with
  | circuit home => exact absurd same (component.signature_ne_circuit known circuit base home)
  | component home other otherVariant otherKnown =>
    have parts := (Component.signature_eq_iff known otherKnown identifier
      (other.isIdentifier_baseName ..)).mp same
    exact parts.2.1.symm

structure Refuses (settings : Settings) (registry : Naming.Registry) : Prop where
  reserved : registry.reserved = reservedModules.map lower
  asked : ∀ signature module, (signature, module) ∈ registry.claims →
    ∃ name, Asks settings name signature ∧ lower name ∉ reservedModules.map lower

theorem kept_refuses (settings : Settings) : Kept settings (Refuses settings) := by
  intro registry later name signature module asks claimed refuses
  obtain ⟨_, rfl⟩ | ⟨unknown, _, _, rfl⟩ := Naming.Registry.claim_eq_ok claimed
  · exact refuses
  · refine ⟨refuses.reserved, ?_⟩
    intro other given listed
    rcases mem_cons.mp listed with here | earlier
    · cases here
      refine ⟨name, asks, ?_⟩
      rw [← refuses.reserved]
      exact Naming.Registry.not_reserved_of_claim unknown claimed
    · exact refuses.asked other given earlier

end Planning

namespace Design

variable {design : Design} {settings : Settings} {names : Names} {circuit : Circuit}
  {variant : Variant}

section

variable (indexed : design.Indexed) (planned : (design.plan settings).1 = .ok names)
  (member : circuit ∈ design.circuits)
include indexed planned member

theorem serves_of_plan (enters : names.Enters circuit) :
    Planning.Served settings names circuit := by
  obtain ⟨planning, rfl, serves, _⟩ := exists_of_plan (Planning.serves_invariant indexed)
    ⟨fun circuit _ ⟨⟨_, listed⟩, _, _⟩ => absurd listed not_mem_nil, rfl⟩ planned
  exact serves circuit member enters

theorem exists_module_iff (enters : names.Enters circuit) {component : Component}
    (present : component ∈ circuit.components) (known : component.variant? = some variant) :
    (∃ module, names.module? circuit.name component.id = some module) ↔
      lower (component.baseName settings circuit.name variant) ∉ reservedModules.map lower := by
  constructor
  · rintro ⟨module, named⟩
    obtain ⟨planning, rfl, consistent, refuses⟩ := exists_registry
      (Planning.kept_refuses settings) ⟨rfl, fun _ _ listed => absurd listed not_mem_nil⟩
      planned
    obtain ⟨other, claimed⟩ := consistent.claimed indexed member present named
    obtain rfl := Option.some.inj (claimed.variant_eq.symm.trans known)
    obtain ⟨name, asks, free⟩ := refuses.asked _ _ claimed.given
    rwa [asks.name_eq known (component.isIdentifier_baseName ..)] at free
  · intro free
    obtain ⟨module, listed⟩ :=
      serves_of_plan indexed planned member enters component present ⟨variant, known, free⟩
    exact exists_lookup listed

theorem module_eq_iff {other : Circuit}
    (otherMember : other ∈ design.circuits) {first second : Component}
    (present : first ∈ circuit.components) (otherPresent : second ∈ other.components)
    (kinds : first.kind = second.kind) (attributes : first.attributes = second.attributes)
    (known : first.variant? = some variant) (bases : first.baseName settings circuit.name variant =
      second.baseName settings other.name variant)
    {module otherModule : String} (named : names.module? circuit.name first.id = some module)
    (otherNamed : names.module? other.name second.id = some otherModule) : module = otherModule ↔
      (first.kind = .rom ∨ first.kind = .hdl → circuit.name = other.name) := by
  obtain ⟨planning, rfl, consistent⟩ := exists_planning planned
  obtain ⟨_, claimed⟩ := consistent.claimed indexed member present named
  obtain rfl := Option.some.inj (claimed.variant_eq.symm.trans known)
  obtain ⟨_, otherClaimed⟩ := consistent.claimed indexed otherMember otherPresent otherNamed
  have otherKnown := (Component.variant?_congr kinds attributes).symm.trans known
  obtain rfl := Option.some.inj (otherClaimed.variant_eq.symm.trans otherKnown)
  have texts : first.specificText circuit.name = second.specificText other.name ↔
      circuit.name = other.name := by
    rw [Component.specificText, Component.specificText, attributes, String.append_left_inj,
      String.append_left_inj]
  have specific := Component.isLabelSpecific_eq known
  rw [consistent.sound.name_eq_iff claimed.given otherClaimed.given,
    Component.signature_eq_iff known otherKnown (first.isIdentifier_baseName ..)
      (second.isIdentifier_baseName ..), specific, texts]
  simp [kinds, bases]

end

/-- Components of one kind with one set of attributes and one base name have one module wherever
they are, or none if that name is reserved; but of memories and of modules that are written
elsewhere, each circuit has its own. -/
theorem plan_deduplicates {draft : Draft} (checked : draft.check = .ok design)
    (planned : (design.plan settings).1 = .ok names) {circuit other : Circuit}
    (member : circuit ∈ design.circuits) (otherMember : other ∈ design.circuits)
    (enters : names.Enters circuit) (otherEnters : names.Enters other) {first second : Component}
    (present : first ∈ circuit.components) (otherPresent : second ∈ other.components)
    (kinds : first.kind = second.kind) (attributes : first.attributes = second.attributes)
    {variant : Variant} (known : first.variant? = some variant)
    (bases : first.baseName settings circuit.name variant =
      second.baseName settings other.name variant) :
    (lower (first.baseName settings circuit.name variant) ∈ reservedModules.map lower →
      names.module? circuit.name first.id = none ∧ names.module? other.name second.id = none) ∧
    (lower (first.baseName settings circuit.name variant) ∉ reservedModules.map lower →
      ∃ module otherModule, names.module? circuit.name first.id = some module ∧
        names.module? other.name second.id = some otherModule ∧
        (module = otherModule ↔
          (first.kind = .rom ∨ first.kind = .hdl → circuit.name = other.name))) := by
  have indexed := Draft.indexed_of_check checked
  have otherKnown := (Component.variant?_congr kinds attributes).symm.trans known
  have assigned := exists_module_iff indexed planned member enters present known
  have otherAssigned :=
    exists_module_iff indexed planned otherMember otherEnters otherPresent otherKnown
  rw [← bases] at otherAssigned
  constructor
  · intro reserved
    constructor
    · rw [Option.eq_none_iff_forall_ne_some]
      exact fun module named => assigned.mp ⟨module, named⟩ reserved
    · rw [Option.eq_none_iff_forall_ne_some]
      exact fun module named => otherAssigned.mp ⟨module, named⟩ reserved
  · intro free
    obtain ⟨module, named⟩ := assigned.mpr free
    obtain ⟨otherModule, otherNamed⟩ := otherAssigned.mpr free
    exact ⟨module, otherModule, named, otherNamed, module_eq_iff indexed planned member otherMember
      present otherPresent kinds attributes known bases named otherNamed⟩

/-- Inverters of two circuits share a module. -/
theorem plan_deduplicates_inverters :
    let gate (id : Int) : Component := ⟨id, .not, [("width", "4")], [], ""⟩
    let main : Circuit := ⟨"main", [], [gate 1, ⟨2, .subcircuit, [], [], "sub"⟩], none⟩
    let sub : Circuit := ⟨"sub", [], [gate 3], none⟩
    let design : Design := ⟨"d", "main", [main, sub], []⟩
    ∃ names module, (design.plan {}).1 = .ok names ∧
      names.module? "main" 1 = some module ∧ names.module? "sub" 3 = some module := by
  intro gate main sub design
  have checked : Draft.check ⟨"d", "main",
      [some ⟨"main", [], [some (gate 1), some ⟨2, .subcircuit, [], [], "sub"⟩], none⟩,
        some ⟨"sub", [], [some (gate 3)], none⟩], []⟩ = .ok design := by rfl
  have homes : (design.plan {}).1.toOption.map (fun names =>
      (names.circuit? "main", names.circuit? "sub")) = some (some "main", some "sub") := by
    decide +kernel
  cases planned : (design.plan {}).1 with
  | error failure => rw [planned] at homes; cases homes
  | ok names =>
    rw [planned, Except.toOption, Option.map_some, Option.some.injEq, Prod.mk.injEq] at homes
    have enters : names.Enters main := ⟨⟨"main", mem_of_lookup homes.1⟩, rfl, List.nodup_nil⟩
    have otherEnters : names.Enters sub := ⟨⟨"sub", mem_of_lookup homes.2⟩, rfl, List.nodup_nil⟩
    obtain ⟨_, assigned⟩ := plan_deduplicates checked planned (List.mem_cons_self ..)
      (List.mem_cons_of_mem _ (List.mem_singleton_self _)) enters otherEnters
      (List.mem_cons_self ..) (List.mem_singleton_self _) rfl rfl
      (rfl : (gate 1).variant? = some (.buffer true true)) (by decide +kernel)
    obtain ⟨module, otherModule, named, otherNamed, shared⟩ := assigned (by decide +kernel)
    obtain rfl := shared.mpr (by decide)
    exact ⟨names, module, rfl, named, otherNamed⟩

/-- One module that is written elsewhere, used in two circuits: the copies have equal attributes and
ask for one name, but get two. -/
theorem plan_copies_external_module :
    let block : Component :=
      ⟨1, .hdl, [("content", "entity foo is end;"), ("label", "foo")], [], ""⟩
    let main : Circuit := ⟨"main", [], [block, ⟨2, .subcircuit, [], [], "sub"⟩], none⟩
    let sub : Circuit := ⟨"sub", [], [block], none⟩
    let design : Design := ⟨"d", "main", [main, sub], []⟩
    Draft.check ⟨"d", "main",
        [some ⟨"main", [], [some block, some ⟨2, .subcircuit, [], [], "sub"⟩], none⟩,
          some ⟨"sub", [], [some block], none⟩], []⟩ = .ok design ∧
      (∃ variant, block.variant? = some variant ∧
        block.baseName {} "main" variant = block.baseName {} "sub" variant) ∧
      (design.plan {}).1.toOption.map
        (fun names => (names.module? "main" 1, names.module? "sub" 1)) =
          some (some "foo", some "foo_1") := by
  intro block main sub design
  exact ⟨rfl, ⟨_, rfl, by decide +kernel⟩, by decide +kernel⟩

end Design

end Schematic
