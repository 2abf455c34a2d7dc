import Schematic.Proofs.Circuit.ForcedRoots
import Schematic.Proofs.Circuit.Generation
import Schematic.Proofs.Circuit.Widths
import Schematic.Proofs.Component.Payload

/-! # Generation without aborts -/

open List

namespace Schematic

open Hdl

variable {α β : Type}

/-- The outcome is no abort. -/
def Unaborted (given : Except Failure α) : Prop :=
  ∀ failure, given = .error failure → failure.abort? = none

theorem unaborted_ok (value : α) : Unaborted (.ok value) := by
  rintro failure ⟨⟩

theorem unaborted_error {failure : Failure} (ordinary : failure.abort? = none) :
    Unaborted (.error failure : Except Failure α) := by
  rintro _ ⟨⟩
  exact ordinary

theorem Unaborted.bind {given : Except Failure α} {next : α → Except Failure β}
    (first : Unaborted given) (rest : ∀ value, Unaborted (next value)) :
    Unaborted (given >>= next) := by
  cases given with
  | ok value => exact rest value
  | error failure => exact unaborted_error (first failure rfl)

theorem Unaborted.mapError {ε : Type} {amend : ε → Failure} (given : Except ε α)
    (ordinary : ∀ reason, given = .error reason → (amend reason).abort? = none) :
    Unaborted (given.mapError amend) := by
  cases given with
  | ok value => exact unaborted_ok value
  | error reason => exact unaborted_error (ordinary reason rfl)

theorem unaborted_mapM {step : α → Except Failure β} {items : List α}
    (each : ∀ item ∈ items, Unaborted (step item)) : Unaborted (items.mapM step) := by
  induction items with
  | nil => exact unaborted_ok _
  | cons item items ih =>
    obtain ⟨first, others⟩ := forall_mem_cons.mp each
    rw [mapM_cons]
    exact first.bind fun _ => (ih others).bind fun _ => unaborted_ok _

theorem Failure.abort?_asFatal (module : String) (failure : Failure) :
    (failure.asFatal module).abort? = failure.abort? := by
  cases failure <;> rfl

theorem Library.unaborted_fetch {library : Library}
    (located : ∀ file, Unaborted (library.locate file)) (module file : String) :
    Unaborted (library.fetch module file) := by
  refine Unaborted.bind (.mapError _ fun failure failed => ?_) fun path => ?_
  · rw [Failure.abort?_asFatal]
    exact located file failure failed
  · exact .mapError _ fun _ _ => rfl

/-- The search for external sources does not abort. -/
def Settings.Searchable (settings : Settings) : Prop :=
  ∀ library ∈ settings.library, ∀ file, Unaborted (library.locate file)

theorem Table.mem_of_mem_insert {κ : Type} [LT κ] [DecidableLT κ] [DecidableEq κ] {key : κ}
    {value : α} {table : Table κ α} {entry : κ × α} (listed : entry ∈ table.insert key value) :
    entry = (key, value) ∨ entry ∈ table := by
  fun_induction Table.insert key value table with
  | case1 => exact .inl (mem_singleton.mp listed)
  | case2 => exact (mem_cons.mp listed).imp_right (mem_cons_of_mem _)
  | case3 => exact mem_cons.mp listed
  | case4 k v rest _ _ ih =>
    obtain rfl | later := mem_cons.mp listed
    · exact .inr (mem_cons_self ..)
    · exact (ih later).imp_right (mem_cons_of_mem _)

namespace Hdl

/-- A fixed width has a property, and one that a generic sets may be any. -/
def Width.Within (holds : Nat → Prop) : Width → Prop
  | .bits count => holds count
  | .generic _ => True

@[simp]
theorem Width.within_bits {holds : Nat → Prop} {count : Nat} :
    (Width.bits count).Within holds ↔ holds count :=
  Iff.rfl

instance {holds : Nat → Prop} [DecidablePred holds] (width : Width) :
    Decidable (width.Within holds) := by
  cases width <;> unfold Width.Within <;> infer_instance

def Signals.Within (holds : Nat → Prop) (signals : Signals) : Prop :=
  ∀ entry ∈ signals, entry.2.Within holds

instance {holds : Nat → Prop} [DecidablePred holds] (signals : Signals) :
    Decidable (Signals.Within holds signals) :=
  inferInstanceAs (Decidable (∀ entry ∈ signals, entry.2.Within holds))

/-- Every fixed width that an interface declares has a property. -/
structure Interface.Within (holds : Nat → Prop) (interface : Interface) : Prop where
  inputs : Signals.Within holds interface.inputs
  outputs : Signals.Within holds interface.outputs
  inouts : Signals.Within holds interface.inouts
  wires : Signals.Within holds interface.wires
  registers : Signals.Within holds interface.registers

variable {holds : Nat → Prop} {interface : Interface} {width : Width}

theorem Signals.Within.insert {signals : Signals} (within : Signals.Within holds signals)
    (name : String) (fits : width.Within holds) :
    Signals.Within holds (Table.insert name width signals) := by
  intro entry listed
  obtain rfl | earlier := Table.mem_of_mem_insert listed
  · exact fits
  · exact within entry earlier

namespace Interface

theorem within_empty : ({} : Interface).Within holds :=
  ⟨by simp [Signals.Within], by simp [Signals.Within], by simp [Signals.Within],
    by simp [Signals.Within], by simp [Signals.Within]⟩

namespace Within

theorem addPorts (within : interface.Within holds) {entries : List PortEntry}
    (each : ∀ entry ∈ entries, entry.width.Within holds) :
    (interface.addPorts entries).Within holds := by
  induction entries generalizing interface with
  | nil => exact within
  | cons entry entries ih =>
    obtain ⟨fits, others⟩ := forall_mem_cons.mp each
    refine ih ?_ others
    obtain ⟨direction, name, width⟩ := entry
    cases direction with
    | input => exact { within with inputs := within.inputs.insert name fits }
    | output => exact { within with outputs := within.outputs.insert name fits }
    | bidirectional => exact { within with inouts := within.inouts.insert name fits }

theorem addWire (within : interface.Within holds) (name : String) (fits : width.Within holds) :
    (interface.addWire name width).Within holds :=
  { within with wires := within.wires.insert name fits }

theorem addRegister (within : interface.Within holds) (name : String)
    (fits : width.Within holds) : (interface.addRegister name width).Within holds :=
  { within with registers := within.registers.insert name fits }

theorem addMemory (within : interface.Within holds) (name : String) (memory : Memory) :
    (interface.addMemory name memory).Within holds :=
  ⟨within.inputs, within.outputs, within.inouts, within.wires, within.registers⟩

theorem addType (within : interface.Within holds) (type : MemoryType) :
    (interface.addType type).Within holds :=
  ⟨within.inputs, within.outputs, within.inouts, within.wires, within.registers⟩

theorem addWires (within : interface.Within holds) {wires : List (String × Width)}
    (each : ∀ wire ∈ wires, wire.2.Within holds) : (interface.addWires wires).Within holds := by
  induction wires generalizing interface with
  | nil => exact within
  | cons wire wires ih =>
    obtain ⟨fits, others⟩ := forall_mem_cons.mp each
    exact ih (within.addWire wire.1 fits) others

end Within

end Interface

end Hdl

theorem HiddenCount.within_entries {holds : Nat → Prop} {count : HiddenCount}
    (inputs : 0 < count.inputs → holds count.inputs.toNat)
    (outputs : 0 < count.outputs → holds count.outputs.toNat)
    (inouts : 0 < count.inouts → holds count.inouts.toNat) :
    ∀ entry ∈ count.entries, entry.width.Within holds := by
  intro entry listed
  simp only [entries, mem_append, mem_ite_nil_right, mem_singleton] at listed
  obtain (⟨some, rfl⟩ | ⟨some, rfl⟩) | ⟨some, rfl⟩ := listed
  · exact inputs some
  · exact outputs some
  · exact inouts some

namespace Variant

variable {variant : Variant} {holds : Nat → Prop} {entry : PortEntry}

/-- Each width that a variant itself gives to a port has a property. -/
def Each (holds : Nat → Prop) : Variant → Prop
  | .mux select _ => holds select
  | .rom addressBits dataBits _ => holds addressBits ∧ holds dataBits
  | .ram addressBits dataBits _ => holds addressBits ∧ holds dataBits
  | .dipSwitch width => holds width
  | .portIO width => holds width
  | .external ports => ∀ port ∈ externalPorts ports, holds port.width
  | _ => True

instance [DecidablePred holds] (variant : Variant) : Decidable (variant.Each holds) := by
  cases variant <;> unfold Each <;> infer_instance

section Each

variable (each : variant.Each holds) (one : holds 1) (two : holds 2) (bus : holds Clock.busWidth)
include one

theorem within_dataWidth (bus : Bool) : (dataWidth bus).Within holds := by
  cases bus with
  | false => exact one
  | true => trivial

omit one in
include two in
theorem within_computedWidth (bus : Bool) : (computedWidth bus).Within holds := by
  cases bus with
  | false => exact two
  | true => trivial

include each two bus

theorem within_openEntries : ∀ entry ∈ variant.openEntries, entry.width.Within holds := by
  have data := within_dataWidth one
  have computed := within_computedWidth two
  cases variant with
  | gate | buffer | adder | multiplier | led | button =>
    simp [openEntries, data, computed, one, or_imp, forall_and]
  | external ports =>
    simp only [Each] at each
    simpa [openEntries] using each
  | mux | rom | ram | register | dipSwitch | portIO =>
    simp only [Each] at each
    simp [openEntries, data, one, bus, each, or_imp, forall_and]

theorem within_entries : ∀ entry ∈ variant.entries, entry.width.Within holds := by
  refine forall_mem_append.mpr ⟨within_openEntries each one two bus, ?_⟩
  cases variant with
  | led => exact HiddenCount.within_entries (by simp [hidden]) (fun _ => one) (by simp [hidden])
  | button => exact HiddenCount.within_entries (fun _ => one) (by simp [hidden]) (by simp [hidden])
  | dipSwitch width =>
    exact HiddenCount.within_entries (fun _ => each) (by simp [hidden]) (by simp [hidden])
  | portIO width =>
    exact HiddenCount.within_entries (by simp [hidden]) (by simp [hidden]) fun _ => each
  | _ => exact fun entry listed => absurd listed not_mem_nil

end Each

theorem within_interface (each : variant.Each holds) (one : holds 1) (two : holds 2)
    (bus : holds Clock.busWidth) (dialect : Dialect) (vendor : Vendor) (module : String) :
    (variant.interface dialect vendor module).Within holds := by
  have ports : variant.ports.Within holds := by
    rw [ports]
    refine Interface.Within.addPorts ?_ (within_entries each one two bus)
    cases variant with
    | gate _ _ bus | buffer _ bus | mux _ bus | adder bus | multiplier bus | register bus _ =>
      cases bus <;> exact ⟨Interface.within_empty.inputs, Interface.within_empty.outputs,
        Interface.within_empty.inouts, Interface.within_empty.wires,
        Interface.within_empty.registers⟩
    | _ => exact Interface.within_empty
  cases variant with
  | mux select wide =>
    cases dialect with
    | vhdl => exact ports
    | verilog => exact ports.addRegister _ (within_dataWidth one wide)
  | adder wide =>
    have sum := within_computedWidth two wide
    exact ((ports.addWire _ sum).addWire _ sum).addWire _ sum
  | register wide trigger =>
    have state := ports.addRegister "s_state_reg" (within_dataWidth one wide)
    exact ⟨state.inputs, state.outputs, state.inouts, state.wires, state.registers⟩
  | rom addressBits dataBits lanes =>
    simp only [interface, withLanes]
    refine foldlRecOn _ _ (ports.addType _) fun interface within lane _ => ?_
    exact within.addMemory _ _
  | ram addressBits dataBits trigger => exact (ports.addType _).addMemory _ _
  | _ => exact ports

end Variant

theorem Attributes.one_le_positive (attributes : Attributes) (key : String) (default : Int) :
    1 ≤ attributes.positive key default := by
  unfold Attributes.positive
  omega

theorem ExternalPort.width_of_parse {item : String} {port : ExternalPort}
    (parsed : parse item = .ok port) : 0 < port.width := by
  simp only [parse] at parsed
  split at parsed
  case h_2 => cases parsed
  case h_1 =>
    split at parsed
    case h_1 => cases parsed
    case h_2 bits read =>
      split at parsed
      case h_1 => cases parsed
      case h_2 =>
        cases parsed
        have least := of_decide_eq_true (Option.filter_eq_some_iff.mp read).2
        simp only
        omega

theorem ExternalPort.width_of_parseAll {items : List String} {ports : List ExternalPort}
    (parsed : parseAll items = .ok ports) : ∀ port ∈ ports, 0 < port.width := by
  induction items generalizing ports with
  | nil =>
    cases parsed
    simp
  | cons item items ih =>
    simp only [parseAll] at parsed
    split at parsed
    case h_1 => cases parsed
    case h_2 port read =>
      cases rest : parseAll items with
      | error failure => rw [rest] at parsed; cases parsed
      | ok others =>
        rw [rest] at parsed
        cases parsed
        exact forall_mem_cons.mpr ⟨width_of_parse read, ih rest⟩

namespace Component

variable {component : Component} {variant : Variant}

theorem one_le_width (component : Component) : 1 ≤ component.width :=
  component.attributes.one_le_positive ..

theorem one_le_pinWidth (component : Component) : 1 ≤ component.pinWidth := by
  unfold pinWidth
  split
  · split
    case isTrue some => exact some
    case isFalse => exact component.one_le_width
  · exact component.one_le_width

theorem each_positive (known : component.variant? = some variant) : variant.Each (0 < ·) := by
  have positive := component.attributes.one_le_positive
  unfold variant? at known
  cases kind : component.kind <;> rw [kind] at known <;> cases known
  case mux => exact positive ..
  case rom => exact ⟨positive .., positive ..⟩
  case ram => exact ⟨positive .., positive ..⟩
  case dipSwitch => exact positive ..
  case portIO => exact positive ..
  case hdl =>
    intro port listed
    simp only [ExternalPort.parseList] at listed
    split at listed
    · cases listed
    · cases parsed : ExternalPort.parseAll (Text.splitAt ',' (Text.trim
          (component.attributes.text "ports" ""))) with
      | error failure => rw [parsed] at listed; cases listed
      | ok ports =>
        rw [parsed] at listed
        exact ExternalPort.width_of_parseAll parsed port listed
  all_goals trivial

/-- What a component asks to be allocated can be: the points of its ports and ends, and the words of
its memory, which have indices of 64 bits. -/
structure Allocatable (component : Component) : Prop where
  width : component.width * 16 ≤ greatestSize
  ends : ∀ e ∈ component.ends, e.points.length * 16 ≤ greatestSize
  ports : ∀ variant ∈ component.variant?, variant.Each (· * 16 ≤ greatestSize)
  product : component.kind = .multiplier → 2 * component.width * 16 ≤ greatestSize
  memory : component.kind = .rom → 2 ^ component.addressBits * 8 ≤ greatestSize ∧
    component.attributes.positive "lines" 1 * 24 ≤ greatestSize ∧
    2 ^ component.addressBits * component.attributes.positive "lines" 1 ≤ 2 ^ 63

instance (component : Component) : Decidable component.Allocatable :=
  decidable_of_iff (component.width * 16 ≤ greatestSize ∧
      (∀ e ∈ component.ends, e.points.length * 16 ≤ greatestSize) ∧
      (∀ variant ∈ component.variant?, variant.Each (· * 16 ≤ greatestSize)) ∧
      (component.kind = .multiplier → 2 * component.width * 16 ≤ greatestSize) ∧
      (component.kind = .rom → 2 ^ component.addressBits * 8 ≤ greatestSize ∧
        component.attributes.positive "lines" 1 * 24 ≤ greatestSize ∧
        2 ^ component.addressBits * component.attributes.positive "lines" 1 ≤ 2 ^ 63))
    ⟨fun ⟨width, ends, ports, product, memory⟩ => ⟨width, ends, ports, product, memory⟩,
      fun sizes => ⟨sizes.width, sizes.ends, sizes.ports, sizes.product, sizes.memory⟩⟩

theorem kind_of_multiplier {bus : Bool} (known : component.variant? = some (.multiplier bus)) :
    component.kind = .multiplier := by
  unfold variant? at known
  cases kind : component.kind <;> rw [kind] at known <;> cases known

theorem kind_of_rom {addressBits dataBits lanes : Nat}
    (known : component.variant? = some (.rom addressBits dataBits lanes)) :
    component.kind = .rom ∧ addressBits = component.addressBits ∧
      lanes = component.attributes.positive "lines" 1 := by
  unfold variant? at known
  cases kind : component.kind <;> rw [kind] at known <;> cases known
  exact ⟨rfl, rfl, rfl⟩

theorem floating_of_le {width : Nat} (small : width * 16 ≤ greatestSize) :
    floating width = .ok (List.replicate width Point.unconnected) := by
  rw [floating, MemoryContents.storable_of_le small]
  rfl

namespace Allocatable

variable (allocatable : component.Allocatable)
include allocatable

theorem pinWidth : component.pinWidth * 16 ≤ greatestSize := by
  unfold Component.pinWidth
  split
  case h_1 first _ listed =>
    split
    · exact allocatable.ends first (listed ▸ mem_cons_self ..)
    · exact allocatable.width
  case h_2 => exact allocatable.width

theorem portWidth (known : component.variant? = some variant) {name : String} {width : Int}
    (found : variant.ports.portWidth? name (variant.values component.width) = some width) :
    ∃ count : Nat, width = count ∧ count * 16 ≤ greatestSize := by
  have within := Variant.within_entries (allocatable.ports variant known) (by decide) (by decide)
    (by decide)
  simp only [Interface.portWidth?] at found
  split at found
  case h_3 => cases found
  case h_1 direction count declared =>
    cases found
    rw [Variant.ports] at declared
    exact ⟨count, rfl, within _ (Interface.mem_of_port? variant.portless_generics declared)⟩
  case h_2 direction number declared =>
    rw [Variant.ports] at declared
    have entry := Interface.mem_of_port? variant.portless_generics declared
    cases Variant.portWidth_of_mem entry with
    | bits count fixed => cases fixed
    | parameter bus first =>
      cases first
      rw [Variant.values_eq bus] at found
      cases found
      exact ⟨component.width, rfl, allocatable.width⟩
    | twice product _ second =>
      cases second
      subst product
      have small := allocatable.product (kind_of_multiplier known)
      have limit : greatestSize = 281474976710656 := rfl
      have fits : Word.fits (2 * (component.width : Int)) = true := by
        rw [Word.fits_iff, Word.least, Word.greatest]
        omega
      have value : (Variant.values component.width (.multiplier true)).find? 2 =
          some (Word.wrap (2 * component.width)) := rfl
      rw [value, Word.wrap_of_fits fits] at found
      cases found
      exact ⟨2 * component.width, by push_cast; rfl, small⟩

theorem unaborted_bindPort (known : component.variant? = some variant) (module : String)
    (spec : PortSpec) :
    Unaborted (component.bindPort module (variant.values component.width) variant.ports spec) := by
  unfold bindPort
  split
  case h_2 => exact unaborted_error rfl
  case h_1 direction _ width _ found =>
    dsimp only
    split
    · refine Unaborted.bind ?_ fun _ => unaborted_ok _
      simp only [bindClock]
      split
      · exact unaborted_ok _
      · exact unaborted_error rfl
    · refine Unaborted.bind ?_ fun _ => unaborted_ok _
      obtain ⟨count, rfl, small⟩ := allocatable.portWidth known found
      unfold bindEnd
      split
      · rw [floating_of_le small]
        exact unaborted_ok _
      · split
        · exact unaborted_ok _
        · exact unaborted_error rfl

theorem unaborted_bind (circuit : String) (planned : Option String) :
    Unaborted (component.bind circuit planned) := by
  unfold Component.bind
  split
  case h_2 => exact unaborted_error rfl
  case h_1 variant known =>
    refine Unaborted.bind ?_ fun module => ?_
    · unfold plannedModule
      split
      · exact unaborted_ok _
      · exact unaborted_error rfl
    have rest : Unaborted (do
        let generics ← component.bindGenerics module (variant.values component.width) variant.ports
        let ports ← variant.specs.mapM
          (component.bindPort module (variant.values component.width) variant.ports)
        return (⟨module, variant.ports, generics, ports, variant.hidden⟩ : Binding)) := by
      refine Unaborted.bind (unaborted_mapM fun entry _ => ?_) fun generics => ?_
      · obtain ⟨number, generic⟩ := entry
        dsimp only
        split
        · exact unaborted_ok _
        · exact unaborted_error rfl
      · exact (unaborted_mapM fun spec _ => allocatable.unaborted_bindPort known module spec).bind
          fun _ => unaborted_ok _
    split
    · exact unaborted_error rfl
    · exact rest

theorem unaborted_attachments (known : component.variant? = some variant) (vendor : Vendor)
    (module : String) : Unaborted (component.attachments variant vendor module) := by
  unfold attachments
  split
  case h_2 => exact unaborted_ok _
  case h_1 addressBits dataBits lanes =>
    refine (Unaborted.mapError _ fun _ _ => rfl).bind fun contents => ?_
    obtain ⟨kind, rfl, rfl⟩ := kind_of_rom known
    obtain ⟨addressed, several, indexed⟩ := allocatable.memory kind
    rw [MemoryContents.files, MemoryContents.dealt_eq dataBits addressed
      (component.attributes.one_le_positive ..) several indexed]
    exact unaborted_ok _

end Allocatable

theorem unaborted_externalUnit {settings : Settings} (searchable : settings.Searchable)
    (module category : String) (ports : Except PortListError (List ExternalPort)) :
    Unaborted (component.externalUnit settings module category ports) := by
  have text : Unaborted (component.externalText settings module) := by
    simp only [externalText]
    split
    · exact unaborted_ok _
    · split
      case h_1 => exact unaborted_error rfl
      case h_2 library found => exact library.unaborted_fetch (searchable library found) _ _
  simp only [externalUnit, Bind.bind, Except.bind, pure, Except.pure]
  split
  case h_2 => exact unaborted_error rfl
  case h_1 dialect _ =>
    split
    · exact unaborted_error rfl
    split
    case h_2 => exact unaborted_error rfl
    case h_1 =>
      split
      case h_1 failure failed => exact unaborted_error (text failure failed)
      case h_2 =>
        split
        · exact unaborted_error rfl
        split
        · exact unaborted_error rfl
        · exact unaborted_ok _

theorem Allocatable.unaborted_unit (allocatable : component.Allocatable) {settings : Settings}
    (searchable : settings.Searchable) (circuit : String) (planned : Option String) :
    Unaborted (component.unit settings circuit planned) := by
  unfold unit
  split
  case h_2 => exact unaborted_error rfl
  case h_1 variant known =>
    refine Unaborted.bind ?_ fun module => ?_
    · unfold plannedModule
      split
      · exact unaborted_ok _
      · exact unaborted_error rfl
    split
    · exact unaborted_externalUnit searchable _ _ _
    · have small : spelledWidth variant settings.dialect * 1 ≤ greatestSize := by
        unfold spelledWidth
        split
        · have narrow : _ * 16 ≤ _ := allocatable.ports _ known
          omega
        · exact Nat.zero_le _
      rw [MemoryContents.storable_of_le small]
      exact (allocatable.unaborted_attachments known _ _).bind fun _ => unaborted_ok _

end Component

namespace Reporting

/-- No run of the computation ends in an abort. -/
def Calm (computation : Reporting α) : Prop :=
  ∀ earlier, Unaborted (outcome computation earlier).1

theorem calm_pure (value : α) : Calm (pure value) :=
  fun _ => unaborted_ok value

theorem calm_throw {failure : Failure} (ordinary : failure.abort? = none) :
    Calm (throw failure : Reporting α) :=
  fun _ => unaborted_error ordinary

theorem calm_throw_bind {failure : Failure} (ordinary : failure.abort? = none)
    (next : α → Reporting β) : Calm (throw failure >>= next) :=
  fun _ => unaborted_error ordinary

theorem calm_report (message : Message) : Calm (report message) :=
  fun _ => unaborted_ok ()

theorem Calm.bind_of_yields {computation : Reporting α} {next : α → Reporting β}
    (first : Calm computation) (rest : ∀ value, Yields computation value → Calm (next value)) :
    Calm (computation >>= next) := by
  intro earlier
  have here := first earlier
  rw [outcome_bind]
  cases ran : outcome computation earlier with
  | mk given later =>
    rw [ran] at here
    cases given with
    | ok value => exact rest value ⟨earlier, later, ran⟩ later
    | error failure => exact unaborted_error (here failure rfl)

theorem Calm.bind {computation : Reporting α} {next : α → Reporting β} (first : Calm computation)
    (rest : ∀ value, Calm (next value)) : Calm (computation >>= next) :=
  first.bind_of_yields fun value _ => rest value

theorem composes_calm : Composes Calm :=
  ⟨calm_pure, Calm.bind⟩

theorem Calm.amend {computation : Reporting α} {amend : Failure → Failure}
    (kept : ∀ failure, (amend failure).abort? = failure.abort?) (calm : Calm computation) :
    Calm (tryCatch computation fun failure => throw (amend failure)) := by
  intro earlier
  have here := calm earlier
  unfold outcome ExceptT.run StateT.run at here ⊢
  simp only [tryCatch, tryCatchThe, MonadExceptOf.tryCatch, ExceptT.tryCatch, ExceptT.mk,
    Bind.bind, StateT.bind]
  cases ended : computation earlier with
  | mk given between =>
    rw [ended] at here
    cases given with
    | ok value => exact unaborted_ok value
    | error failure =>
      refine unaborted_error (?_ : (amend failure).abort? = none)
      rw [kept]
      exact here failure rfl

end Reporting

open Reporting

theorem Circuit.unaborted_ports (circuit : Circuit) (design : Design) (period : Int)
    (names : Names) (layouts : Layouts) :
    Unaborted (circuit.ports design period names layouts) := by
  refine Unaborted.bind ?_ fun _ => unaborted_ok _
  induction circuit.componentsOf .pin with
  | nil => exact unaborted_ok _
  | cons pin pins ih =>
    rw [checkAll, checkPin]
    split
    case h_1 fault failed =>
      split at failed <;> cases failed
      exact unaborted_error rfl
    case h_2 => exact ih

/-- What the circuits of a design ask to be allocated can be. -/
structure Design.Allocatable (design : Design) : Prop where
  components : ∀ circuit ∈ design.circuits, ∀ component ∈ circuit.components, component.Allocatable
  nets : ∀ circuit ∈ design.circuits, ∀ net ∈ circuit.nets, net.width * 16 ≤ greatestSize

namespace WiringContext

variable {context : WiringContext} {component : Component} {label : String}

theorem calm_floating {width : Nat} (small : width * 16 ≤ greatestSize) :
    Calm (floating width) := by
  rw [floating, Component.floating_of_le small]
  exact calm_pure _

theorem calm_clockSources : Calm context.clockSources := by
  refine composes_calm.concat fun component _ => ?_
  split
  · exact calm_pure _
  · refine composes_calm.concat fun run _ => ?_
    rw [clockRun]
    split
    · split
      · exact calm_pure _
      · exact (calm_report _).bind fun _ => calm_pure _
    · exact calm_pure _

theorem calm_labelOf : Calm (context.labelOf component) := by
  rw [labelOf]
  split
  · exact calm_pure _
  · exact calm_throw rfl

theorem calm_clockBus (point : Point) : Calm (context.clockBus component label point) := by
  simp only [clockBus]
  split
  · exact (calm_report _).bind fun _ => calm_pure _
  · split
    · split
      · exact calm_pure _
      · exact (calm_report _).bind fun _ => calm_pure _
    · exact calm_pure _

/-- A port that is bound to the clock has one point. -/
theorem calm_leafPort {variant : Variant} {spec : PortSpec} {port : PortBinding}
    (binds : component.BindsPort variant spec port) :
    Calm (context.leafPort component label port) := by
  simp only [leafPort, binds.same]
  split
  case isTrue clock =>
    obtain ⟨point, alone⟩ := length_eq_one_iff.mp (binds.clock clock)
    rw [alone]
    exact calm_clockBus point
  case isFalse =>
    split
    · exact calm_pure _
    · exact calm_throw rfl

theorem calm_leaf (allocatable : component.Allocatable) : Calm (context.leaf component) := by
  simp only [leaf]
  refine calm_labelOf.bind fun label => ?_
  split
  case h_1 failure failed =>
    refine calm_throw ?_
    have ordinary := allocatable.unaborted_bind _ _ failure failed
    cases failure with
    | abort reason => cases ordinary
    | _ => rfl
  case h_2 binding bound =>
    obtain ⟨_, binds⟩ := Component.exists_of_bind bound
    refine (composes_calm.mapM fun port listed => ?_).bind fun _ => calm_pure _
    obtain ⟨_, _, connects⟩ := exists_of_forall₂ binds.ports listed
    exact calm_leafPort connects

theorem calm_pinPort {pin : Component} (allocatable : pin.Allocatable) (inner : Circuit) :
    Calm (context.pinPort component label inner pin) := by
  simp only [pinPort]
  refine (calm_floating allocatable.pinWidth).bind fun loose => ?_
  split
  on_goal 2 => split
  on_goal 3 => exact calm_throw_bind rfl _
  all_goals
    refine (calm_pure _).bind fun points => ?_
    split
    · exact calm_pure _
    · exact calm_throw rfl

section Allocatable

variable (sizes : context.design.Allocatable) (member : context.circuit ∈ context.design.circuits)
include sizes member

theorem calm_dynamicClock : Calm context.dynamicClock := by
  refine composes_calm.concat fun control listed => ?_
  split
  · have home := (Design.mem_componentsOf.mp listed).1
    exact (calm_floating (sizes.components _ member control home).width).bind fun _ => calm_pure _
  · exact (calm_report _).bind fun _ => calm_pure _

theorem calm_pins : Calm context.pins := by
  refine composes_calm.concat fun pin listed => ?_
  have home := (Design.mem_componentsOf.mp listed).1
  refine (calm_floating (sizes.components _ member pin home).pinWidth).bind fun _ =>
    composes_calm.concat fun run _ => ?_
  simp only [pinRun]
  split
  · exact calm_pure _
  · split
    · exact (calm_report _).bind fun _ => calm_pure _
    · exact calm_pure _

theorem calm_forcedRoots : Calm context.forcedRoots := by
  refine composes_calm.concat fun net _ =>
    (composes_calm.concat fun target _ => ?_).bind fun _ => calm_pure _
  rw [feedNet]
  split
  case h_2 => exact calm_pure _
  case h_1 sink found =>
    have small := sizes.nets _ member sink (Circuit.net?_eq_some found).1
    exact (calm_floating (by omega)).bind fun _ => calm_pure _

variable (linked : context.design.Linked)
include linked

theorem calm_subcircuit (home : component ∈ context.circuit.components)
    (isInner : component.kind = .subcircuit) : Calm (context.subcircuit component) := by
  obtain ⟨inner, found⟩ := linked.circuits _ member component home isInner
  have inside := (Design.circuit?_eq_some found).1
  simp only [subcircuit, found]
  refine calm_labelOf.bind fun label => ?_
  split
  case h_2 => exact calm_throw rfl
  case h_1 =>
    split
    case h_2 failure failed =>
      exact calm_throw_bind (inner.unaborted_ports _ _ _ _ failure failed) _
    case h_1 =>
      refine (calm_pure _).bind fun _ => (composes_calm.mapM fun pin listed => ?_).bind fun _ =>
        (composes_calm.forM fun e _ => calm_report _).bind fun _ => calm_pure _
      exact calm_pinPort (sizes.components _ inside pin (Design.mem_componentsOf.mp listed).1) inner

theorem calm_instances : Calm context.instances := by
  refine composes_calm.concat fun component home => ?_
  split
  case isTrue isInner =>
    exact (calm_subcircuit sizes member linked home isInner).bind fun _ => calm_pure _
  case isFalse =>
    split
    · exact calm_pure _
    · exact (calm_leaf (sizes.components _ member component home)).bind fun _ => calm_pure _

theorem calm_unit (dialect : Dialect) : Calm (context.unit dialect) := by
  have sections : Calm context.sections :=
    calm_clockSources.bind fun _ => (calm_dynamicClock sizes member).bind fun _ =>
      (calm_pins sizes member).bind fun _ => (calm_forcedRoots sizes member).bind fun _ =>
        (calm_instances sizes member linked).bind fun _ => calm_pure _
  simp only [unit]
  split
  case h_2 failure failed =>
    refine calm_throw_bind ?_ _
    rw [Failure.abort?_asFatal]
    exact context.circuit.unaborted_ports _ _ _ _ failure failed
  case h_1 =>
    refine (calm_pure _).bind fun _ =>
      (sections.amend (Failure.abort?_asFatal context.module)).bind fun body => ?_
    split
    · exact calm_throw_bind rfl _
    · exact calm_pure _

end Allocatable

end WiringContext

theorem BlackBox.unaborted_unit (box : BlackBox) {settings : Settings}
    (searchable : settings.Searchable) (module : String) :
    Unaborted (box.unit settings module) := by
  simp only [BlackBox.unit, bind, Except.bind, throw, throwThe, MonadExceptOf.throw, pure,
    Except.pure]
  split
  on_goal 1 =>
    split
    · exact unaborted_error rfl
    split
    · exact unaborted_error rfl
  -- The language is not given or the one that is generated.
  all_goals
    split
    case h_2 => exact unaborted_error rfl
    case h_1 library found =>
      have ordinary := library.unaborted_fetch (searchable library found) module box.file
      split
      case h_1 failure failed => exact unaborted_error (ordinary failure failed)
      case h_2 =>
        split
        · exact unaborted_error rfl
        · exact unaborted_ok _

theorem Design.Makes.unaborted {design : Design} {settings : Settings} {names : Names}
    {layouts : Layouts} {module : String} {outcome : Except Failure DesignUnit}
    (made : design.Makes settings names layouts module outcome) (sizes : design.Allocatable)
    (linked : design.Linked) (searchable : settings.Searchable) : Unaborted outcome := by
  cases made with
  | @circuit circuit _ reached _ _ earlier =>
    have calm : Calm ((design.wiring settings names layouts circuit module).unit
        settings.dialect) := WiringContext.calm_unit sizes reached.mem linked _
    exact calm earlier
  | blackBox => exact BlackBox.unaborted_unit _ searchable module
  | component reached _ _ present =>
    exact (sizes.components _ reached.mem _ present).unaborted_unit searchable _ _

theorem Output.abort?_next {output : Output} (calm : output.abort? = none) (module : String)
    (messages : List Message) {outcome : Except Failure DesignUnit} (ordinary : Unaborted outcome) :
    (output.next module messages outcome).abort? = none := by
  cases outcome with
  | ok unit => exact calm
  | error failure =>
    have added : (output.next module messages (.error failure)).failures =
        output.failures ++ [failure] := rfl
    rw [abort?] at calm
    rw [abort?, added, findSome?_append, calm, findSome?_singleton, ordinary failure rfl]
    rfl

theorem Design.abort?_generate {design : Design} (sizes : design.Allocatable)
    (linked : design.Linked) {settings : Settings} (searchable : settings.Searchable)
    (names : Names) (layouts : Layouts) (written : List String) :
    (design.generate settings names layouts written).abort? = none := by
  simp only [generate]
  split
  case h_2 => rfl
  case h_1 top root =>
    refine Output.visit_preserves (fun output => output.abort? = none) ?_ _ rfl (.top root)
    intro output module messages outcome calm _ making
    exact Output.abort?_next calm module messages (making.unaborted sizes linked searchable)

namespace Planning

theorem abort?_of_planPins {circuit module : String} {seen taken : List String} {names : Names}
    {pins : List Component} {failure : Failure}
    (failed : (planPins circuit module seen taken names pins).2 = .error failure) :
    failure.abort? = none := by
  induction pins generalizing seen taken names with
  | nil => cases failed
  | cons pin pins ih =>
    simp only [planPins] at failed
    split at failed
    · cases failed
      rfl
    · exact ih failed

theorem abort?_of_visit {design : Design} {settings : Settings} {depth : Nat}
    {planning later : Planning} {circuit : Circuit} {failure : Failure}
    (failed : visit design settings depth planning circuit = (later, some failure)) :
    failure.abort? = none := by
  cases depth with
  | zero => cases failed
  | succ depth =>
    simp only [visit] at failed
    split at failed
    · cases failed
    · split at failed
      · cases failed
        rfl
      · split at failed
        case h_1 planned =>
          cases failed
          exact abort?_of_planPins planned
        case h_2 =>
          split at failed <;> cases failed

end Planning

theorem Design.unaborted_plan (design : Design) (settings : Settings) :
    Unaborted (design.plan settings).1 := by
  unfold plan
  split
  · exact unaborted_error rfl
  · split
    · exact unaborted_ok _
    case h_2 failed => exact unaborted_error (Planning.abort?_of_visit failed)

/-- The ranges of a list of points lie inside nets of a circuit. -/
def Circuit.Inside (circuit : Circuit) (points : List Point) : Prop :=
  ∀ run ∈ runs points, ∀ range, run.source = some range → ∃ net,
    circuit.net? range.net = some net ∧
      0 ≤ range.low ∧ range.low ≤ range.high ∧ range.high < net.width

/-- What a circuit refers to is found: the nets behind its points, the bits that an explicit net
feeds, the clock trees of its nets and the circuits inside it. -/
structure Design.Resolves (design : Design) (circuit : Circuit) : Prop where
  ends : ∀ component ∈ circuit.components, ∀ e ∈ component.ends, circuit.Inside e.points
  sources : ∀ net ∈ circuit.nets, net.forcedRoot = true → circuit.Inside net.sources
  sinks : ∀ net ∈ circuit.nets, net.forcedRoot = true → ∀ fed ∈ WiringContext.fedBits net,
    (fed.2 : Int) < net.width ∧ ∃ sink, circuit.net? fed.1.net = some sink ∧
      0 ≤ fed.1.bit ∧ fed.1.bit < sink.width
  trees : ∀ net ∈ circuit.nets, ∀ tree, net.clockTree = some tree →
    ∃ found, design.clockTree? tree = some found
  inner : ∀ component ∈ circuit.components, component.kind = .subcircuit →
    ∃ inner ∈ design.circuits, design.circuit? component.circuit = some inner

theorem Design.resolves_of_check {draft : Draft} {design : Design}
    (checked : draft.check = .ok design) {circuit : Circuit} (member : circuit ∈ design.circuits)
    (words : ∀ net ∈ circuit.nets, Word.fits net.width = true) : design.Resolves circuit := by
  have indexed := (Draft.indexed_of_check checked).circuits circuit member
  have placed := Draft.placed_of_check checked circuit member
  have linked := Draft.linked_of_check checked
  have inside : ∀ points : List Point,
      (∀ point ∈ points, Circuit.checkPoint circuit.nets point = .ok ()) →
      circuit.Inside points := by
    intro points placed run listed range source
    exact Circuit.Carries.range_inside ⟨indexed, words, placed⟩ listed source
  refine ⟨fun component home e own => inside _ (placed.ends component home e own),
    fun net present forced => inside _ (placed.roots net present forced).2.2.1, ?_,
    linked.trees circuit member, ?_⟩
  · intro net present forced fed feeds
    obtain ⟨_, sized, _, checked⟩ := placed.roots net present forced
    obtain ⟨⟨connected, _⟩, sinks, listed, among⟩ := WiringContext.mem_fedBits.mp feeds
    obtain ⟨below, rfl⟩ := List.getElem?_eq_some_iff.mp listed
    refine ⟨?_, Circuit.net?_of_checkPoint
      (checked fed.1 (mem_flatten.mpr ⟨_, getElem_mem below, among⟩)) connected⟩
    obtain none | length := sized
    · rw [none] at below
      cases below
    · omega
  · intro component home isInner
    obtain ⟨inner, found⟩ := linked.circuits circuit member component home isInner
    exact ⟨inner, (Design.circuit?_eq_some found).1, found⟩

end Schematic
