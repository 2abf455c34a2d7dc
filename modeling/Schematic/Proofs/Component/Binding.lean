import Schematic.Component.Binding
import Schematic.Proofs.Netlist.Checked
import Schematic.Proofs.Outcome

/-! # Bound components -/

open List

namespace Schematic

open Hdl

theorem floating_eq_ok {width : Int} {points : List Point} (made : floating width = .ok points) :
    Word.fits width = true ∧ (points.length : Int) = width ∧
      points = List.replicate points.length Point.unconnected := by
  simp only [floating, storable] at made
  split at made
  · cases made
  case isFalse bounded =>
    cases made
    have limit : greatestSize = 281474976710656 := rfl
    simp only [Bool.or_eq_true, decide_eq_true_eq, not_or, Int.not_lt, limit] at bounded
    refine ⟨?_, ?_, ?_⟩
    · rw [Word.fits_iff]
      simp only [Word.least, Word.greatest]
      omega
    · rw [length_replicate]
      omega
    · rw [length_replicate]

namespace Component

variable {module : String} {spec : PortSpec} {fed : End} {component : Component}

/-- The points of a terminal, or unconnected ones if it has no end. -/
def Feeds (component : Component) (terminal : String) (points : List Point) : Prop :=
  (∃ e, component.end? terminal = some e ∧ points = e.points) ∨
    (component.end? terminal = none ∧ Word.fits points.length = true ∧
      points = List.replicate points.length Point.unconnected)

structure BindsPort (component : Component) (variant : Variant) (spec : PortSpec)
    (port : PortBinding) : Prop where
  same : port.spec = spec
  direction : ∃ width, variant.ports.port? spec.name = some (port.direction, width)
  width : variant.ports.portWidth? spec.name (variant.values component.width) = some port.width
  length : spec.clock = false → (port.fed.points.length : Int) = port.width
  clock : spec.clock = true → port.fed.points.length = 1
  fed : component.Feeds spec.terminal port.fed.points

theorem feeds_of_bindClock (bound : component.bindClock module spec = .ok fed) :
    fed.points.length = 1 ∧ component.Feeds spec.terminal fed.points := by
  simp only [bindClock] at bound
  split at bound
  case isFalse => cases bound
  case isTrue single =>
    cases bound
    refine ⟨single, ?_⟩
    rw [Feeds]
    cases component.end? spec.terminal with
    | none =>
      rw [Option.getD_none]
      exact .inr ⟨rfl, by rw [length_singleton]; decide, rfl⟩
    | some e => exact .inl ⟨e, rfl, rfl⟩

theorem feeds_of_bindEnd {width : Int} (bound : component.bindEnd module spec width = .ok fed) :
    (fed.points.length : Int) = width ∧ component.Feeds spec.terminal fed.points := by
  simp only [bindEnd] at bound
  split at bound
  case h_1 missing =>
    obtain loose := mapError_eq_ok.mp bound
    cases made : floating width with
    | error reason => rw [made] at loose; cases loose
    | ok points =>
      rw [made] at loose
      cases loose
      obtain ⟨fitting, length, same⟩ := floating_eq_ok made
      exact ⟨length, .inr ⟨missing, length ▸ fitting, same⟩⟩
  case h_2 found =>
    split at bound
    case isFalse => cases bound
    case isTrue length =>
      cases bound
      exact ⟨length, .inl ⟨_, found, rfl⟩⟩

theorem bindsPort_of_bindPort {variant : Variant} {port : PortBinding}
    (bound : component.bindPort module (variant.values component.width) variant.ports spec =
      .ok port) : component.BindsPort variant spec port := by
  simp only [bindPort] at bound
  split at bound
  case h_2 => cases bound
  case h_1 direction own width found resolved =>
    cases clock : spec.clock with
    | true =>
      simp only [clock, ↓reduceIte, Bind.bind, Except.bind, pure, Except.pure] at bound
      split at bound
      · cases bound
      case h_2 fed made =>
        cases bound
        obtain ⟨single, feeds⟩ := feeds_of_bindClock made
        refine ⟨rfl, ⟨own, found⟩, resolved, ?_, fun _ => single, feeds⟩
        intro plain
        rw [clock] at plain
        cases plain
    | false =>
      simp only [clock, Bool.false_eq_true, ↓reduceIte, Bind.bind, Except.bind, pure,
        Except.pure] at bound
      split at bound
      · cases bound
      case h_2 fed made =>
        cases bound
        obtain ⟨length, feeds⟩ := feeds_of_bindEnd made
        refine ⟨rfl, ⟨own, found⟩, resolved, fun _ => length, ?_, feeds⟩
        intro clocked
        rw [clock] at clocked
        cases clocked

/-- What a binding says about its component. -/
structure Binds (component : Component) (binding : Binding) (variant : Variant) : Prop where
  variant_eq : component.variant? = some variant
  legible : ∀ error, variant ≠ .external (.error error)
  interface : binding.interface = variant.ports
  generics : component.bindGenerics binding.module (variant.values component.width)
    variant.ports = .ok binding.generics
  ports : List.Forall₂ (component.BindsPort variant) variant.specs binding.ports

theorem exists_of_bind {circuit : String} {planned : Option String} {binding : Binding}
    (bound : component.bind circuit planned = .ok binding) :
    ∃ variant, component.Binds binding variant := by
  simp only [Component.bind, Bind.bind, Except.bind, pure, Except.pure, throw, throwThe,
    MonadExceptOf.throw] at bound
  split at bound
  case h_2 => cases bound
  case h_1 variant known =>
    refine ⟨variant, ?_⟩
    split at bound
    · cases bound
    case h_2 module _ =>
      split at bound
      · cases bound
      case h_2 unit legible =>
        split at bound
        · cases bound
        case h_2 generics named =>
          split at bound
          · cases bound
          case h_2 ports mapped =>
            cases bound
            refine ⟨known, ?_, rfl, named, (forall₂_of_mapM mapped).imp fun _ _ =>
              bindsPort_of_bindPort⟩
            rintro error rfl
            exact legible error rfl

end Component

end Schematic
