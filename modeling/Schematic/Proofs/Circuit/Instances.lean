import Schematic.Circuit.Generate
import Schematic.Proofs.Report

/-! # Units of circuits and components -/

open List

namespace Schematic

open Hdl

variable {unit : DesignUnit}

namespace Hdl.DesignUnit

section

variable (dialect : Dialect) (name category : String) (interface : Interface)
  (components : List (List String)) (body notes : List String)

@[simp] theorem write_name :
    (write dialect name category interface components body notes).name = name := by
  cases dialect <;> rfl

@[simp] theorem write_category :
    (write dialect name category interface components body notes).category = category := by
  cases dialect <;> rfl

end

end Hdl.DesignUnit

namespace WiringContext

/-- A unit is written from the ports of its circuit and from sections that report the same
messages. -/
theorem exists_sections {context : WiringContext} {dialect : Dialect}
    {earlier later : List Message}
    (made : Reporting.outcome (context.unit dialect) earlier = (.ok unit, later)) :
    ∃ ports sections fragments,
      context.circuit.ports context.design context.period context.names context.layouts =
        .ok ports ∧
      Reporting.outcome context.sections earlier = (.ok (sections, fragments), later) ∧
      unit = context.written dialect ports sections fragments := by
  simp only [WiringContext.unit] at made
  split at made
  case h_2 => cases made
  case h_1 ports declared =>
    obtain ⟨_, _, passed, made⟩ := Reporting.exists_of_bind made
    cases passed
    obtain ⟨⟨sections, fragments⟩, after, wired, made⟩ := Reporting.exists_of_bind made
    have spelled := Reporting.outcome_of_tryCatch wired
    split at made
    · cases made
    · cases made
      exact ⟨ports, sections, fragments, declared, spelled, rfl⟩

end WiringContext

theorem BlackBox.exists_text {box : BlackBox} {settings : Settings} {module : String}
    (made : box.unit settings module = .ok unit) :
    ∃ text, unit = { name := module, category := circuitCategory, verbatim := some text } := by
  simp only [BlackBox.unit, bind, Except.bind, throw, throwThe, MonadExceptOf.throw, pure,
    Except.pure] at made
  cases found : settings.library with
  | none =>
    simp only [found] at made
    split at made
    · split at made
      · cases made
      · split at made <;> cases made
    · cases made
  | some library =>
    cases fetched : library.fetch module box.file with
    | error failure =>
      simp only [found, fetched] at made
      split at made
      · split at made
        · cases made
        · split at made <;> cases made
      · cases made
    | ok text =>
      refine ⟨text, ?_⟩
      simp only [found, fetched] at made
      have last : (if (!(Scan.facts settings.dialect text).declares module) = true then
          .error (.fatal "" module ("external source " ++ box.file ++ " declares " ++
            Text.bracketed (Scan.facts settings.dialect text).entityNames ++ ", expected " ++
            module))
          else .ok { name := module, category := circuitCategory, verbatim := some text }) =
            (.ok unit : Except Failure DesignUnit) := by
        split at made
        · split at made
          · cases made
          · split at made
            · cases made
            · exact made
        · exact made
      split at last
      · cases last
      · exact (Except.ok.inj last).symm

namespace Component

variable {component : Component} {settings : Settings} {module circuit : String}
  {unit : DesignUnit}

theorem externalUnit_eq {category : String} {ports : Except PortListError (List ExternalPort)}
    (made : component.externalUnit settings module category ports = .ok unit) :
    ∃ text, unit = { name := module, category, verbatim := some text } := by
  simp only [externalUnit, Bind.bind, Except.bind, pure, Except.pure] at made
  split at made
  case h_2 => cases made
  case h_1 dialect _ =>
    split at made
    · cases made
    split at made
    case h_2 => cases made
    case h_1 =>
      split at made
      case h_1 => cases made
      case h_2 text _ =>
        split at made
        · cases made
        split at made
        · cases made
        · exact ⟨text, (Except.ok.inj made).symm⟩

theorem exists_of_unit (made : component.unit settings circuit (some module) = .ok unit) :
    ∃ variant, component.variant? = some variant ∧ ((∃ ports text, variant = .external ports ∧
          unit = { name := module, category := variant.category, verbatim := some text }) ∨
        ∃ attachments interface body notes,
          component.attachments variant settings.vendor module = .ok attachments ∧
          unit = { DesignUnit.write settings.dialect module variant.category interface [] body
            notes with attachments }) := by
  cases known : component.variant? with
  | none => simp [Component.unit, known, throw, throwThe, MonadExceptOf.throw] at made
  | some variant =>
    refine ⟨variant, rfl, ?_⟩
    simp only [Component.unit, known, plannedModule, Bind.bind, Except.bind] at made
    split at made
    case h_1 ports =>
      obtain ⟨text, form⟩ := externalUnit_eq made
      exact .inl ⟨ports, text, rfl, form⟩
    case h_2 =>
      right
      split at made
      · cases made
      split at made
      · cases made
      case h_2 attachments attached =>
        exact ⟨attachments, _, _, _, attached, (Except.ok.inj made).symm⟩

theorem unit_name (made : component.unit settings circuit (some module) = .ok unit) :
    unit.name = module := by
  obtain ⟨variant, _, ⟨ports, text, _, rfl⟩ | ⟨attachments, interface, body, notes, _, rfl⟩⟩ :=
    exists_of_unit made
  · rfl
  · exact DesignUnit.write_name ..

theorem planned_of_bind {planned : Option String} {binding : Binding}
    (bound : component.bind circuit planned = .ok binding) : planned = some binding.module := by
  simp only [Component.bind, Bind.bind, Except.bind, pure, Except.pure, throw, throwThe,
    MonadExceptOf.throw] at bound
  cases planned with
  | none =>
    simp only [plannedModule] at bound
    split at bound <;> cases bound
  | some module =>
    simp only [plannedModule] at bound
    split at bound
    case h_2 => cases bound
    case h_1 variant _ =>
      split at bound
      case h_1 => cases bound
      case h_2 =>
        split at bound
        case h_1 => cases bound
        case h_2 generics _ =>
          split at bound
          case h_1 => cases bound
          case h_2 => exact congrArg (some ·.module) (Except.ok.inj bound)

end Component

end Schematic
