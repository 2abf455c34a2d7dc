import Schematic.Text.Case

/-! # Planned names

Names are told apart without regard to case. A taken name gets the lowest free number behind it. -/

namespace Schematic

structure Names where
  circuits : List (String × String) := []
  ports : List ((String × String) × String) := []
  instances : List ((String × Int) × String) := []
  modules : List ((String × Int) × String) := []
  deriving Repr

namespace Names

def circuit? (names : Names) (circuit : String) : Option String :=
  names.circuits.lookup circuit

def port? (names : Names) (circuit pin : String) : Option String :=
  names.ports.lookup (circuit, pin)

def instance? (names : Names) (circuit : String) (component : Int) : Option String :=
  names.instances.lookup (circuit, component)

def module? (names : Names) (circuit : String) (component : Int) : Option String :=
  names.modules.lookup (circuit, component)

def setCircuit (names : Names) (circuit module : String) : Names :=
  { names with circuits := (circuit, module) :: names.circuits }

def setPort (names : Names) (circuit pin port : String) : Names :=
  { names with ports := ((circuit, pin), port) :: names.ports }

def setInstance (names : Names) (circuit : String) (component : Int) (label : String) : Names :=
  { names with instances := ((circuit, component), label) :: names.instances }

def setModule (names : Names) (circuit : String) (component : Int) (module : String) : Names :=
  { names with modules := ((circuit, component), module) :: names.modules }

end Names

end Schematic

namespace Schematic.Naming

def candidate (name : String) : Nat → String
  | 0 => name
  | number => name ++ "_" ++ toString number

def firstFree (isTaken : String → Bool) (bound : Nat) (name : String) : String :=
  let number := (List.range (bound + 1)).find? fun number =>
    !isTaken (Text.lower (candidate name number))
  candidate name (number.getD 0)

def unique (taken : List String) (name : String) : String :=
  firstFree taken.contains taken.length name

def takeUnique (taken : List String) (name : String) : String × List String :=
  let chosen := unique taken name
  (chosen, Text.lower chosen :: taken)

/-- A claim to a name that is reserved. -/
structure ReservedName where
  name : String
  deriving DecidableEq, Repr

def ReservedName.message (error : ReservedName) : String :=
  "module name " ++ error.name ++ " collides with a reserved module"

/-- The names that no module may have, and those given out, each to one signature. -/
structure Registry where
  reserved : List String
  claims : List (String × String)

namespace Registry

def empty (reserved : List String) : Registry :=
  ⟨reserved.map Text.lower, []⟩

def isTaken (registry : Registry) (key : String) : Bool :=
  registry.reserved.contains key || registry.claims.any fun claim => Text.lower claim.2 == key

def claim (registry : Registry) (name signature : String) :
    Except ReservedName (String × Registry) :=
  match registry.claims.lookup signature with
  | some given => .ok (given, registry)
  | none =>
    if registry.reserved.contains (Text.lower name) then .error ⟨name⟩
    else
      let bound := registry.reserved.length + registry.claims.length
      let chosen := firstFree registry.isTaken bound name
      .ok (chosen, { registry with claims := (signature, chosen) :: registry.claims })

end Registry

end Schematic.Naming
