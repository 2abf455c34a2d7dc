import Schematic.Schema.Value

/-! # Nodes

A node is a place of the data, described by the conjuncts that all hold there. A conjunct keeps the
frames that give its words a meaning. -/

namespace Schematic.Data

/-- A closed record: where all conjuncts of a group belong to a node, one of them has to allow each
field. -/
structure Group where
  number : Nat
  deep : Bool
  deriving DecidableEq, Repr

mutual

/-- A term with the meaning of its words. -/
inductive Conjunct where
  | mk (term : Term) (scope : List Frame) (groups : List Group)

/-- Names that a term may use. -/
inductive Frame where
  | record (path : List String) (declarations : List Declaration) (node : List Conjunct)
  | bound (name : String) (node : List Conjunct)
  | package (name path : String)
  | taken (path : List String) (again : Bool)
  | aside

end

abbrev Node := List Conjunct

namespace Conjunct

def term : Conjunct → Term
  | .mk term _ _ => term

def scope : Conjunct → List Frame
  | .mk _ scope _ => scope

def groups : Conjunct → List Group
  | .mk _ _ groups => groups

def within (groups : List Group) : Conjunct → Conjunct
  | .mk term scope own => .mk term scope (own ++ groups.filter fun group => !own.contains group)

def withTerm (term : Term) : Conjunct → Conjunct
  | .mk _ scope groups => .mk term scope groups

def marked (mark : Frame) : Conjunct → Conjunct
  | .mk term scope groups => .mk term (mark :: scope) groups

def needed (term : Term) (scope : List Frame) : Conjunct :=
  .mk term (.aside :: scope) []

end Conjunct

/-- The name of a field, and whether it belongs to the data. -/
structure Key where
  plain : Bool
  name : String
  deriving DecidableEq, Repr

namespace Key

def ofWord (word : String) : Key :=
  ⟨!Text.startsWith word "_" && !Text.startsWith word "#", word⟩

def ofText (text : String) : Key := ⟨true, text⟩

def step (key : Key) : String :=
  if key.plain then "." ++ key.name else key.name

def isDefinition (key : Key) : Bool :=
  !key.plain && (Text.startsWith key.name "#" || Text.startsWith key.name "_#")

end Key

structure Field where
  key : Key
  presence : Presence
  node : Node

/-- What a node is, its fields apart. -/
inductive Body where
  | scalar (value : Scalar)
  | range (range : Range)
  | list (items : List Node)
  | record

structure Shape where
  body : Body
  fields : List Field
  checks : Node := []

structure Leaves where
  leaves : Node
  choices : List (List (Option Bool × Conjunct))
  pending : Bool
  cyclic : Bool := false
  nested : Bool := false
  grounded : Bool := false
  next : Nat

def isTakenFrom (path : List String) : List Frame → Bool
  | [] => false
  | .aside :: _ => false
  | .taken other _ :: outer => other = path || isTakenFrom path outer
  | _ :: outer => isTakenFrom path outer

def isTakenAgain : List Frame → Bool
  | [] => false
  | .aside :: _ => false
  | .taken _ again :: outer => again || isTakenAgain outer
  | _ :: outer => isTakenAgain outer

namespace Leaves

def ground (leaves : Leaves) (leaf : Conjunct) : Leaves :=
  { leaves with grounded := leaves.grounded || !isTakenAgain leaf.scope }

def push (leaves : Leaves) (leaf : Conjunct) : Leaves :=
  { leaves.ground leaf with leaves := leaves.leaves ++ [leaf] }

def suspend (leaves : Leaves) : Fault → Except Fault Leaves
  | .incomplete => .ok { leaves with pending := true }
  | .cyclic => .ok { leaves with cyclic := true }
  | .wrong => .error .wrong

def within (groups : List Group) (leaves : Leaves) : Leaves :=
  { leaves with
    leaves := leaves.leaves.map (Conjunct.within groups)
    choices := leaves.choices.map fun options =>
      options.map fun (mark, option) => (mark, option.within groups) }

def start (node : Node) : Leaves :=
  let numbers := node.flatMap fun conjunct => conjunct.groups.map (·.number)
  { leaves := [], choices := [], pending := false, next := numbers.foldl max 0 + 1 }

end Leaves

/-- What a word refers to. -/
inductive Target where
  | field (path : List String) (node : Node) (key : Key)
  | node (node : Node)
  | package (path : String)

def declared? (word : String) (path : List String) (node : Node) (scope : List Frame) :
    List Declaration → Option Target
  | [] => none
  | .name name value :: rest =>
    if name = word then some (.node [.mk value scope []]) else declared? word path node scope rest
  | .field (.word name) _ _ :: rest =>
    if name = word then some (.field path node (.ofWord name))
    else declared? word path node scope rest
  | .field (.named name label) _ _ :: rest =>
    if name = word then
      match label with
      | .word label => some (.field path node (.ofWord label))
      | .text label => some (.field path node (.ofText label))
      | _ => some (.node [.mk (.word "_") [] []])
    else
      match label with
      | .word label =>
        if label = word then some (.field path node (.ofWord label))
        else declared? word path node scope rest
      | _ => declared? word path node scope rest
  | _ :: rest => declared? word path node scope rest

def resolve? (word : String) : List Frame → Option Target
  | [] => none
  | .bound name node :: outer => if name = word then some (.node node) else resolve? word outer
  | .package name path :: outer => if name = word then some (.package path) else resolve? word outer
  | .taken _ _ :: outer => resolve? word outer
  | .aside :: outer => resolve? word outer
  | .record path declarations node :: outer =>
    match declared? word path node (.record path declarations node :: outer) declarations with
    | some target => some target
    | none => resolve? word outer

def Key.ofMember (name : String) (quoted : Bool) : Key :=
  if quoted then .ofText name else .ofWord name

def pathOf? (scope : List Frame) : Term → Option (List String)
  | .word word =>
    match resolve? word scope with
    | some (.field path _ key) => some (key.step :: path)
    | _ => none
  | .member base name quoted =>
    (pathOf? scope base).map fun path => (Key.ofMember name quoted).step :: path
  | _ => none

def optionsOf : Term → List (Bool × Term)
  | .operation .either left right => optionsOf left ++ optionsOf right
  | .preferred operand => [(true, operand)]
  | term => [(false, term)]

def markedOptions (conjunct : Conjunct) : List (Option Bool × Conjunct) :=
  let options := optionsOf conjunct.term
  let marked := options.any (·.1)
  options.map fun (mark, term) => (if marked then some mark else none, conjunct.withTerm term)

def bothPrefer : Option Bool → Option Bool → Option Bool
  | none, mark => mark
  | mark, none => mark
  | some a, some b => some (a && b)

def optionPrefers (mark own : Option Bool) : Option Bool :=
  match mark with
  | none => own
  | some true => own.orElse fun _ => some true
  | some false => some false

def arithmetic (operator : Operator) (a b : Scalar) : Except Fault Scalar :=
  match operator, a, b with
  | .add, .number a, .number b => .ok (.number ⟨a.whole && b.whole, a.value.add b.value⟩)
  | .add, .text a, .text b => .ok (.text (a ++ b))
  | .add, .bytes a, .bytes b => .ok (.bytes (a ++ b))
  | .subtract, .number a, .number b =>
    .ok (.number ⟨a.whole && b.whole, a.value.add b.value.negate⟩)
  | .multiply, .number a, .number b => .ok (.number ⟨a.whole && b.whole, a.value.multiply b.value⟩)
  | .multiply, .text a, .number b => repeated .text a b
  | .multiply, .number a, .text b => repeated .text b a
  | .multiply, .bytes a, .number b => repeated .bytes a b
  | .multiply, .number a, .bytes b => repeated .bytes b a
  | .divide, .number a, .number b =>
    if b.value.digits = 0 then .error .wrong else .ok (.number ⟨false, a.value.divide b.value⟩)
  | operator, a, b =>
    match a.compares? operator b with
    | some result => .ok (.truth result)
    | none => .error .wrong
where
  repeated (make : String → Scalar) (text : String) (count : Number) : Except Fault Scalar :=
    match count.whole, count.value.toInt? with
    | true, some n =>
      if n < 0 then .error .wrong
      else .ok (make (String.join (List.replicate (min n.toNat 1000000) text)))
    | _, _ => .error .wrong

def wholeDivision? (function : String) (a b : Int) : Option Int :=
  if b = 0 then none
  else
    match function with
    | "div" => some (Int.ediv a b)
    | "mod" => some (Int.emod a b)
    | "quo" => some (Int.tdiv a b)
    | "rem" => some (Int.tmod a b)
    | _ => none

end Schematic.Data
