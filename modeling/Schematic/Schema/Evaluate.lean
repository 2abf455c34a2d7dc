import Schematic.Schema.Library
import Schematic.Schema.Node

/-! # Evaluation of terms

The conjuncts of a node are traced back to literals, its options are chosen, and the fields and
items of what is left are the nodes below it. -/

namespace Schematic.Data

/-- Where a term is evaluated. -/
structure Place where
  path : List String
  busy : List (List String × Nat) := []
  around : List (List String) := []
  asked : List (List String) := []
  whole : Bool := false

namespace Place

def below (place : Place) (name : String) : Place :=
  { place with path := name :: place.path, around := place.path :: place.around, whole := false }

def aside (place : Place) (name : String) : Place :=
  { place with
    path := name :: place.path
    around := []
    asked := place.path :: place.asked
    whole := false }

def asking (place : Place) (path : List String) : Place :=
  { place with asked := path :: place.asked }

def isBusyWith (place : Place) (path : List String) : Bool :=
  1 < place.asked.count path

end Place

def together {α : Type} (results : List (Except Fault α)) : Except Fault (List α) :=
  if results.any fun result => result matches .error .wrong then .error .wrong
  else results.mapM id

def columns : (length : Nat) → List (List Conjunct × Option Conjunct) → List Node
  | 0, _ => []
  | length + 1, lists =>
    lists.filterMap (fun (items, more) => items.head?.orElse fun _ => more) ::
      columns length (lists.map fun (items, more) => (items.tail, more))

def isPlainRecord (declarations : List Declaration) : Bool :=
  declarations.all fun declaration =>
    match declaration with
    | .part _ => false
    | .each _ _ => false
    | _ => true

def addField (key : Key) (presence : Presence) (conjunct : Conjunct) :
    List Field → List Field
  | [] => [⟨key, presence, [conjunct]⟩]
  | field :: fields =>
    if field.key = key then
      let presence :=
        if field.presence = .present || presence = .present then .present
        else if field.presence = .required || presence = .required then .required
        else .optional
      ⟨key, presence, field.node ++ [conjunct]⟩ :: fields
    else field :: addField key presence conjunct fields

def Label.inner : Label → Label
  | .named _ label => label.inner
  | label => label

mutual

def collect (place : Place) (node : Node) (seen : List (List String)) : (steps : Nat) → Leaves →
    Conjunct → Except Fault Leaves
  | 0, _, _ => .error .wrong
  | steps + 1, leaves, conjunct =>
    let scope := conjunct.scope
    let scalar (result : Except Fault Scalar) : Except Fault Leaves :=
      match result with
      | .ok value => .ok (leaves.push (conjunct.withTerm value.toTerm))
      | .error fault => leaves.suspend fault
    let follow (place : Place) (seen : List (List String)) (closed : Option Bool)
        (mark : Option Frame) (target : Except Fault Node) : Except Fault Leaves :=
      match target with
      | .error fault => leaves.suspend fault
      | .ok target =>
        let fresh := match closed with
          | some deep => [Group.mk leaves.next deep]
          | none => []
        let nested := match mark with
          | some (.taken _ again) => again
          | _ => false
        target.foldlM
          (fun leaves (other : Conjunct) =>
            let other := other.within (fresh ++ conjunct.groups)
            let other := match mark with
              | some mark => other.marked mark
              | none => other
            collect place node seen steps leaves other)
          { leaves with next := leaves.next + fresh.length, nested := leaves.nested || nested }
    let visit (path : List String) (closed : Option Bool) (target : Except Fault Node) :
        Except Fault Leaves :=
      if seen.contains path then .ok leaves
      else if place.isBusyWith path then leaves.suspend .cyclic
      else
        let again := place.around.contains path || isTakenFrom path scope
        follow (place.asking path) (path :: seen) closed (some (.taken path again)) target
    let selected (base : Term) (name : String) (quoted : Bool) : Except Fault Leaves :=
      let key := Key.ofMember name quoted
      let target : Except Fault Node := do
        let shape ← settle (place.aside "base") steps [.needed base scope]
        match shape.fields.find? fun field => field.key = key with
        | some field =>
          if field.presence = .present then return field.node else throw .incomplete
        | none => throw (match shape.body with | .record => .incomplete | _ => .wrong)
      let closed := if key.isDefinition then some true else none
      match pathOf? scope (.member base name quoted) with
      | none => follow place seen closed none target
      | some path => visit path closed target
    match conjunct.term with
    | .bottom => .error .wrong
    | .word word =>
      match resolve? word scope with
      | some (.field path target key) =>
        visit (key.step :: path) (if key.isDefinition then some true else none)
          (child place steps path target key)
      | some (.node target) => follow place seen none none (.ok target)
      | some (.package _) => .error .wrong
      | none =>
        match Range.ofWord? (plainWord word) with
        | some _ => .ok (leaves.push (conjunct.withTerm (.word (plainWord word))))
        | none => .error .wrong
    | .record declarations =>
      let frame := Frame.record place.path declarations node
      let inner := declarations.foldlM
        (fun (inner : Leaves) declaration =>
          match declaration with
          | .part part =>
            collect place node seen steps inner (.mk part (frame :: scope) conjunct.groups)
          | _ => .ok inner)
        { leaves.ground conjunct with leaves := [conjunct], choices := [] }
      inner.map fun inner =>
        let hull := ((List.range inner.next).drop leaves.next).map fun number =>
          Group.mk number true
        let inner := inner.within hull
        { inner with
          leaves := leaves.leaves ++ inner.leaves
          choices := leaves.choices ++ inner.choices }
    | .operation .both left right => do
      let leaves ← collect place node seen steps leaves (conjunct.withTerm left)
      collect place node seen steps leaves (conjunct.withTerm right)
    | .operation .either _ _ =>
      .ok { leaves with choices := leaves.choices ++ [markedOptions conjunct] }
    | .operation operator left right =>
      scalar (operate place steps scope operator left right)
    | .preferred operand => collect place node seen steps leaves (conjunct.withTerm operand)
    | .grouped inner => collect place node seen steps leaves (conjunct.withTerm inner)
    | .closed inner => follow place seen (some true) none (.ok [conjunct.withTerm inner])
    | .named name inner =>
      collect place node seen steps leaves
        (.mk inner (.bound name node :: scope) conjunct.groups)
    | .not operand =>
      scalar do
        match ← scalarOf place steps scope operand with
        | .truth value => return .truth !value
        | _ => throw .wrong
    | .sign negative operand =>
      scalar do
        match ← scalarOf place steps scope operand with
        | .number value =>
          return .number (if negative then ⟨value.whole, value.value.negate⟩ else value)
        | _ => throw .wrong
    | .bound operator limit =>
      match scalarOf place steps scope limit with
      | .ok value =>
        if value.limits operator then
          .ok (leaves.push (conjunct.withTerm (.bound operator value.toTerm)))
        else .error .wrong
      | .error fault => leaves.suspend fault
    | .joined bytes parts =>
      scalar do
        let parts ← together (parts.map fun part => do
          match (← scalarOf place steps scope part).insertedText? with
          | some text => return text
          | none => throw .wrong)
        return if bytes then .bytes (String.join parts) else .text (String.join parts)
    | .importing packages inner =>
      let frames := packages.map fun (name, path) => Frame.package name path
      collect place node seen steps leaves (.mk inner (frames ++ scope) conjunct.groups)
    | .member (.word package) name quoted =>
      match resolve? package scope with
      | some (.package path) =>
        if Library.isCondition path name 0 then
          .ok (leaves.push (conjunct.withTerm (.check path name [])))
        else .error .wrong
      | _ => selected (.word package) name quoted
    | .member base name quoted => selected base name quoted
    | .slice base low high =>
      let position (limit : Option Term) (whole : Nat) : Except Fault Nat := do
        match limit with
        | none => return whole
        | some limit =>
          match ← scalarOf place steps scope limit with
          | .number number =>
            match number.whole, number.value.toInt? with
            | true, some position => if position < 0 then throw .wrong else return position.toNat
            | _, _ => throw .wrong
          | _ => throw .wrong
      match itemsOf place steps scope base with
      | .error fault => leaves.suspend fault
      | .ok items =>
        match position low 0, position high items.length with
        | .ok low, .ok high =>
          if high < low || items.length < high then .error .wrong
          else
            let chosen := (items.take high).drop low
            let frames := chosen.zipIdx.map fun (item, index) => Frame.bound s!"item{index}" item
            let elements := (List.range chosen.length).map fun index =>
              Element.item (.word s!"item{index}")
            .ok (leaves.push (.mk (.list elements) frames conjunct.groups))
        | .error fault, _ => leaves.suspend fault
        | _, .error fault => leaves.suspend fault
    | .item base index =>
      follow place seen none none do
        let index ← scalarOf place steps scope index
        let shape ← settle (place.aside "base") steps [.needed base scope]
        match shape.body, index with
        | .list items, .number number =>
          match number.whole, number.value.toInt? with
          | true, some position =>
            if position < 0 then throw .wrong
            else
              match items[position.toNat]? with
              | some item => return item
              | none => throw .incomplete
          | _, _ => throw .wrong
        | .record, .text name =>
          match shape.fields.find? fun field => field.key = .ofText name with
          | some field =>
            if field.presence = .present then return field.node else throw .incomplete
          | none => throw .incomplete
        | _, _ => throw .wrong
    | .call (.member (.word package) name _) arguments =>
      match resolve? package scope with
      | some (.package path) =>
        let values := arguments.map fun argument =>
          datumOf (place.aside "term") steps [.needed argument scope]
        match together values with
        | .error fault => leaves.suspend fault
        | .ok values =>
          if Library.isCondition path name values.length then
            .ok (leaves.push (conjunct.withTerm (.check path name (values.map Datum.toTerm))))
          else
            match Library.call? path name values with
            | some value => follow place seen none none (.ok [.mk value.toTerm [] []])
            | none => .error .wrong
      | _ => .error .wrong
    | .call function arguments =>
      match function, arguments with
      | .word name, arguments =>
        match plainWord name, arguments with
        | "close", [argument] =>
          follow place seen (some false) none (.ok [conjunct.withTerm argument])
        | "and", [argument] =>
          follow place seen none none (itemsOf place steps scope argument |>.map List.flatten)
        | "or", [argument] =>
          match itemsOf place steps scope argument with
          | .ok [] => .error .wrong
          | .ok items =>
            .ok { leaves with
              choices := leaves.choices ++ [items.map fun item =>
                (none, .mk (.word "option") [.bound "option" item] conjunct.groups)] }
          | .error fault => leaves.suspend fault
        | "matchN", [_, _] => .ok (leaves.push conjunct)
        | "matchIf", [_, _, _] => .ok (leaves.push conjunct)
        | function, arguments => scalar (applied place steps scope function arguments)
      | _, _ => .error .wrong
    | _ => .ok (leaves.push conjunct)

def child (place : Place) : (steps : Nat) → (path : List String) → Node → Key → Except Fault Node
  | 0, _, _, _ => .error .wrong
  | steps + 1, path, node, key => do
    let shape ← settle { path, busy := place.busy, asked := place.asked } steps node
    match shape.fields.find? fun field => field.key = key with
    | some field => if field.presence = .present then return field.node else throw .incomplete
    | none => throw .incomplete

def scalarOf (place : Place) : (steps : Nat) → List Frame → Term → Except Fault Scalar
  | 0, _, _ => .error .wrong
  | steps + 1, scope, term => do
    match (← settle (place.aside "term") steps [.needed term scope]).body with
    | .scalar value => return value
    | .range _ => throw .incomplete
    | _ => throw .wrong

def itemsOf (place : Place) : (steps : Nat) → List Frame → Term → Except Fault (List Node)
  | 0, _, _ => .error .wrong
  | steps + 1, scope, term => do
    match (← settle (place.aside "term") steps [.needed term scope]).body with
    | .list items => return items
    | .range _ => throw .incomplete
    | _ => throw .wrong

def operate (place : Place) : (steps : Nat) → List Frame → Operator → (left right : Term) →
    Except Fault Scalar
  | 0, _, _, _, _ => .error .wrong
  | steps + 1, scope, operator, left, right =>
    let isFailure (term : Term) : Except Fault Bool :=
      match datumOf (place.aside "term") steps [.needed term scope] with
      | .error _ => .ok true
      | .ok _ => .ok false
    match operator, left, right with
    | .equal, .bottom, term => (isFailure term).map .truth
    | .equal, term, .bottom => (isFailure term).map .truth
    | .unequal, .bottom, term => (isFailure term).map fun fails => .truth !fails
    | .unequal, term, .bottom => (isFailure term).map fun fails => .truth !fails
    | .and, _, _ => do
      match ← scalarOf place steps scope left with
      | .truth false => return .truth false
      | .truth true =>
        match ← scalarOf place steps scope right with
        | .truth value => return .truth value
        | _ => throw .wrong
      | _ => throw .wrong
    | .or, _, _ => do
      match ← scalarOf place steps scope left with
      | .truth true => return .truth true
      | .truth false =>
        match ← scalarOf place steps scope right with
        | .truth value => return .truth value
        | _ => throw .wrong
      | _ => throw .wrong
    | _, _, _ => do
      let a ← datumOf (place.aside "term") steps [.needed left scope]
      let b ← datumOf (place.aside "term") steps [.needed right scope]
      let equality (test : Bool) : Except Fault Scalar :=
        match operator with
        | .equal => .ok (.truth test)
        | .unequal => .ok (.truth !test)
        | _ => .error .wrong
      match a, b with
      | .scalar a, .scalar b => arithmetic operator a b
      | .scalar .null, _ => equality false
      | _, .scalar .null => equality false
      | .list a, .list b => equality (Datum.list a == .list b)
      | .record a, .record b => equality (Datum.record a == .record b)
      | _, _ => throw .wrong

def applied (place : Place) : (steps : Nat) → List Frame → (function : String) →
    (arguments : List Term) → Except Fault Scalar
  | 0, _, _, _ => .error .wrong
  | steps + 1, scope, function, arguments =>
    match function, arguments with
    | "len", [argument] => do
      let shape ← settle (place.aside "term") steps [.needed argument scope]
      let size ← match shape.body with
        | .scalar (.text content) => .ok content.utf8ByteSize
        | .scalar (.bytes content) => .ok content.utf8ByteSize
        | .list items => .ok items.length
        | .record =>
          .ok (shape.fields.filter fun field => field.key.plain && field.presence = .present).length
        | .range _ => .error .incomplete
        | _ => .error .wrong
      return .number (.ofInt size)
    | function, [left, right] => do
      match ← scalarOf place steps scope left, ← scalarOf place steps scope right with
      | .number a, .number b =>
        match a.whole && b.whole, a.value.toInt?, b.value.toInt? with
        | true, some a, some b =>
          match wholeDivision? function a b with
          | some value => return .number (.ofInt value)
          | none => throw .wrong
        | _, _, _ => throw .wrong
      | _, _ => throw .wrong
    | _, _ => .error .wrong

def ways (place : Place) (node : Node) : (steps : Nat) → Leaves →
    List (Option Bool × Leaves)
  | 0, _ => []
  | steps + 1, leaves =>
    match leaves.choices with
    | [] => [(none, leaves)]
    | options :: choices =>
      let chosen := options.flatMap fun (mark, option) =>
        match collect place node [place.path] steps { leaves with choices := [] } option with
        | .error _ => []
        | .ok leaves =>
          (ways place node steps leaves).map fun (own, leaves) => (optionPrefers mark own, leaves)
      let anyPreferred := chosen.any fun way => way.1.isSome
      chosen.flatMap fun (mark, leaves) =>
        let mark := if anyPreferred then some (mark.getD false) else none
        (ways place node steps { leaves with choices := choices }).map fun (own, leaves) =>
          (bothPrefer mark own, leaves)

def repetitions (place : Place) : (steps : Nat) → List Frame → List Clause →
    Except Fault (List (List Frame))
  | 0, _, _ => .error .wrong
  | _ + 1, scope, [] => .ok [scope]
  | steps + 1, scope, .condition test :: clauses => do
    match ← scalarOf place steps scope test with
    | .truth true => repetitions place steps scope clauses
    | .truth false => return []
    | _ => throw .wrong
  | steps + 1, scope, .name name value :: clauses =>
    repetitions place steps (.bound name [.mk value scope []] :: scope) clauses
  | steps + 1, scope, .source key value items :: clauses => do
    let shape ← settle (place.aside "term") steps [.needed items scope]
    let entries : List (Term × Node) ← match shape.body with
      | .list items =>
        .ok (items.zipIdx.map fun (item, position) => (Term.number (.ofInt position), item))
      | .record =>
        .ok ((shape.fields.filter fun field => field.key.plain && field.presence = .present).map
          fun field => (Term.text field.key.name, field.node))
      | .range _ => .error .incomplete
      | _ => .error .wrong
    let scopes ← together (entries.map fun (label, node) =>
      repetitions place steps (.bound value node :: .bound key [.mk label [] []] :: scope) clauses)
    return scopes.flatten

def repeatAll (place : Place) (node : Node) (position : Nat) : (steps : Nat) → Leaves →
    (unread : Node) → Except Fault Leaves
  | 0, _, _ => .error .wrong
  | _ + 1, leaves, [] => .ok leaves
  | steps + 1, leaves, leaf :: unread =>
    match leaf.term with
    | .record declarations => do
      let scope := Frame.record place.path declarations node :: leaf.scope
      let bodies := declarations.filterMap fun declaration =>
        match declaration with
        | .each clauses body => some (clauses, body)
        | _ => none
      let (leaves, added) ← bodies.zipIdx.foldlM
        (fun (leaves, added) ((clauses, body), index) => do
          let mark := (place.path, position + index)
          if place.busy.contains mark then return (leaves, added)
          else
            match repetitions { place with busy := mark :: place.busy } steps scope clauses with
            | .error fault => return (← leaves.suspend fault, added)
            | .ok scopes =>
              let inner ← scopes.foldlM
                (fun inner scope =>
                  collect place node [place.path] steps inner (.mk body scope leaf.groups))
                { leaves with leaves := [] }
              return ({ inner with leaves := leaves.leaves ++ inner.leaves },
                added ++ inner.leaves))
        (leaves, ([] : Node))
      repeatAll place node (position + bodies.length) steps leaves (unread ++ added)
    | _ => repeatAll place node position steps leaves unread

def fieldsOf (place : Place) (node : Node) : (steps : Nat) → (leaves : Node) →
    Except Fault (List Field × Bool)
  | 0, _ => .error .wrong
  | steps + 1, leaves => do
    let records := leaves.filterMap fun leaf =>
      match leaf.term with
      | .record declarations =>
        some (declarations, Frame.record place.path declarations node :: leaf.scope,
          leaf.groups.filter (·.deep), leaf.groups)
      | _ => none
    let (fields, known) ← records.foldlM
      (fun done (declarations, scope, deep, _) =>
        declarations.foldlM
          (fun (fields, known) declaration =>
            match declaration with
            | .field label presence value =>
              let conjunct := Conjunct.mk value scope deep
              match label.inner with
              | .word name => .ok (addField (.ofWord name) presence conjunct fields, known)
              | .text name => .ok (addField (.ofText name) presence conjunct fields, known)
              | .computed name =>
                match scalarOf place steps scope name with
                | .ok (.text name) => .ok (addField (.ofText name) presence conjunct fields, known)
                | .ok _ => .error .wrong
                | .error .wrong => .error .wrong
                | .error _ => .ok (fields, false)
              | _ => .ok (fields, known)
            | _ => .ok (fields, known))
          done)
      (([], true) : List Field × Bool)
    let patterns := records.flatMap fun (declarations, scope, deep, groups) =>
      declarations.filterMap fun declaration =>
        match declaration with
        | .field label _ value =>
          match label.inner with
          | .pattern name labels => some (name, labels, Conjunct.mk value scope deep, groups)
          | _ => none
        | _ => none
    let matching (labels : Term) (scope : List Frame) (name : String) : Bool :=
      match datumOf (place.aside "label") steps [.needed labels scope, .mk (.text name) [] []] with
      | .ok _ => true
      | .error _ => false
    let fields := fields.map fun field =>
      if field.key.plain then
        patterns.foldl
          (fun (field : Field) (name, labels, value, _) =>
            if matching labels value.scope field.key.name then
              let scope := .bound name [.mk (.text field.key.name) [] []] :: value.scope
              { field with node := field.node ++ [.mk value.term scope value.groups] }
            else field)
          field
      else field
    let groups := (records.flatMap fun (_, _, _, groups) => groups).eraseDups
    let allowed (group : Group) (name : String) : Bool :=
      records.any fun (declarations, scope, _, groups) =>
        groups.contains group &&
        declarations.any fun declaration =>
          match declaration with
          | .more => true
          | .field label _ _ =>
            match label.inner with
            | .word word => Key.ofWord word = .ofText name
            | .text text => text = name
            | .computed label =>
              match scalarOf place steps scope label with
              | .ok (.text text) => text = name
              | _ => false
            | .pattern _ labels => matching labels scope name
            | .named _ _ => false
          | _ => false
    if fields.all fun field =>
        !field.key.plain || (field.presence ≠ .present && !place.whole) ||
          groups.all fun group => allowed group field.key.name
    then return (fields, known)
    else throw .wrong

def listOf (place : Place) : (steps : Nat) → (lists : List (List Element × Conjunct)) →
    Except Fault (List Node)
  | 0, _ => .error .wrong
  | steps + 1, lists => do
    let lists ← together (lists.map fun (elements, leaf) => do
      let deep := leaf.groups.filter (·.deep)
      elements.foldlM
        (fun (items, more) element =>
          match element with
          | .item value => .ok (items ++ [Conjunct.mk value leaf.scope deep], more)
          | .more value => .ok (items, some (Conjunct.mk value leaf.scope deep))
          | .each clauses body => do
            let scopes ← repetitions place steps leaf.scope clauses
            return (items ++ scopes.map fun scope => Conjunct.mk body scope deep, more))
        (([], none) : List Conjunct × Option Conjunct))
    let length := (lists.map fun (items, _) => items.length).foldl max 0
    if lists.all fun (items, more) => more.isSome || items.length = length then
      return columns length lists
    else throw .wrong

def shapeOf (place : Place) : (steps : Nat) → Leaves → Except Fault Shape
  | 0, _ => .error .wrong
  | steps + 1, leaves => do
    let node := leaves.leaves
    let leaves ← repeatAll place node 0 steps leaves node
    let isCheck (leaf : Conjunct) : Bool :=
      match leaf.term with
      | .check _ _ _ => true
      | .call _ _ => true
      | _ => false
    let checks := leaves.leaves.filter isCheck
    let (range, scalar, lists, records) ← (leaves.leaves.filter fun leaf => !isCheck leaf).foldlM
      (fun (range, scalar, lists, records) leaf =>
        let add (value : Scalar) :=
          match scalar with
          | none => .ok (range, some value, lists, records)
          | some other =>
            if other = value then .ok (range, scalar, lists, records) else .error .wrong
        match leaf.term with
        | .null => add .null
        | .truth value => add (.truth value)
        | .number value => add (.number value)
        | .text content => add (.text content)
        | .bytes content => add (.bytes content)
        | .word name =>
          match Range.ofWord? name with
          | some other => .ok (range.meet other, scalar, lists, records)
          | none => .error .wrong
        | .bound operator limit =>
          match limit with
          | .null => .ok (range.meet (.ofBound operator .null), scalar, lists, records)
          | .truth value =>
            .ok (range.meet (.ofBound operator (.truth value)), scalar, lists, records)
          | .number value =>
            .ok (range.meet (.ofBound operator (.number value)), scalar, lists, records)
          | .text value =>
            .ok (range.meet (.ofBound operator (.text value)), scalar, lists, records)
          | .bytes value =>
            .ok (range.meet (.ofBound operator (.bytes value)), scalar, lists, records)
          | _ => .error .wrong
        | .nameOf names => .ok (range.meet ⟨[.text], [], [names]⟩, scalar, lists, records)
        | .list elements =>
          .ok (range.meet ⟨[.list], [], []⟩, scalar, lists ++ [(elements, leaf)], records)
        | .record declarations =>
          .ok (if isPlainRecord declarations then range.meet ⟨[.record], [], []⟩ else range, scalar,
            lists, true)
        | _ => .error .wrong)
      ((Range.any, none, [], false) :
        Range × Option Scalar × List (List Element × Conjunct) × Bool)
    let (fields, known) ←
      if records then fieldsOf place node steps leaves.leaves else .ok ([], true)
    let range :=
      if fields.any fun field => field.key.plain && field.presence = .present then
        range.meet ⟨[.record], [], []⟩
      else range
    let body ← match scalar with
      | some value => if range.allows value then .ok (Body.scalar value) else .error .wrong
      | none =>
        if !lists.isEmpty && range.natures = [.list] then (listOf place steps lists).map .list
        else if records && range.natures.contains .record then .ok .record
        else
          match range.only? with
          | .ok (some value) => .ok (.scalar value)
          | .ok none => .ok (.range range)
          | .error fault => .error fault
    let isOpen := match body with
      | .range _ => true
      | _ => false
    if leaves.nested && !leaves.grounded then throw .wrong
    else if leaves.pending || !known then throw .incomplete
    else if leaves.cyclic && isOpen then throw .cyclic
    else return ⟨body, fields, checks⟩

def settle (place : Place) : (steps : Nat) → Node → Except Fault Shape
  | 0, _ => .error .wrong
  | steps + 1, node => do
    let leaves ← node.foldlM (collect place node [place.path] steps) (.start node)
    if leaves.choices.isEmpty then shapeOf place steps leaves
    else
      let shapes := (ways place node steps leaves).filterMap fun (mark, leaves) =>
        match shapeOf place steps leaves with
        | .error .wrong => none
        | shape => some (mark, leaves.leaves, shape)
      match shapes with
      | [] => throw .wrong
      | [(_, _, shape)] => shape
      | shapes =>
        let possible := shapes.filterMap fun (mark, node, shape) =>
          match datumOf place steps node with
          | .error .wrong => none
          | .error _ => some (mark, none, shape)
          | .ok datum => some (mark, some datum, shape)
        let preferred := possible.filter fun (mark, _) => mark = some true
        match if preferred.isEmpty then possible else preferred with
        | [] => throw .wrong
        | [(_, _, shape)] => shape
        | (_, none, _) :: _ => throw .incomplete
        | (_, some datum, shape) :: rest =>
          if rest.all fun (_, other, _) => other == some datum then shape else throw .incomplete

def datumOf (place : Place) : (steps : Nat) → Node → Except Fault Datum
  | 0, _ => .error .wrong
  | steps + 1, node => do
    let shape ← settle place steps node
    let fields ← together (shape.fields.map fun field =>
      match field.presence with
      | .optional => .ok none
      | .required => if field.key.plain then .error .incomplete else .ok none
      | .present =>
        match datumOf (place.below field.key.step) steps field.node with
        | .error fault => if field.key.plain || fault = .wrong then .error fault else .ok none
        | .ok datum => .ok (if field.key.plain then some (field.key.name, datum) else none))
    let datum ← match shape.body with
      | .scalar value => .ok (Datum.scalar value)
      | .range _ => .error .incomplete
      | .list items =>
        (together (items.zipIdx.map fun (item, position) =>
          datumOf (place.below (toString position)) steps item)).map .list
      | .record => .ok (.record ((fields.filterMap id).mergeSort fun a b => a.1 ≤ b.1))
    if ← shape.checks.allM (keeps place steps datum) then return datum else throw .wrong

def keeps (place : Place) : (steps : Nat) → Datum → Conjunct → Except Fault Bool
  | 0, _, _ => .error .wrong
  | steps + 1, datum, check =>
    let isPossible (node : Node) : Bool :=
      match datumOf (place.aside "term") steps node with
      | .ok _ => true
      | .error _ => false
    let own := Conjunct.mk datum.toTerm [] []
    let inScope (term : Term) : Conjunct := .needed term check.scope
    match check.term with
    | .check package function arguments => do
      let arguments ← together (arguments.map fun argument =>
        datumOf (place.aside "term") steps [.mk argument [] []])
      return Library.call? package function (datum :: arguments) == some (.ofBool true)
    | .call _ [count, conditions] => do
      let items ← itemsOf place steps check.scope conditions
      let kept := (items.filter fun item => isPossible (own :: item)).length
      return isPossible [inScope count, .mk (.number (.ofInt kept)) [] []]
    | .call _ [test, yes, no] =>
      if isPossible [own, inScope test] then .ok (isPossible [own, inScope yes])
      else .ok (isPossible [own, inScope no])
    | _ => .error .wrong

end

end Schematic.Data
