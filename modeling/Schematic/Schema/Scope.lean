import Schematic.Schema.Value

/-! # Scopes

Every word of a text refers to a field around it, to a name given to a term, or to something that is
known everywhere. -/

namespace Schematic.Data

def Declaration.names : Declaration → List String
  | .field (.word label) _ _ => [label]
  | .field (.named given (.word label)) _ _ => [given, label]
  | .field (.named given _) _ _ => [given]
  | .name given _ => [given]
  | _ => []

def Declaration.given : Declaration → List String
  | .field (.named word _) _ _ => [word]
  | .name word _ => [word]
  | _ => []

mutual

def Term.words : (depth : Nat) → Term → List String
  | 0, _ => []
  | depth + 1, term =>
    match term with
    | .word name => [name]
    | .joined _ parts => parts.flatMap (Term.words depth)
    | .list elements => elements.flatMap (Element.words depth)
    | .record declarations => declarations.flatMap (Declaration.words depth)
    | .not operand => Term.words depth operand
    | .sign _ operand => Term.words depth operand
    | .preferred operand => Term.words depth operand
    | .bound _ limit => Term.words depth limit
    | .operation _ left right => Term.words depth left ++ Term.words depth right
    | .member base _ _ => Term.words depth base
    | .item base index => Term.words depth base ++ Term.words depth index
    | .slice base low high =>
      Term.words depth base ++ (low.toList ++ high.toList).flatMap (Term.words depth)
    | .call function arguments =>
      Term.words depth function ++ arguments.flatMap (Term.words depth)
    | .named _ value => Term.words depth value
    | .grouped inner => Term.words depth inner
    | .closed inner => Term.words depth inner
    | .importing _ inner => Term.words depth inner
    | _ => []

def Element.words : (depth : Nat) → Element → List String
  | 0, _ => []
  | depth + 1, element =>
    match element with
    | .item value => Term.words depth value
    | .more value => Term.words depth value
    | .each clauses body => clauses.flatMap (Clause.words depth) ++ Term.words depth body

def Declaration.words : (depth : Nat) → Declaration → List String
  | 0, _ => []
  | depth + 1, declaration =>
    match declaration with
    | .field label _ value => Label.words depth label ++ Term.words depth value
    | .part value => Term.words depth value
    | .more => []
    | .name _ value => Term.words depth value
    | .each clauses body => clauses.flatMap (Clause.words depth) ++ Term.words depth body

def Label.words : (depth : Nat) → Label → List String
  | 0, _ => []
  | depth + 1, label =>
    match label with
    | .computed name => Term.words depth name
    | .pattern _ labels => Term.words depth labels
    | .named _ label => Label.words depth label
    | _ => []

def Clause.words : (depth : Nat) → Clause → List String
  | 0, _ => []
  | depth + 1, clause =>
    match clause with
    | .source _ _ items => Term.words depth items
    | .condition test => Term.words depth test
    | .name _ value => Term.words depth value

end

mutual

def Term.sound (known : List String) : (depth : Nat) → Term → Bool
  | 0, _ => false
  | depth + 1, term =>
    match term with
    | .word name => known.contains name || isCommonWord name
    | .joined _ parts => parts.all (Term.sound known depth)
    | .list elements => elements.all (Element.sound known depth)
    | .record declarations =>
      let inside := declarations.flatMap Declaration.names ++ known
      let given := declarations.flatMap Declaration.given
      declarations.all (Declaration.sound inside depth) &&
        (given.isEmpty ||
          let used := declarations.flatMap (Declaration.words depth)
          given.all used.contains)
    | .not operand => Term.sound known depth operand
    | .sign _ operand => Term.sound known depth operand
    | .preferred _ => false
    | .bound _ limit => Term.sound known depth limit
    | .operation .either left right =>
      optionSound known depth left && optionSound known depth right
    | .operation _ left right => Term.sound known depth left && Term.sound known depth right
    | .member base _ _ => Term.sound known depth base
    | .item base index => Term.sound known depth base && Term.sound known depth index
    | .slice base low high =>
      Term.sound known depth base && (low.toList ++ high.toList).all (Term.sound known depth)
    | .call function arguments =>
      Term.sound known depth function && arguments.all (Term.sound known depth)
    | .named name value =>
      (Term.words depth value).contains name && Term.sound (name :: known) depth value
    | .grouped inner => Term.sound known depth inner
    | .closed inner => Term.sound known depth inner
    | .importing packages inner =>
      let names := packages.map (·.1)
      let used := Term.words depth inner
      names.all used.contains && Term.sound (names ++ known) depth inner
    | _ => true

def optionSound (known : List String) : (depth : Nat) → Term → Bool
  | 0, _ => false
  | depth + 1, term =>
    match term with
    | .preferred operand => Term.sound known depth operand
    | .operation .either left right =>
      optionSound known depth left && optionSound known depth right
    | term => Term.sound known depth term

def Element.sound (known : List String) : (depth : Nat) → Element → Bool
  | 0, _ => false
  | depth + 1, element =>
    match element with
    | .item value => Term.sound known depth value
    | .more value => Term.sound known depth value
    | .each clauses body => repetitionSound known depth clauses body

def Declaration.sound (known : List String) : (depth : Nat) → Declaration → Bool
  | 0, _ => false
  | depth + 1, declaration =>
    match declaration with
    | .field label _ value =>
      match label with
      | .computed label => Term.sound known depth label && Term.sound known depth value
      | .pattern word labels =>
        Term.sound known depth labels &&
          if word = "" then Term.sound known depth value
          else (Term.words depth value).contains word && Term.sound (word :: known) depth value
      | .named _ (.computed label) => Term.sound known depth label && Term.sound known depth value
      | .named _ (.pattern _ labels) =>
        Term.sound known depth labels && Term.sound known depth value
      | _ => Term.sound known depth value
    | .part value => Term.sound known depth value
    | .more => true
    | .name _ value => Term.sound known depth value
    | .each clauses body => repetitionSound known depth clauses body

def repetitionSound (known : List String) : (depth : Nat) → List Clause → Term → Bool
  | 0, _, _ => false
  | depth + 1, clauses, body =>
    match clauses with
    | [] => Term.sound known depth body
    | .source key value items :: clauses =>
      Term.sound known depth items && repetitionSound (key :: value :: known) depth clauses body
    | .condition test :: clauses =>
      Term.sound known depth test && repetitionSound known depth clauses body
    | .name name value :: clauses =>
      Term.sound known depth value && repetitionSound (name :: known) depth clauses body

end

end Schematic.Data
