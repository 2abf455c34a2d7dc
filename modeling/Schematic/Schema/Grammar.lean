import Schematic.Schema.Library
import Schematic.Schema.Token

/-! # Grammar of data texts

Tokens are read as terms. A text is a record without its braces, or a single value. -/

namespace Schematic.Data

def operator? : String → Option (Operator × Nat)
  | "|" => some (.either, 1)
  | "&" => some (.both, 2)
  | "||" => some (.or, 3)
  | "&&" => some (.and, 4)
  | "==" => some (.equal, 5)
  | "!=" => some (.unequal, 5)
  | "<" => some (.less, 5)
  | "<=" => some (.atMost, 5)
  | ">" => some (.greater, 5)
  | ">=" => some (.atLeast, 5)
  | "=~" => some (.like, 5)
  | "!~" => some (.unlike, 5)
  | "+" => some (.add, 6)
  | "-" => some (.subtract, 6)
  | "*" => some (.multiply, 7)
  | "/" => some (.divide, 7)
  | _ => none

def leading? : String → Option (Term → Term)
  | "+" => some (.sign false)
  | "-" => some (.sign true)
  | "!" => some .not
  | "*" => some .preferred
  | "!=" => some (.bound .unequal)
  | "<" => some (.bound .less)
  | "<=" => some (.bound .atMost)
  | ">" => some (.bound .greater)
  | ">=" => some (.bound .atLeast)
  | "=~" => some (.bound .like)
  | "!~" => some (.bound .unlike)
  | _ => none

def isKeyword (name : String) : Bool :=
  ["true", "false", "null", "for", "in", "if", "let"].contains name

def isLabelWord (name : String) : Bool :=
  name ≠ "_" && !Text.startsWith name "__"

def label? : Term → Option Label
  | .word name => if isLabelWord name then some (.word name) else none
  | .text content => some (.text content)
  | .null => some (.word "null")
  | .truth value => some (.word (if value then "true" else "false"))
  | .joined bytes parts => if bytes then none else some (.computed (.joined bytes parts))
  | .grouped inner => some (.computed inner)
  | .list [.item labels] =>
    match labels with
    | .named name labels => some (.pattern name labels)
    | labels => some (.pattern "" labels)
  | .named name inner =>
    match inner with
    | .word label => if isLabelWord label then some (.named name (.word label)) else none
    | .text content => some (.named name (.text content))
    | .joined false parts => some (.named name (.computed (.joined false parts)))
    | .grouped inner => some (.named name (.computed inner))
    | .list [.item labels] => some (.named name (.pattern "" labels))
    | _ => none
  | _ => none

def colon? : List Token → Option (Presence × List Token)
  | .sign ":" :: rest => some (.present, rest)
  | .sign "?" :: .sign ":" :: rest => some (.optional, rest)
  | .sign "!" :: .sign ":" :: rest => some (.required, rest)
  | _ => none

def keywordLabel : List Token → List Token
  | .word name :: rest =>
    if isKeyword name && (colon? rest).isSome then .quoted false [.content name] :: rest
    else .word name :: rest
  | tokens => tokens

def skipRemarks : List Token → List Token
  | .remark :: rest => skipRemarks rest
  | rest => rest

def startsRepetition : List Token → Bool
  | .word name :: next :: _ =>
    (name = "for" || name = "if") &&
      match next with
      | .sign ":" => false
      | .sign "?" => false
      | .sign "=" => false
      | .comma _ => false
      | _ => true
  | _ => false

def startsName : List Token → Bool
  | .word "let" :: .word _ :: _ => true
  | _ => false

def nextDeclaration? : List Token → Option (List Token)
  | .comma _ :: rest => some rest
  | [] => some []
  | .sign "\x7d" :: rest => some (.sign "\x7d" :: rest)
  | _ => none

mutual

def term? (least : Nat) : (steps : Nat) → List Token → Option (Term × List Token)
  | 0, _ => none
  | steps + 1, tokens => do
    let (left, rest) ← unary? steps tokens
    operations? least left steps rest

def operations? (least : Nat) (left : Term) : (steps : Nat) → List Token →
    Option (Term × List Token)
  | 0, _ => none
  | steps + 1, tokens =>
    match tokens with
    | .sign spelling :: rest =>
      match operator? spelling with
      | some (operator, strength) =>
        if least ≤ strength then do
          let (right, rest) ← term? (strength + 1) steps rest
          operations? least (.operation operator left right) steps rest
        else some (left, tokens)
      | none => some (left, tokens)
    | .word name :: rest =>
      if ["div", "mod", "quo", "rem"].contains name && least ≤ 7 then do
        let (right, rest) ← term? 8 steps rest
        operations? least (.call (.word name) [left, right]) steps rest
      else some (left, tokens)
    | _ => some (left, tokens)

def unary? : (steps : Nat) → List Token → Option (Term × List Token)
  | 0, _ => none
  | steps + 1, tokens =>
    match tokens with
    | .sign spelling :: rest =>
      match leading? spelling with
      | some wrap => (unary? steps rest).map fun (operand, rest) => (wrap operand, rest)
      | none => primary? steps tokens
    | _ => primary? steps tokens

def primary? : (steps : Nat) → List Token → Option (Term × List Token)
  | 0, _ => none
  | steps + 1, tokens => do
    let (base, rest) ← operand? steps tokens
    selections? base steps rest

def selections? (base : Term) : (steps : Nat) → List Token → Option (Term × List Token)
  | 0, _ => none
  | steps + 1, tokens =>
    match tokens with
    | .sign "." :: .word name :: rest => selections? (.member base name false) steps rest
    | .sign "." :: .quoted false [.content name] :: rest =>
      selections? (.member base name true) steps rest
    | .sign "[" :: .sign ":" :: rest =>
      match sliceEnd? steps rest with
      | some (high, rest) => selections? (.slice base none high) steps rest
      | none => none
    | .sign "[" :: rest =>
      match term? 1 steps rest with
      | some (index, .sign "]" :: rest) => selections? (.item base index) steps rest
      | some (low, .sign ":" :: rest) =>
        match sliceEnd? steps rest with
        | some (high, rest) => selections? (.slice base (some low) high) steps rest
        | none => none
      | _ => none
    | .sign "(" :: rest =>
      match arguments? steps rest with
      | some (arguments, rest) => selections? (.call base arguments) steps rest
      | none => none
    | _ => some (base, tokens)

def sliceEnd? : (steps : Nat) → List Token → Option (Option Term × List Token)
  | 0, _ => none
  | steps + 1, tokens =>
    match tokens with
    | .sign "]" :: rest => some (none, rest)
    | _ =>
      match term? 1 steps tokens with
      | some (high, .sign "]" :: rest) => some (some high, rest)
      | _ => none

def arguments? : (steps : Nat) → List Token → Option (List Term × List Token)
  | 0, _ => none
  | steps + 1, tokens =>
    match tokens with
    | .sign ")" :: rest => some ([], rest)
    | _ =>
      match term? 1 steps tokens with
      | some (argument, .comma true :: rest) =>
        (arguments? steps rest).map fun (arguments, rest) => (argument :: arguments, rest)
      | some (argument, .comma false :: .sign ")" :: rest) => some ([argument], rest)
      | some (argument, .sign ")" :: rest) => some ([argument], rest)
      | _ => none

def operand? : (steps : Nat) → List Token → Option (Term × List Token)
  | 0, _ => none
  | steps + 1, tokens =>
    match tokens with
    | .word "null" :: rest => some (.null, rest)
    | .word "true" :: rest => some (.truth true, rest)
    | .word "false" :: rest => some (.truth false, rest)
    | .word name :: rest => if isKeyword name then none else some (.word name, rest)
    | .number value :: rest => some (.number value, rest)
    | .quoted bytes [] :: rest => some (if bytes then .bytes "" else .text "", rest)
    | .quoted bytes [.content text] :: rest =>
      some (if bytes then .bytes text else .text text, rest)
    | .quoted bytes parts :: rest =>
      (textParts? steps parts).map fun parts => (.joined bytes parts, rest)
    | .sign "_|_" :: rest => some (.bottom, rest)
    | .sign "(" :: rest =>
      match term? 1 steps rest with
      | some (inner, .sign ")" :: rest) => some (.grouped inner, rest)
      | _ => none
    | .sign "[" :: rest => do
      let (elements, rest) ← elements? steps rest
      return (.list elements, rest)
    | .sign "\x7b" :: rest =>
      match declarations? steps rest with
      | some (declarations, .sign "\x7d" :: rest) => some (.record declarations, rest)
      | _ => none
    | _ => none

def textParts? : (steps : Nat) → List TextPart → Option (List Term)
  | 0, _ => none
  | _ + 1, [] => some []
  | steps + 1, .content text :: parts => (textParts? steps parts).map (.text text :: ·)
  | steps + 1, .hole tokens :: parts =>
    match term? 1 steps tokens with
    | some (term, []) => (textParts? steps parts).map (term :: ·)
    | _ => none

def elements? : (steps : Nat) → List Token → Option (List Element × List Token)
  | 0, _ => none
  | steps + 1, tokens =>
    let next (element : Element) (rest : List Token) : Option (List Element × List Token) :=
      match rest with
      | .comma true :: rest =>
        (elements? steps rest).map fun (elements, rest) => (element :: elements, rest)
      | .comma false :: .sign "]" :: rest => some ([element], rest)
      | .sign "]" :: rest => some ([element], rest)
      | _ => none
    match tokens with
    | .sign "]" :: rest => some ([], rest)
    | .sign "..." :: rest =>
      match rest with
      | .sign "]" :: rest => some ([.more (.word "_")], rest)
      | .comma _ :: .sign "]" :: rest => some ([.more (.word "_")], rest)
      | rest =>
        match term? 1 steps rest with
        | some (value, .sign "]" :: rest) => some ([.more value], rest)
        | some (value, .comma _ :: .sign "]" :: rest) => some ([.more value], rest)
        | _ => none
    | _ =>
      if startsRepetition tokens then
        match repetition? steps tokens with
        | some (clauses, body, rest) => next (.each clauses body) rest
        | none => none
      else
        match aliased? steps tokens with
        | some (value, rest) => next (.item value) rest
        | none => none

def aliased? : (steps : Nat) → List Token → Option (Term × List Token)
  | 0, _ => none
  | steps + 1, tokens =>
    match tokens with
    | .word name :: .sign "=" :: rest =>
      if isKeyword name then none
      else (term? 1 steps rest).map fun (value, rest) => (.named name value, rest)
    | _ => term? 1 steps tokens

def repetition? : (steps : Nat) → List Token → Option (List Clause × Term × List Token)
  | 0, _ => none
  | steps + 1, tokens => do
    let (clauses, rest) ← clauses? steps tokens
    match rest with
    | .sign "\x7b" :: inner =>
      match declarations? steps inner with
      | some (declarations, .sign "\x7d" :: rest) =>
        if clauses.isEmpty then none else some (clauses, .record declarations, rest)
      | _ => none
    | _ => none

def clauses? : (steps : Nat) → List Token → Option (List Clause × List Token)
  | 0, _ => none
  | steps + 1, tokens =>
    let next (clause : Clause) (rest : List Token) : Option (List Clause × List Token) :=
      let rest := match rest with
        | .comma _ :: rest => rest
        | rest => rest
      (clauses? steps rest).map fun (clauses, rest) => (clause :: clauses, rest)
    match tokens with
    | .word "for" :: .word key :: .comma true :: .word value :: .word "in" :: rest =>
      match term? 1 steps rest with
      | some (items, rest) => next (.source key value items) rest
      | none => none
    | .word "for" :: .word value :: .word "in" :: rest =>
      match term? 1 steps rest with
      | some (items, rest) => next (.source "" value items) rest
      | none => none
    | .word "if" :: rest =>
      match term? 1 steps rest with
      | some (test, rest) => next (.condition test) rest
      | none => none
    | .word "let" :: .word name :: .sign "=" :: rest =>
      match term? 1 steps rest with
      | some (value, rest) => next (.name name value) rest
      | none => none
    | _ => some ([], tokens)

def fieldValue? : (steps : Nat) → List Token → Option (Term × List Token)
  | 0, _ => none
  | steps + 1, tokens =>
    match aliased? steps (keywordLabel tokens) with
    | none => none
    | some (value, rest) =>
      match label? value, colon? rest with
      | some label, some (presence, rest) =>
        (fieldValue? steps rest).map fun (value, rest) =>
          (.record [.field label presence value], rest)
      | none, some _ => none
      | _, none => some (value, rest)

def declaration? : (steps : Nat) → List Token → Option (Declaration × List Token)
  | 0, _ => none
  | steps + 1, tokens => do
    let (declaration, rest) ←
      if startsRepetition tokens then
        (repetition? steps tokens).map fun (clauses, body, rest) =>
          (Declaration.each clauses body, rest)
      else if startsName tokens then
        match tokens with
        | .word _ :: .word name :: .sign "=" :: rest =>
          (term? 1 steps rest).map fun (value, rest) => (Declaration.name name value, rest)
        | _ => none
      else
        match tokens with
        | .sign "..." :: rest => some (Declaration.more, rest)
        | _ =>
          match aliased? steps (keywordLabel tokens) with
          | none => none
          | some (value, rest) =>
            match label? value, colon? rest with
            | some label, some (presence, rest) =>
              (fieldValue? steps rest).map fun (value, rest) =>
                (Declaration.field label presence value, skipRemarks rest)
            | none, some _ => none
            | _, none =>
              match value with
              | .named _ _ => none
              | value => some (Declaration.part value, rest)
    let rest ← nextDeclaration? rest
    return (declaration, rest)

def declarations? : (steps : Nat) → List Token → Option (List Declaration × List Token)
  | 0, _ => none
  | steps + 1, tokens =>
    match tokens with
    | [] => some ([], [])
    | .sign "\x7d" :: _ => some ([], tokens)
    | .remark :: rest =>
      match nextDeclaration? rest with
      | some rest => declarations? steps rest
      | none => none
    | _ =>
      match declaration? steps tokens with
      | some (declaration, rest) =>
        (declarations? steps rest).map fun (declarations, rest) =>
          (declaration :: declarations, rest)
      | none => none

end

def skipPackage? : List Token → Option (List Token)
  | .remark :: .comma _ :: rest => skipPackage? rest
  | .word "package" :: .word name :: .comma _ :: rest =>
    if name = "_" then none else some rest
  | .word "package" :: _ => none
  | tokens => some tokens

def packageName? : List Token → Option ((String × String) × List Token)
  | .word name :: .quoted false [.content path] :: .comma _ :: rest =>
    if Library.packages.contains path && isLabelWord name then some ((name, path), rest) else none
  | .quoted false [.content path] :: .comma _ :: rest =>
    if Library.packages.contains path then some ((path, path), rest) else none
  | _ => none

def packageNames? : (steps : Nat) → List Token → Option (List (String × String) × List Token)
  | 0, _ => none
  | steps + 1, tokens =>
    match tokens with
    | .sign ")" :: .comma _ :: rest => some ([], rest)
    | tokens => do
      let (package, rest) ← packageName? tokens
      let (packages, rest) ← packageNames? steps rest
      return (package :: packages, rest)

def packages? : (steps : Nat) → List Token → Option (List (String × String) × List Token)
  | 0, _ => none
  | steps + 1, tokens =>
    match tokens with
    | .word "import" :: .sign "(" :: rest => do
      let (packages, rest) ← packageNames? steps rest
      let (more, rest) ← packages? steps rest
      return (packages ++ more, rest)
    | .word "import" :: rest => do
      let (package, rest) ← packageName? rest
      let (more, rest) ← packages? steps rest
      return (package :: more, rest)
    | tokens => some ([], tokens)

def parse? (text : String) : Option Term := do
  let tokens ← tokens? text
  let tokens ← skipPackage? tokens
  let (packages, tokens) ← packages? (tokens.length + 1) tokens
  match ← declarations? (16 * tokens.length + 16) tokens with
  | (declarations, []) =>
    some (if packages.isEmpty then .record declarations
      else .importing packages (.record declarations))
  | _ => none

end Schematic.Data
