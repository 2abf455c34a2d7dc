import Schematic.File.Tree

/-! # Patterns and searching

The files of a tree that path patterns stand for. A double star stands for any number of
directories. -/

namespace Schematic.Pattern

inductive Token where
  | any
  | literal (c : Char)
  | oneOf (negated : Bool) (ranges : List (Char × Char))
  deriving DecidableEq, Repr

/-- A part of a pattern between stars, and whether a star stands before it. -/
structure Chunk where
  star : Bool
  tokens : List Token
  deriving DecidableEq, Repr

def readClassChar? : List Char → Option (Char × List Char)
  | '-' :: _ => none
  | ']' :: _ => none
  | '\\' :: c :: d :: rest => some (c, d :: rest)
  | '\\' :: _ => none
  | c :: d :: rest => some (c, d :: rest)
  | _ => none

def readRanges? : (steps : Nat) → (found : List (Char × Char)) → List Char →
    Option (List (Char × Char) × List Char)
  | 0, _, _ => none
  | steps + 1, found, text =>
    match text, found with
    | ']' :: rest, _ :: _ => some (found.reverse, rest)
    | text, found => do
      let (low, rest) ← readClassChar? text
      match rest with
      | '-' :: rest =>
        let (high, rest) ← readClassChar? rest
        readRanges? steps ((low, high) :: found) rest
      | rest => readRanges? steps ((low, low) :: found) rest

def readClass? (text : List Char) : Option (Token × List Char) :=
  let (negated, text) := match text with
    | '^' :: rest => (true, rest)
    | text => (false, text)
  (readRanges? (text.length + 1) [] text).map fun (ranges, rest) => (.oneOf negated ranges, rest)

def readChunks? : (steps : Nat) → (star : Bool) → (tokens : List Token) → List Char →
    Option (List Chunk)
  | 0, star, tokens, _ => some [⟨star, tokens.reverse⟩]
  | _, star, tokens, [] => some [⟨star, tokens.reverse⟩]
  | steps + 1, star, tokens, '*' :: rest =>
    if tokens.isEmpty then readChunks? steps true [] rest
    else (readChunks? steps true [] rest).map (⟨star, tokens.reverse⟩ :: ·)
  | steps + 1, star, tokens, '?' :: rest => readChunks? steps star (.any :: tokens) rest
  | steps + 1, star, tokens, '[' :: rest => do
    let (token, rest) ← readClass? rest
    readChunks? steps star (token :: tokens) rest
  | _ + 1, _, _, ['\\'] => none
  | steps + 1, star, tokens, '\\' :: c :: rest =>
    readChunks? steps star (.literal c :: tokens) rest
  | steps + 1, star, tokens, c :: rest => readChunks? steps star (.literal c :: tokens) rest

def parse? (pattern : String) : Option (List Chunk) :=
  readChunks? (pattern.length + 1) false [] pattern.toList

def leadByte? (byte : Nat) : Option (Nat × Nat) :=
  if byte < 0x80 then some (0, byte)
  else if byte < 0xC0 then none
  else if byte < 0xE0 then some (1, byte % 0x20)
  else if byte < 0xF0 then some (2, byte % 0x10)
  else some (3, byte % 8)

def firstChar (byte : UInt8) (bytes : List UInt8) : Char × List UInt8 :=
  match leadByte? byte.toNat with
  | none => ('\ufffd', bytes)
  | some (count, bits) =>
    (Char.ofNat ((bytes.take count).foldl (fun code byte => code * 64 + byte.toNat % 64) bits),
      bytes.drop count)

def Token.match? (token : Token) (byte : UInt8) (bytes : List UInt8) : Option (List UInt8) :=
  match token with
  | .any => if byte == 0x2F then none else some (firstChar byte bytes).2
  | .literal c =>
    Text.dropStart? (String.ofList [c]).toUTF8.toList (byte :: bytes)
  | .oneOf negated ranges =>
    let (c, rest) := firstChar byte bytes
    if (ranges.any fun (low, high) => low ≤ c && c ≤ high) != negated then some rest else none

def matchTokens? : List Token → List UInt8 → Option (List UInt8)
  | [], name => some name
  | _ :: _, [] => none
  | token :: tokens, byte :: name => (token.match? byte name).bind (matchTokens? tokens)

def matchChunk? (tokens : List Token) (last : Bool) (name : List UInt8) : Option (List UInt8) :=
  (matchTokens? tokens name).filter fun rest => !last || rest.isEmpty

def skipTo? (tokens : List Token) (last : Bool) : List UInt8 → Option (List UInt8)
  | [] => none
  | byte :: name =>
    if byte == 0x2F then none
    else (matchChunk? tokens last name) <|> (skipTo? tokens last name)

def matchChunks : List Chunk → List UInt8 → Bool
  | [], name => name.isEmpty
  | chunk :: rest, name =>
    if chunk.star && chunk.tokens.isEmpty && rest.isEmpty then !name.contains 0x2F
    else
      match matchChunk? chunk.tokens rest.isEmpty name with
      | some name => matchChunks rest name
      | none =>
        if chunk.star then
          match skipTo? chunk.tokens rest.isEmpty name with
          | some name => matchChunks rest name
          | none => false
        else false

def stands (pattern name : String) : Bool :=
  match parse? pattern with
  | some chunks => matchChunks chunks name.toUTF8.toList
  | none => false

def hasSigns (pattern : String) : Bool :=
  pattern.toList.any fun c => c == '*' || c == '?' || c == '[' || c == '\\'

end Schematic.Pattern

namespace Schematic.FileTree

/-- A pattern that cannot be read. -/
structure MalformedPattern where
  deriving DecidableEq, Repr

def MalformedPattern.message (_ : MalformedPattern) : String :=
  "syntax error in pattern"

def splitPattern (pattern : String) : String × String :=
  let reversed := pattern.toList.reverse
  let last := (reversed.takeWhile (· != '/')).reverse
  let directory := (reversed.dropWhile (· != '/')).reverse
  (match directory with
    | [] => "."
    | ['/'] => "/"
    | directory => String.ofList directory.dropLast,
    String.ofList last)

def matchesIn (tree : FileTree) (pattern directory : String) : List String :=
  if tree.isDirectory directory then
    ((tree.names directory).filter (Pattern.stands pattern)).map fun name =>
      Path.join [directory, name]
  else []

def expandFrom (tree : FileTree) : (depth : Nat) → (pattern : String) →
    Except MalformedPattern (List String)
  | 0, _ => .error {}
  | depth + 1, pattern =>
    if (Pattern.parse? pattern).isNone then .error {}
    else if !Pattern.hasSigns pattern then .ok (if tree.has pattern then [pattern] else [])
    else
      let (directory, last) := splitPattern pattern
      if Pattern.hasSigns directory then
        (expandFrom tree depth directory).map fun paths => paths.flatMap (tree.matchesIn last)
      else .ok (tree.matchesIn last directory)

def expand (tree : FileTree) (pattern : String) : Except MalformedPattern (List String) :=
  tree.expandFrom (pattern.length + 1) pattern

def endsAs (pattern path : String) : Bool :=
  if !pattern.toList.contains '/' then Pattern.stands pattern (Path.base path)
  else
    let elements := Text.splitAt '/' path
    let depth := (Text.splitAt '/' pattern).length
    Pattern.stands pattern path ||
      (depth < elements.length &&
        Pattern.stands pattern (Path.join (elements.drop (elements.length - depth))))

def expandDeep (tree : FileTree) (before behind : List Char) : List String :=
  let directory := Path.clean (String.ofList before)
  let ending := Text.withoutStart "/" (String.ofList behind)
  ((tree.filesFrom directory).map (·.1)).filter fun path =>
    ending = "" ||
      match Path.relative? directory path with
      | some path => endsAs ending path
      | none => false

def search (tree : FileTree) (pattern : String) : Except MalformedPattern (List String) :=
  match Text.splitFirst? ['*', '*'] pattern.toList with
  | some (before, behind) => .ok (tree.expandDeep before behind)
  | none => tree.expand pattern

end Schematic.FileTree
