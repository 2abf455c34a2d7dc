/-! # Bytes as texts

Bytes are read as characters in UTF-8, and written with signs that stand for six bits each. -/

namespace Schematic.Text

def furtherCode? (count bits least : Nat) (bytes : List Nat) : Option (Char × List Nat) :=
  let further := bytes.take count
  let code := further.foldl (fun code byte => 64 * code + byte % 64) bits
  if further.length = count && further.all (fun byte => byte / 64 = 2) && least ≤ code &&
      code ≤ 0x10FFFF && !(0xD800 ≤ code && code ≤ 0xDFFF) then
    some (Char.ofNat code, bytes.drop count)
  else none

def readChar? (byte : Nat) (bytes : List Nat) : Option (Char × List Nat) :=
  if byte < 0x80 then some (Char.ofNat byte, bytes)
  else if byte / 32 = 6 then furtherCode? 1 (byte % 32) 0x80 bytes
  else if byte / 16 = 14 then furtherCode? 2 (byte % 16) 0x800 bytes
  else if byte / 8 = 30 then furtherCode? 3 (byte % 8) 0x10000 bytes
  else none

def ofBytes : (steps : Nat) → List Nat → List Char
  | 0, _ => []
  | _ + 1, [] => []
  | steps + 1, byte :: bytes =>
    match readChar? byte bytes with
    | some (c, rest) => c :: ofBytes steps rest
    | none => '�' :: ofBytes steps bytes

def sixBits? (c : Char) : Option Nat :=
  if 'A' ≤ c && c ≤ 'Z' then some (c.toNat - 'A'.toNat)
  else if 'a' ≤ c && c ≤ 'z' then some (c.toNat - 'a'.toNat + 26)
  else if '0' ≤ c && c ≤ '9' then some (c.toNat - '0'.toNat + 52)
  else if c == '+' then some 62
  else if c == '/' then some 63
  else none

def bytesOfSigns? : List Char → Option (List Nat)
  | [] => some []
  | [a, b, '=', '='] => do
    let bits := 64 * (← sixBits? a) + (← sixBits? b)
    return [bits / 16]
  | [a, b, c, '='] => do
    let bits := 64 * (64 * (← sixBits? a) + (← sixBits? b)) + (← sixBits? c)
    return [bits / 1024, bits / 4 % 256]
  | a :: b :: c :: d :: rest => do
    let bits := 64 * (64 * (64 * (← sixBits? a) + (← sixBits? b)) + (← sixBits? c)) + (← sixBits? d)
    let others ← bytesOfSigns? rest
    return bits / 65536 :: bits / 256 % 256 :: bits % 256 :: others
  | _ => none

def ofSigns? (text : String) : Option String :=
  (bytesOfSigns? (text.toList.filter fun c => c != '\n' && c != '\r')).map fun bytes =>
    String.ofList (ofBytes (bytes.length + 1) bytes)

end Schematic.Text
