import Schematic.Text.Quoted

/-! # Digests

The SHA-256 digest of a text in UTF-8, by which unchanged files are recognised. -/

namespace Schematic.Digest

def roundWords : List UInt32 := [
  0x428a2f98, 0x71374491, 0xb5c0fbcf, 0xe9b5dba5, 0x3956c25b, 0x59f111f1, 0x923f82a4, 0xab1c5ed5,
  0xd807aa98, 0x12835b01, 0x243185be, 0x550c7dc3, 0x72be5d74, 0x80deb1fe, 0x9bdc06a7, 0xc19bf174,
  0xe49b69c1, 0xefbe4786, 0x0fc19dc6, 0x240ca1cc, 0x2de92c6f, 0x4a7484aa, 0x5cb0a9dc, 0x76f988da,
  0x983e5152, 0xa831c66d, 0xb00327c8, 0xbf597fc7, 0xc6e00bf3, 0xd5a79147, 0x06ca6351, 0x14292967,
  0x27b70a85, 0x2e1b2138, 0x4d2c6dfc, 0x53380d13, 0x650a7354, 0x766a0abb, 0x81c2c92e, 0x92722c85,
  0xa2bfe8a1, 0xa81a664b, 0xc24b8b70, 0xc76c51a3, 0xd192e819, 0xd6990624, 0xf40e3585, 0x106aa070,
  0x19a4c116, 0x1e376c08, 0x2748774c, 0x34b0bcb5, 0x391c0cb3, 0x4ed8aa4a, 0x5b9cca4f, 0x682e6ff3,
  0x748f82ee, 0x78a5636f, 0x84c87814, 0x8cc70208, 0x90befffa, 0xa4506ceb, 0xbef9a3f7, 0xc67178f2]

/-- The eight words of a digest under construction. -/
structure State where
  a : UInt32
  b : UInt32
  c : UInt32
  d : UInt32
  e : UInt32
  f : UInt32
  g : UInt32
  h : UInt32

def State.start : State :=
  ⟨0x6a09e667, 0xbb67ae85, 0x3c6ef372, 0xa54ff53a, 0x510e527f, 0x9b05688c, 0x1f83d9ab, 0x5be0cd19⟩

def rotate (word : UInt32) (distance : UInt32) : UInt32 :=
  (word >>> distance) ||| (word <<< (32 - distance))

def State.round (state : State) (word constant : UInt32) : State :=
  let s1 := rotate state.e 6 ^^^ rotate state.e 11 ^^^ rotate state.e 25
  let choice := (state.e &&& state.f) ^^^ ((~~~ state.e) &&& state.g)
  let first := state.h + s1 + choice + constant + word
  let s0 := rotate state.a 2 ^^^ rotate state.a 13 ^^^ rotate state.a 22
  let majority := (state.a &&& state.b) ^^^ (state.a &&& state.c) ^^^ (state.b &&& state.c)
  ⟨first + s0 + majority, state.a, state.b, state.c, state.d + first, state.e, state.f, state.g⟩

def State.add (x y : State) : State :=
  ⟨x.a + y.a, x.b + y.b, x.c + y.c, x.d + y.d, x.e + y.e, x.f + y.f, x.g + y.g, x.h + y.h⟩

def nextWord (schedule : Array UInt32) : UInt32 :=
  let back (distance : Nat) : UInt32 := schedule.getD (schedule.size - distance) 0
  let w15 := back 15
  let w2 := back 2
  let s0 := rotate w15 7 ^^^ rotate w15 18 ^^^ (w15 >>> 3)
  let s1 := rotate w2 17 ^^^ rotate w2 19 ^^^ (w2 >>> 10)
  back 16 + s0 + back 7 + s1

def schedule (block : Array UInt32) : Array UInt32 :=
  (List.range 48).foldl (fun words _ => words.push (nextWord words)) block

def State.compress (state : State) (block : Array UInt32) : State :=
  state.add
    (((schedule block).toList.zip roundWords).foldl
      (fun state (word, constant) => state.round word constant) state)

def filled (bytes : ByteArray) : ByteArray :=
  let zeros := (119 - bytes.size % 64) % 64
  let bits := bytes.size * 8
  let marked := (List.range zeros).foldl (fun bytes _ => bytes.push 0) (bytes.push 0x80)
  (List.range 8).foldl (fun bytes i => bytes.push (UInt8.ofNat (bits >>> (56 - 8 * i)))) marked

def wordAt (bytes : ByteArray) (start : Nat) : UInt32 :=
  (List.range 4).foldl
    (fun word i => (word <<< 8) ||| (bytes.data.getD (start + i) 0).toUInt32) 0

def blockAt (bytes : ByteArray) (start : Nat) : Array UInt32 :=
  ((List.range 16).map fun i => wordAt bytes (start + 4 * i)).toArray

def ofBytes (bytes : ByteArray) : State :=
  let message := filled bytes
  (List.range (message.size / 64)).foldl
    (fun state block => state.compress (blockAt message (64 * block))) State.start

def State.text (state : State) : String :=
  let words := [state.a, state.b, state.c, state.d, state.e, state.f, state.g, state.h]
  String.ofList (words.flatMap fun word => Text.hexDigits 8 word.toNat)

def ofText (text : String) : String :=
  (ofBytes text.toUTF8).text

end Schematic.Digest
