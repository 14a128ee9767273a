import SourceChunks.Text.Hex

/-!
# SHA-256

The digest of FIPS 180-4 over whole bytes.  A message is padded to blocks of
sixty-four bytes; each block is expanded to a schedule of sixty-four words, and
sixty-four rounds mix the schedule into a state of eight words.
-/

namespace SourceChunks.Sha256

/-- The eight words that are carried from block to block. -/
structure State where
  (a b c d e f g h : UInt32)
  deriving Repr, DecidableEq

/-- The state before the first block: the leading fraction bits of the square
roots of the first eight primes. -/
def State.initial : State :=
  ⟨0x6a09e667, 0xbb67ae85, 0x3c6ef372, 0xa54ff53a,
   0x510e527f, 0x9b05688c, 0x1f83d9ab, 0x5be0cd19⟩

/-- The round constants: the leading fraction bits of the cube roots of the first
sixty-four primes. -/
def roundConstants : List UInt32 :=
  [0x428a2f98, 0x71374491, 0xb5c0fbcf, 0xe9b5dba5, 0x3956c25b, 0x59f111f1, 0x923f82a4, 0xab1c5ed5,
   0xd807aa98, 0x12835b01, 0x243185be, 0x550c7dc3, 0x72be5d74, 0x80deb1fe, 0x9bdc06a7, 0xc19bf174,
   0xe49b69c1, 0xefbe4786, 0x0fc19dc6, 0x240ca1cc, 0x2de92c6f, 0x4a7484aa, 0x5cb0a9dc, 0x76f988da,
   0x983e5152, 0xa831c66d, 0xb00327c8, 0xbf597fc7, 0xc6e00bf3, 0xd5a79147, 0x06ca6351, 0x14292967,
   0x27b70a85, 0x2e1b2138, 0x4d2c6dfc, 0x53380d13, 0x650a7354, 0x766a0abb, 0x81c2c92e, 0x92722c85,
   0xa2bfe8a1, 0xa81a664b, 0xc24b8b70, 0xc76c51a3, 0xd192e819, 0xd6990624, 0xf40e3585, 0x106aa070,
   0x19a4c116, 0x1e376c08, 0x2748774c, 0x34b0bcb5, 0x391c0cb3, 0x4ed8aa4a, 0x5b9cca4f, 0x682e6ff3,
   0x748f82ee, 0x78a5636f, 0x84c87814, 0x8cc70208, 0x90befffa, 0xa4506ceb, 0xbef9a3f7, 0xc67178f2]

/-- A word rotated to the right. -/
def rotateRight (x : UInt32) (n : UInt32) : UInt32 :=
  (x >>> n) ||| (x <<< (32 - n))

/-- The four bytes of a message from an index on, as one word. -/
def wordAt (message : ByteArray) (i : Nat) : UInt32 :=
  let byte (k : Nat) : UInt32 := (message[i + k]?.getD 0).toUInt32
  (byte 0 <<< 24) ||| (byte 1 <<< 16) ||| (byte 2 <<< 8) ||| byte 3

/-- The next word of a schedule. -/
def nextWord (w : Array UInt32) : UInt32 :=
  let back (k : Nat) : UInt32 := w.getD (w.size - k) 0
  let x := back 15
  let y := back 2
  back 16 + (rotateRight x 7 ^^^ rotateRight x 18 ^^^ (x >>> 3)) +
    back 7 + (rotateRight y 17 ^^^ rotateRight y 19 ^^^ (y >>> 10))

/-- The schedule of the block that begins at an index: its sixteen words and
forty-eight more. -/
def schedule (message : ByteArray) (start : Nat) : Array UInt32 :=
  (List.range 48).foldl (fun w _ => w.push (nextWord w))
    ((List.range 16).map fun k => wordAt message (start + 4 * k)).toArray

/-- One round, with a round constant and a word of the schedule. -/
def round (s : State) (constant word : UInt32) : State :=
  let sum1 := rotateRight s.e 6 ^^^ rotateRight s.e 11 ^^^ rotateRight s.e 25
  let choice := (s.e &&& s.f) ^^^ (~~~s.e &&& s.g)
  let t1 := s.h + sum1 + choice + constant + word
  let sum0 := rotateRight s.a 2 ^^^ rotateRight s.a 13 ^^^ rotateRight s.a 22
  let majority := (s.a &&& s.b) ^^^ (s.a &&& s.c) ^^^ (s.b &&& s.c)
  ⟨t1 + (sum0 + majority), s.a, s.b, s.c, s.d + t1, s.e, s.f, s.g⟩

/-- The state after the block that begins at an index. -/
def compress (message : ByteArray) (s : State) (start : Nat) : State :=
  let t := (roundConstants.zip (schedule message start).toList).foldl
    (fun t (constant, word) => round t constant word) s
  ⟨s.a + t.a, s.b + t.b, s.c + t.c, s.d + t.d, s.e + t.e, s.f + t.f, s.g + t.g, s.h + t.h⟩

/-- The eight bytes of a number below 2^64, the highest first. -/
def lengthBytes (n : Nat) : List UInt8 :=
  [56, 48, 40, 32, 24, 16, 8, 0].map fun shift => UInt8.ofNat (n >>> shift)

/-- A message with a one bit, zeros up to the end of a block less eight bytes, and
its length in bits. -/
def pad (message : ByteArray) : ByteArray :=
  let zeros := (119 - message.size % 64) % 64
  message ++ ⟨(0x80 :: List.replicate zeros 0 ++ lengthBytes (8 * message.size)).toArray⟩

/-- The state after all blocks of a message. -/
def digest (message : ByteArray) : State :=
  let padded := pad message
  (List.range (padded.size / 64)).foldl (fun s k => compress padded s (64 * k)) .initial

/-- The eight lower-case hexadecimal digits of a word. -/
def wordHex (w : UInt32) : List Char :=
  Text.hexDigits 8 w.toNat

/-- The digest of the UTF-8 bytes of a text, as sixty-four hexadecimal digits. -/
def hexDigest (text : String) : String :=
  let s := digest text.toUTF8
  String.ofList ([s.a, s.b, s.c, s.d, s.e, s.f, s.g, s.h].flatMap wordHex)

end SourceChunks.Sha256
