import Tangent.File.Bytes

/-! The SHA-256 digest that closes a saved program. -/

namespace Tangent.Sha256

/-- The round constants: fractional parts of the cube roots of the first sixty-four primes. -/
def roundConstants : Vector UInt32 64 :=
  #v[
    0x428a2f98, 0x71374491, 0xb5c0fbcf, 0xe9b5dba5, 0x3956c25b, 0x59f111f1, 0x923f82a4, 0xab1c5ed5,
    0xd807aa98, 0x12835b01, 0x243185be, 0x550c7dc3, 0x72be5d74, 0x80deb1fe, 0x9bdc06a7, 0xc19bf174,
    0xe49b69c1, 0xefbe4786, 0x0fc19dc6, 0x240ca1cc, 0x2de92c6f, 0x4a7484aa, 0x5cb0a9dc, 0x76f988da,
    0x983e5152, 0xa831c66d, 0xb00327c8, 0xbf597fc7, 0xc6e00bf3, 0xd5a79147, 0x06ca6351, 0x14292967,
    0x27b70a85, 0x2e1b2138, 0x4d2c6dfc, 0x53380d13, 0x650a7354, 0x766a0abb, 0x81c2c92e, 0x92722c85,
    0xa2bfe8a1, 0xa81a664b, 0xc24b8b70, 0xc76c51a3, 0xd192e819, 0xd6990624, 0xf40e3585, 0x106aa070,
    0x19a4c116, 0x1e376c08, 0x2748774c, 0x34b0bcb5, 0x391c0cb3, 0x4ed8aa4a, 0x5b9cca4f, 0x682e6ff3,
    0x748f82ee, 0x78a5636f, 0x84c87814, 0x8cc70208, 0x90befffa, 0xa4506ceb, 0xbef9a3f7, 0xc67178f2]

/-- The chaining state: eight words. -/
structure State where
  a : UInt32
  b : UInt32
  c : UInt32
  d : UInt32
  e : UInt32
  f : UInt32
  g : UInt32
  h : UInt32

/-- The state before the first block: fractional parts of the square roots of eight primes. -/
def initial : State :=
  ⟨0x6a09e667, 0xbb67ae85, 0x3c6ef372, 0xa54ff53a,
    0x510e527f, 0x9b05688c, 0x1f83d9ab, 0x5be0cd19⟩

/-- A word turned to the right. -/
def rotate (x n : UInt32) : UInt32 := (x >>> n) ||| (x <<< (32 - n))

/-- Mixes a word of the schedule that lies fifteen places back. -/
def smallSigma0 (x : UInt32) : UInt32 := rotate x 7 ^^^ rotate x 18 ^^^ (x >>> 3)

/-- Mixes a word of the schedule that lies two places back. -/
def smallSigma1 (x : UInt32) : UInt32 := rotate x 17 ^^^ rotate x 19 ^^^ (x >>> 10)

/-- Mixes the first word of the state. -/
def bigSigma0 (x : UInt32) : UInt32 := rotate x 2 ^^^ rotate x 13 ^^^ rotate x 22

/-- Mixes the fifth word of the state. -/
def bigSigma1 (x : UInt32) : UInt32 := rotate x 6 ^^^ rotate x 11 ^^^ rotate x 25

/-- Chooses, bit by bit, between two words. -/
def choose (x y z : UInt32) : UInt32 := (x &&& y) ^^^ (~~~x &&& z)

/-- The bit that at least two of three words have. -/
def majority (x y z : UInt32) : UInt32 := (x &&& y) ^^^ (x &&& z) ^^^ (y &&& z)

/-- The big-endian word at the front of some bytes. -/
def word (bytes : Bytes) : UInt32 :=
  (bytes.take 4).foldl (fun w byte => (w <<< 8) ||| byte.toUInt32) 0

/-- The sixteen words of a block, the first one first. -/
def blockWords (block : Bytes) : Nat → List UInt32
  | 0 => []
  | count + 1 => word block :: blockWords (block.drop 4) count

/--
The words of the schedule, the last one first.

Each new word mixes those two, seven, fifteen and sixteen places back.
-/
def extend (words : List UInt32) : Nat → List UInt32
  | 0 => words
  | count + 1 =>
    let back (places : Nat) : UInt32 := words.getD (places - 1) 0
    extend ((back 16 + smallSigma0 (back 15) + back 7 + smallSigma1 (back 2)) :: words) count

/-- The sixty-four words of the schedule of a block. -/
def schedule (block : Bytes) : List UInt32 :=
  (extend (blockWords block 16).reverse 48).reverse

/-- One round with its constant and its word of the schedule. -/
def round (s : State) (input : UInt32 × UInt32) : State :=
  let t1 := s.h + bigSigma1 s.e + choose s.e s.f s.g + input.1 + input.2
  let t2 := bigSigma0 s.a + majority s.a s.b s.c
  ⟨t1 + t2, s.a, s.b, s.c, s.d + t1, s.e, s.f, s.g⟩

/-- Mixes a block into the chaining state. -/
def compress (s : State) (block : Bytes) : State :=
  let t := (roundConstants.toList.zip (schedule block)).foldl round s
  ⟨s.a + t.a, s.b + t.b, s.c + t.c, s.d + t.d, s.e + t.e, s.f + t.f, s.g + t.g, s.h + t.h⟩

/-- A message with its end mark, zeros up to a block less eight bytes, and its length in bits. -/
def pad (message : Bytes) : Bytes :=
  let fill := (119 - message.length % 64) % 64
  message ++ 0x80 :: List.replicate fill 0 ++ (littleEndian 8 (message.length * 8)).reverse

/-- Mixes blocks of sixty-four bytes into the chaining state. -/
def absorb (s : State) (bytes : Bytes) : Nat → State
  | 0 => s
  | blocks + 1 => absorb (compress s (bytes.take 64)) (bytes.drop 64) blocks

/-- The words of the state in order, as bytes. -/
def digest (s : State) : Bytes :=
  [s.a, s.b, s.c, s.d, s.e, s.f, s.g, s.h].flatMap (fun w => (littleEndian 4 w.toNat).reverse)

/-- The digest of a message. -/
def hash (message : Bytes) : Bytes :=
  let padded := pad message
  digest (absorb initial padded (padded.length / 64))

end Tangent.Sha256
