/-! Bytes, and integers written with their low byte first. -/

namespace Tangent

/-- A string of bytes. -/
abbrev Bytes := List UInt8

/-- An integer in a number of bytes, the low byte first. -/
def littleEndian : Nat → Nat → Bytes
  | 0, _ => []
  | width + 1, n => UInt8.ofNat (n % 256) :: littleEndian width (n / 256)

/-- The integer in some bytes, of which the first is the low one. -/
def ofLittleEndian : Bytes → Nat
  | [] => 0
  | byte :: rest => byte.toNat + 256 * ofLittleEndian rest

/-- As many bytes are written as were asked for. -/
@[simp]
theorem length_littleEndian (width n : Nat) : (littleEndian width n).length = width := by
  -- The number shrinks by one byte at every step, so it stays quantified over.
  induction width generalizing n with
  | zero => rfl
  | succ width ih => simp [littleEndian, ih]

/-- An integer that fits reads back as itself. -/
theorem ofLittleEndian_littleEndian (width n : Nat) (fits : n < Nat.pow 256 width) :
    ofLittleEndian (littleEndian width n) = n := by
  induction width generalizing n with
  | zero =>
    -- Only zero fits into no bytes.
    simp only [Nat.pow] at fits
    simp only [littleEndian, ofLittleEndian]
    omega
  | succ width ih =>
    -- What is left after the low byte fits the width that is left.
    have rest : n / 256 < Nat.pow 256 width :=
      Nat.div_lt_of_lt_mul (Nat.mul_comm _ _ ▸ fits)
    have low : (UInt8.ofNat (n % 256)).toNat = n % 256 := by simp
    simp only [littleEndian, ofLittleEndian, low, ih _ rest]
    omega

/-- Splits off a number of bytes, if there are as many. -/
def splitBytes? (count : Nat) (bytes : Bytes) : Option (Bytes × Bytes) :=
  if count ≤ bytes.length then some (bytes.take count, bytes.drop count) else none

/-- Whether a byte continues a character. -/
def isContinuation (byte : UInt8) : Bool := byte.toNat / 64 == 2

/-- The low six bits of a byte that continues a character. -/
def continuationBits (byte : UInt8) : Nat := byte.toNat % 64

/--
The character at the front of some bytes in UTF-8, with the bytes it takes.

Only the shortest form of a character counts, and no surrogates.
-/
def decodeChar? : Bytes → Option (Char × Nat)
  | [] => none
  | a :: rest =>
    let first := a.toNat
    if first < 0x80 then some (Char.ofNat first, 1)
    else if 0xc2 ≤ first && first < 0xe0 then
      match rest with
      | b :: _ =>
        if isContinuation b then
          some (Char.ofNat ((first - 0xc0) * 64 + continuationBits b), 2)
        else none
      | _ => none
    else if 0xe0 ≤ first && first < 0xf0 then
      match rest with
      | b :: c :: _ =>
        let code := (first - 0xe0) * 4096 + continuationBits b * 64 + continuationBits c
        if isContinuation b && isContinuation c && code ≥ 0x800 && !(0xd800 ≤ code && code < 0xe000)
        then some (Char.ofNat code, 3)
        else none
      | _ => none
    else if 0xf0 ≤ first && first < 0xf5 then
      match rest with
      | b :: c :: d :: _ =>
        let code := (first - 0xf0) * 262144 + continuationBits b * 4096 + continuationBits c * 64 +
          continuationBits d
        if isContinuation b && isContinuation c && isContinuation d && code ≥ 0x10000 &&
          code ≤ 0x10ffff
        then some (Char.ofNat code, 4)
        else none
      | _ => none
    else none

/-- The character that stands for a byte that belongs to none. -/
def replacementChar : Char := Char.ofNat 0xfffd

/-- The characters of some bytes in UTF-8, with a replacement for every byte that fits nowhere. -/
def decodeLossy : Nat → Bytes → List Char
  | 0, _ => []
  | _, [] => []
  | fuel + 1, byte :: rest =>
    match decodeChar? (byte :: rest) with
    | some (c, width) => c :: decodeLossy fuel ((byte :: rest).drop width)
    | none => replacementChar :: decodeLossy fuel rest

/-- The characters of some bytes in UTF-8. Every character takes at least one byte. -/
def charsOf (bytes : Bytes) : List Char := decodeLossy bytes.length bytes

/-- A text in UTF-8. -/
def bytesOf (text : String) : Bytes := text.toUTF8.data.toList

/-- Whether some bytes are UTF-8 throughout. -/
def isText : Nat → Bytes → Bool
  | _, [] => true
  | 0, _ => false
  | fuel + 1, byte :: rest =>
    match decodeChar? (byte :: rest) with
    | some (_, width) => isText fuel ((byte :: rest).drop width)
    | none => false

end Tangent
