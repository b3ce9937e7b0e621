import Mathlib
import Tangent.File.Bytes

/-! A text that is written in UTF-8 is read back character by character. -/

namespace Tangent

/-- The bytes of a text are those of its characters. -/
theorem bytesOf_eq (text : String) : bytesOf text = text.toList.flatMap String.utf8EncodeChar := by
  -- The library encodes a text character by character.
  rw [bytesOf, String.toUTF8, ← String.utf8Encode_toList, List.utf8Encode,
    List.toList_data_toByteArray]

/-- A text has no more characters than bytes. -/
theorem length_le_bytesOf (text : String) : text.toList.length ≤ (bytesOf text).length := by
  -- Every character takes a byte or more.
  rw [bytesOf_eq]
  induction text.toList with
  | nil => exact Nat.le_refl 0
  | cons c cs ih =>
    have some := List.length_pos_of_ne_nil (String.utf8EncodeChar_ne_nil (c := c))
    rw [List.flatMap_cons, List.length_append, List.length_cons]
    omega

/-- A byte counts as the number it was made from. -/
theorem toNat_ofNat_byte {n : Nat} (small : n < 256) : (UInt8.ofNat n).toNat = n := by
  -- Nothing is cut from a number below 256.
  simp [Nat.mod_eq_of_lt small]

/-- A byte that continues a character is known by its upper bits. -/
theorem isContinuation_ofNat {n : Nat} (bits : n < 64) :
    isContinuation (UInt8.ofNat (n + 128)) := by
  -- The upper bits are those of 128, which the lower ones do not reach.
  rw [isContinuation, toNat_ofNat_byte (by omega), beq_iff_eq]
  omega

/-- A byte that continues a character has its lower bits to say. -/
theorem continuationBits_ofNat {n : Nat} (bits : n < 64) :
    continuationBits (UInt8.ofNat (n + 128)) = n := by
  -- The upper bits are those of 128, which are dropped.
  rw [continuationBits, toNat_ofNat_byte (by omega)]
  omega

/-- A character is found again at the front of its bytes. -/
theorem decodeChar?_utf8EncodeChar (c : Char) (rest : Bytes) :
    decodeChar? (String.utf8EncodeChar c ++ rest) =
      some (c, (String.utf8EncodeChar c).length) := by
  have whole : Char.ofNat c.val.toNat = c := Char.ofNat_toNat c
  have valid : c.val.toNat < 0xd800 ∨ 0xdfff < c.val.toNat ∧ c.val.toNat < 0x110000 := c.valid
  rw [String.utf8EncodeChar]
  generalize c.val.toNat = v at whole valid
  -- The number of bytes goes with the size of the code.
  split
  · rename_i small
    simp only [List.cons_append, List.nil_append, decodeChar?]
    rw [toNat_ofNat_byte (by omega), if_pos (by omega), whole]
    rfl
  · split
    · rename_i small
      simp only [List.cons_append, List.nil_append, decodeChar?]
      rw [toNat_ofNat_byte (by omega), isContinuation_ofNat (by omega),
        continuationBits_ofNat (by omega), if_neg (by omega), if_pos (by simp; omega), if_pos rfl]
      have code : (v / 64 % 32 + 192 - 192) * 64 + v % 64 = v := by omega
      rw [code, whole]
      rfl
    · split
      · rename_i small
        simp only [List.cons_append, List.nil_append, decodeChar?]
        rw [toNat_ofNat_byte (by omega), isContinuation_ofNat (by omega),
          isContinuation_ofNat (by omega), continuationBits_ofNat (by omega),
          continuationBits_ofNat (by omega), if_neg (by omega), if_neg (by simp),
          if_pos (by simp; omega)]
        have code : (v / 4096 % 16 + 224 - 224) * 4096 + v / 64 % 64 * 64 + v % 64 = v := by omega
        rw [code, if_pos (by simp; omega), whole]
        rfl
      · simp only [List.cons_append, List.nil_append, decodeChar?]
        rw [toNat_ofNat_byte (by omega), isContinuation_ofNat (by omega),
          isContinuation_ofNat (by omega), isContinuation_ofNat (by omega),
          continuationBits_ofNat (by omega), continuationBits_ofNat (by omega),
          continuationBits_ofNat (by omega), if_neg (by omega), if_neg (by simp),
          if_neg (by simp), if_pos (by simp; omega)]
        have code : (v / 262144 % 8 + 240 - 240) * 262144 + v / 4096 % 64 * 4096 +
            v / 64 % 64 * 64 + v % 64 = v := by omega
        rw [code, if_pos (by simp; omega), whole]
        rfl

/-- Characters are read back from their bytes, with a step to spare for each. -/
theorem decodeLossy_utf8Encode (cs : List Char) :
    ∀ fuel, (cs.flatMap String.utf8EncodeChar).length ≤ fuel →
      decodeLossy fuel (cs.flatMap String.utf8EncodeChar) = cs := by
  induction cs with
  | nil => intro fuel _; cases fuel <;> rfl
  | cons c cs ih =>
    intro fuel enough
    rw [List.flatMap_cons] at enough ⊢
    have found := decodeChar?_utf8EncodeChar c (cs.flatMap String.utf8EncodeChar)
    -- A character has at least one byte, which pays for the step.
    cases bytes : String.utf8EncodeChar c with
    | nil => exact absurd bytes String.utf8EncodeChar_ne_nil
    | cons first others =>
      rw [bytes] at enough found
      rw [List.length_append, List.length_cons] at enough
      cases fuel with
      | zero => omega
      | succ fuel =>
        rw [List.cons_append] at found ⊢
        rw [decodeLossy, found]
        dsimp only
        rw [← List.cons_append, List.drop_left, ih fuel (by omega)]

/-- A text is read back from its bytes. -/
theorem charsOf_bytesOf (text : String) : charsOf (bytesOf text) = text.toList := by
  -- Decoding is given a step for each byte, and it takes one for each character.
  rw [charsOf, bytesOf_eq]
  exact decodeLossy_utf8Encode text.toList _ (Nat.le_refl _)

end Tangent
