/-
Base 58: bytes as a text without characters that are easily confused.

- `encode`: a leading one for every leading zero byte, then the digits of the bytes read as a number.
- `Standard`: what is relied on of an encoder. There is only one (`Standard.eq_encode`).
- `length_encode`: how long the text is, which depends on the value.
- `mem_alphabet`: the text has characters of the alphabet only.
-/
import Mathlib.Tactic

namespace Plenum.Core.Base58

/-- the digits, in order -/
def alphabet : List Char := "123456789ABCDEFGHJKLMNPQRSTUVWXYZabcdefghijkmnopqrstuvwxyz".toList

def digitChar (d : ℕ) : Char := alphabet.getD d '1'

/-- the number the bytes stand for, the most significant one first -/
def value (bytes : List UInt8) : ℕ := Nat.ofDigits 256 (bytes.reverse.map UInt8.toNat)

def leadingZeros : List UInt8 → ℕ
  | [] => 0
  | b :: bytes => if b = 0 then leadingZeros bytes + 1 else 0

/-- the digits of a number, the most significant one first; zero has none -/
def digitsText (n : ℕ) : List Char := (Nat.digits 58 n).reverse.map digitChar

def encode (bytes : List UInt8) : String :=
  String.ofList (List.replicate (leadingZeros bytes) '1' ++ digitsText (value bytes))

/-- leading zero bytes become leading ones, and the other bytes the digits of a number -/
structure Standard (b58encode : List UInt8 → String) : Prop where
  empty : b58encode [] = ""
  zero : ∀ bytes, b58encode (0 :: bytes) = "1" ++ b58encode bytes
  digits : ∀ b bytes, b ≠ 0 → b58encode (b :: bytes) = String.ofList (digitsText (value (b :: bytes)))

/-! ## Values -/

theorem value_cons (b : UInt8) (bytes : List UInt8) : value (b :: bytes) = value bytes + 256 ^ bytes.length * b.toNat := by
  unfold value
  rw [List.reverse_cons, List.map_append, Nat.ofDigits_append, List.length_map, List.length_reverse]
  simp

theorem value_lt (bytes : List UInt8) : value bytes < 256 ^ bytes.length := by
  unfold value
  have hdigits : ∀ d ∈ bytes.reverse.map UInt8.toNat, d < 256 := by
    intro d hd
    obtain ⟨b, -, rfl⟩ := List.mem_map.1 hd
    exact b.toNat_lt
  have hlt := Nat.ofDigits_lt_base_pow_length (by decide) hdigits
  rwa [List.length_map, List.length_reverse] at hlt

theorem leadingZeros_le (bytes : List UInt8) : leadingZeros bytes ≤ bytes.length := by
  induction bytes with
  | nil => exact le_rfl
  | cons b bytes ih =>
    rw [leadingZeros, List.length_cons]
    split_ifs <;> omega

/-- leading zeros do not count -/
theorem value_lt_leadingZeros (bytes : List UInt8) : value bytes < 256 ^ (bytes.length - leadingZeros bytes) := by
  induction bytes with
  | nil => decide
  | cons b bytes ih =>
    by_cases hb : b = 0
    · subst hb
      have hvalue : value (0 :: bytes) = value bytes := by rw [value_cons]; simp
      rw [hvalue, leadingZeros, if_pos rfl, List.length_cons, Nat.add_sub_add_right]
      exact ih
    · rw [leadingZeros, if_neg hb, Nat.sub_zero]
      exact value_lt (b :: bytes)

/-- the first byte counts -/
theorem le_value {b : UInt8} (hb : b ≠ 0) (bytes : List UInt8) : 256 ^ bytes.length ≤ value (b :: bytes) := by
  have hpos : 1 ≤ b.toNat := by
    rw [Nat.one_le_iff_ne_zero]
    intro hzero
    exact hb (UInt8.toNat_inj.1 hzero)
  rw [value_cons]
  calc 256 ^ bytes.length = 256 ^ bytes.length * 1 := (mul_one _).symm
    _ ≤ 256 ^ bytes.length * b.toNat := Nat.mul_le_mul_left _ hpos
    _ ≤ value bytes + 256 ^ bytes.length * b.toNat := Nat.le_add_left _ _

/-! ## Texts -/

theorem standard_encode : Standard encode where
  empty := by decide +kernel
  zero bytes := by
    have hvalue : value (0 :: bytes) = value bytes := by rw [value_cons]; simp
    rw [encode, encode, leadingZeros, if_pos rfl, hvalue, List.replicate_succ, List.cons_append]
    exact String.ofList_cons
  digits b bytes hb := by
    rw [encode, leadingZeros, if_neg hb]
    rfl

theorem Standard.eq_encode {b58encode : List UInt8 → String} (h : Standard b58encode) (bytes : List UInt8) :
    b58encode bytes = encode bytes := by
  induction bytes with
  | nil => rw [h.empty, standard_encode.empty]
  | cons b bytes ih =>
    by_cases hb : b = 0
    · subst hb
      rw [h.zero, standard_encode.zero, ih]
    · rw [h.digits b bytes hb, standard_encode.digits b bytes hb]

/-- **The length of a text.** -/
theorem length_encode (bytes : List UInt8) :
    (encode bytes).length = leadingZeros bytes + (Nat.digits 58 (value bytes)).length := by
  unfold encode digitsText
  rw [← String.length_toList, String.toList_ofList, List.length_append, List.length_replicate, List.length_map,
    List.length_reverse]

theorem digitChar_mem : ∀ d < 58, digitChar d ∈ alphabet := by decide +kernel

/-- every character is in the alphabet -/
theorem mem_alphabet {bytes : List UInt8} {c : Char} (hc : c ∈ (encode bytes).toList) : c ∈ alphabet := by
  unfold encode digitsText at hc
  rw [String.toList_ofList, List.mem_append] at hc
  rcases hc with hc | hc
  · rw [List.eq_of_mem_replicate hc]
    decide
  · obtain ⟨d, hd, rfl⟩ := List.mem_map.1 hc
    exact digitChar_mem d (Nat.digits_lt_base (by decide) (List.mem_reverse.1 hd))

end Plenum.Core.Base58
