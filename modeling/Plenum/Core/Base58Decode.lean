/-
Base 58 read back.

- `decode`: the bytes of a text, `none` if it has a character that is not in the alphabet.
- `decode_encode`: what was encoded is read back, leading zero bytes included.
- `mem_alphabet_of_decode`: nothing else than texts of the alphabet is read.
-/
import Mathlib.Tactic
import Plenum.Core.Base58

namespace Plenum.Core.Base58

/-- the digit of a character -/
def charDigit (c : Char) : Option ℕ := if c ∈ alphabet then some (alphabet.idxOf c) else none

/-- the bytes of a number, the most significant one first; zero has none -/
def digitBytes (n : ℕ) : List UInt8 := (Nat.digits 256 n).reverse.map UInt8.ofNat

/-- a zero byte for every leading one, then the bytes of the number that the digits stand for -/
def decode (text : String) : Option (List UInt8) :=
  (text.toList.mapM charDigit).map fun digits =>
    List.replicate (text.toList.takeWhile (· = '1')).length 0 ++ digitBytes (Nat.ofDigits 58 digits.reverse)

theorem charDigit_digitChar : ∀ d < 58, charDigit (digitChar d) = some d := by decide +kernel

theorem digitChar_ne_one : ∀ d < 58, d ≠ 0 → digitChar d ≠ '1' := by decide +kernel

theorem mapM_charDigit {digits : List ℕ} (h : ∀ d ∈ digits, d < 58) :
    (digits.map digitChar).mapM charDigit = some digits := by
  induction digits with
  | nil => rfl
  | cons d digits ih =>
    rw [List.map_cons, List.mapM_cons, charDigit_digitChar d (h d List.mem_cons_self),
      ih fun d' hd' => h d' (List.mem_cons_of_mem d hd')]
    rfl

/-! ## Leading zeros -/

/-- the bytes after the leading zeros begin with another one -/
theorem exists_rest (bytes : List UInt8) : ∃ rest, bytes = List.replicate (leadingZeros bytes) 0 ++ rest ∧
    ∀ b bs, rest = b :: bs → b ≠ 0 := by
  induction bytes with
  | nil => exact ⟨[], rfl, fun _ _ h => by cases h⟩
  | cons b bytes ih =>
    by_cases hb : b = 0
    · obtain ⟨rest, hrest, hhead⟩ := ih
      refine ⟨rest, ?_, hhead⟩
      rw [leadingZeros, if_pos hb, List.replicate_succ, List.cons_append, ← hrest, hb]
    · refine ⟨b :: bytes, ?_, fun b' bs h => ?_⟩
      · rw [leadingZeros, if_neg hb]
        rfl
      · cases h
        exact hb

theorem value_replicate (z : ℕ) (rest : List UInt8) : value (List.replicate z 0 ++ rest) = value rest := by
  induction z with
  | zero => rfl
  | succ z ih =>
    rw [List.replicate_succ, List.cons_append, value_cons, ih]
    simp

/-- bytes that do not begin with a zero are those of their number -/
theorem digitBytes_value {rest : List UInt8} (h : ∀ b bs, rest = b :: bs → b ≠ 0) : digitBytes (value rest) = rest := by
  have hdigits : Nat.digits 256 (value rest) = rest.reverse.map UInt8.toNat := by
    refine Nat.digits_ofDigits 256 (by decide) _ (fun d hd => ?_) fun hne => ?_
    · obtain ⟨b, -, rfl⟩ := List.mem_map.1 hd
      exact b.toNat_lt
    · cases rest with
      | nil => exact absurd rfl hne
      | cons b bs =>
        have hlast : ((b :: bs).reverse.map UInt8.toNat).getLast hne = b.toNat := by simp
        rw [hlast]
        exact fun hzero => h b bs rfl (UInt8.toNat_inj.1 hzero)
  rw [digitBytes, hdigits, ← List.map_reverse, List.reverse_reverse, List.map_map]
  exact List.map_id'' (fun b => UInt8.ofNat_toNat) rest

/-- the digits of a number do not begin with a zero -/
theorem takeWhile_digitsText (n : ℕ) : (digitsText n).takeWhile (· = '1') = [] := by
  unfold digitsText
  cases hrev : (Nat.digits 58 n).reverse with
  | nil => rfl
  | cons d ds =>
    have hne : Nat.digits 58 n ≠ [] := fun hnil => by simp [hnil] at hrev
    have hlast : (Nat.digits 58 n).getLast hne = d := by
      rw [List.getLast_eq_head_reverse]
      simp [hrev]
    have hmem : d ∈ Nat.digits 58 n := by
      rw [← hlast]
      exact List.getLast_mem hne
    have hn : n ≠ 0 := fun hzero => hne (by rw [hzero, Nat.digits_zero])
    have hd : d ≠ 0 := hlast ▸ Nat.getLast_digit_ne_zero 58 hn
    have hone : digitChar d ≠ '1' := digitChar_ne_one d (Nat.digits_lt_base (by decide) hmem) hd
    rw [List.map_cons, List.takeWhile_cons_of_neg (by simpa using hone)]

/-! ## The round trip -/

/-- **What was encoded is read back.** -/
theorem decode_encode (bytes : List UInt8) : decode (encode bytes) = some bytes := by
  have hdigits : (List.replicate (leadingZeros bytes) '1' ++ digitsText (value bytes)).mapM charDigit =
      some (List.replicate (leadingZeros bytes) 0 ++ (Nat.digits 58 (value bytes)).reverse) := by
    have hones : List.replicate (leadingZeros bytes) '1' = (List.replicate (leadingZeros bytes) 0).map digitChar := by
      rw [List.map_replicate]
      rfl
    rw [hones, digitsText, ← List.map_append]
    refine mapM_charDigit fun d hd => ?_
    rcases List.mem_append.1 hd with hd | hd
    · rw [List.eq_of_mem_replicate hd]
      decide
    · exact Nat.digits_lt_base (by decide) (List.mem_reverse.1 hd)
  have hones : ((List.replicate (leadingZeros bytes) '1' ++ digitsText (value bytes)).takeWhile (· = '1')).length =
      leadingZeros bytes := by
    rw [List.takeWhile_append_of_pos fun c hc => by simp [List.eq_of_mem_replicate hc], takeWhile_digitsText,
      List.append_nil, List.length_replicate]
  obtain ⟨rest, hrest, hhead⟩ := exists_rest bytes
  have hvalue : value bytes = value rest := by
    conv_lhs => rw [hrest]
    exact value_replicate _ _
  unfold decode encode
  rw [String.toList_ofList, hdigits, Option.map_some, hones, List.reverse_append, List.reverse_reverse,
    List.reverse_replicate, Nat.ofDigits_append_replicate_zero, Nat.ofDigits_digits, hvalue, digitBytes_value hhead,
    ← hrest]

/-- only texts of the alphabet are read -/
theorem mem_alphabet_of_decode (text : String) (h : (decode text).isSome) : ∀ c ∈ text.toList, c ∈ alphabet := by
  unfold decode at h
  rw [Option.isSome_map] at h
  generalize text.toList = cs at h
  induction cs with
  | nil => exact fun c hc => absurd hc List.not_mem_nil
  | cons c cs ih =>
    rw [List.mapM_cons] at h
    by_cases hc : c ∈ alphabet
    · refine List.forall_mem_cons.2 ⟨hc, ih ?_⟩
      cases hrest : cs.mapM charDigit with
      | none => simp [charDigit, hc, hrest] at h
      | some digits => rfl
    · simp [charDigit, hc] at h

end Plenum.Core.Base58
