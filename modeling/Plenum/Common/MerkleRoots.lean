/-
The Merkle roots in the messages of catch-up: whether an honest node's roots pass the field that checks them.

A root is a hash of 32 bytes, written in base 58. The field accepts texts of 43 to 45 characters, but the length of a text
depends on the value of the hash and on its leading zero bytes.

- `Hash`: 32 bytes.
- `length_hashToStr_le`: a root is never too long.
- `validate_hashToStr_iff`: it is accepted if and only if its value is at least a power of 58, which depends on its leading
  zero bytes; so always if it has none (`longEnough_of_head`).
- `root_accepted_iff`: so it is with the messages that an honest node makes of its ledger.
- `short_root`: a hash with one leading zero byte that is written with 42 characters.
-/
import Mathlib.Tactic
import Plenum.Common.Fields

namespace Plenum

namespace MerkleRoots

open Plenum.Core Plenum.Core.Base58 Fields

/-! ## Model -/

/-- a hash of the Merkle tree -/
structure Hash where
  bytes : List UInt8
  size : bytes.length = 32

variable {b58encode : List UInt8 → String} {alphabetText : String}

/-- the encoder is a library's -/
def hashToStr (b58encode : List UInt8 → String) (h : Hash) : String := b58encode h.bytes

def LedgerStatus (alphabetText : String) : Schema :=
  [("ledgerId", LedgerIdField), ("txnSeqNo", NonNegativeNumberField), ("merkleRoot", MerkleRootField alphabetText)]

def ConsistencyProof (alphabetText : String) : Schema :=
  [("ledgerId", LedgerIdField), ("seqNoStart", NonNegativeNumberField), ("seqNoEnd", NonNegativeNumberField),
    ("ppSeqNo", NonNegativeNumberField), ("oldMerkleRoot", MerkleRootField alphabetText),
    ("newMerkleRoot", MerkleRootField alphabetText), ("hashes", IterableField NonEmptyStringField)]

/-- the parameters of the status of a ledger with the given root -/
def statusArgs (b58encode : List UInt8 → String) (ledgerId : ℤ) (size : ℕ) (root : Hash) : List FieldValue :=
  [.int ledgerId, .int size, .str (hashToStr b58encode root)]

/-- the parameters of a proof between the two roots -/
def proofArgs (b58encode : List UInt8 → String) (ledgerId : ℤ) (seqNoStart seqNoEnd ppSeqNo : ℕ) (oldRoot newRoot : Hash)
    (hashes : List Hash) : List FieldValue :=
  [.int ledgerId, .int seqNoStart, .int seqNoEnd, .int ppSeqNo, .str (hashToStr b58encode oldRoot),
    .str (hashToStr b58encode newRoot), .list (hashes.map fun h => .str (hashToStr b58encode h))]

/-- the value of a hash is not too small for its leading zero bytes -/
def Hash.LongEnough (h : Hash) : Prop := 58 ^ (42 - leadingZeros h.bytes) ≤ value h.bytes

/-! ## Lengths -/

theorem pow_le_pow_of_le : ∀ n ≤ 32, 256 ^ n ≤ 58 ^ (n + 12) := by decide

theorem Hash.leadingZeros_le (h : Hash) : leadingZeros h.bytes ≤ 32 := h.size ▸ Base58.leadingZeros_le h.bytes

/-- the digits of a hash without its leading zeros -/
theorem length_digits_le (h : Hash) : (Nat.digits 58 (value h.bytes)).length ≤ 44 - leadingZeros h.bytes := by
  have hzeros := h.leadingZeros_le
  rw [Nat.digits_length_le_iff (by decide)]
  calc value h.bytes < 256 ^ (32 - leadingZeros h.bytes) := h.size ▸ value_lt_leadingZeros h.bytes
    _ ≤ 58 ^ (32 - leadingZeros h.bytes + 12) := pow_le_pow_of_le _ (Nat.sub_le _ _)
    _ = 58 ^ (44 - leadingZeros h.bytes) := by
      congr 1
      omega

/-- **No root is too long.** -/
theorem length_hashToStr_le (hstd : Standard b58encode) (h : Hash) : (hashToStr b58encode h).length ≤ 44 := by
  have hzeros := h.leadingZeros_le
  have hdigits := length_digits_le h
  rw [hashToStr, hstd.eq_encode, length_encode]
  omega

theorem le_length_hashToStr_iff (hstd : Standard b58encode) (h : Hash) :
    43 ≤ (hashToStr b58encode h).length ↔ h.LongEnough := by
  have hzeros := h.leadingZeros_le
  rw [Hash.LongEnough, ← Nat.lt_digits_length_iff (by decide), hashToStr, hstd.eq_encode, length_encode]
  omega

/-! ## Validation -/

theorem merkleRootField_validate_iff {val : String} (halphabet : ∀ c ∈ val.toList, c ∈ alphabet) :
    (MerkleRootField alphabetText).validate (.str val) = none ↔ 43 ≤ val.length ∧ val.length < 46 := by
  have hno : ¬ ∃ c ∈ val.toList, c ∉ alphabet := by
    rintro ⟨c, hc, hnot⟩
    exact hnot (halphabet c hc)
  rw [MerkleRootField, Base58Field, strField_validate_str]
  simp only [lengthLimits, List.any_eq_true, decide_eq_true_eq, hno]
  by_cases hlength : 43 ≤ val.length ∧ val.length < 46
  · simp [hlength]
  · simp [hlength]

/-- **When a root is accepted.** -/
theorem validate_hashToStr_iff (hstd : Standard b58encode) (h : Hash) :
    (MerkleRootField alphabetText).validate (.str (hashToStr b58encode h)) = none ↔ h.LongEnough := by
  have halphabet : ∀ c ∈ (hashToStr b58encode h).toList, c ∈ alphabet := by
    intro c hc
    rw [hashToStr, hstd.eq_encode] at hc
    exact mem_alphabet hc
  have hle := length_hashToStr_le hstd h
  rw [merkleRootField_validate_iff halphabet, ← le_length_hashToStr_iff hstd]
  omega

theorem longEnough_of_head {b : UInt8} {bytes : List UInt8} (hb : b ≠ 0) (hsize : (b :: bytes).length = 32) :
    Hash.LongEnough ⟨b :: bytes, hsize⟩ := by
  have hlength : bytes.length = 31 := by simpa using hsize
  unfold Hash.LongEnough
  calc 58 ^ (42 - leadingZeros (b :: bytes)) ≤ 58 ^ 42 := Nat.pow_le_pow_right (by decide) (Nat.sub_le _ _)
    _ ≤ 256 ^ 31 := by decide
    _ ≤ value (b :: bytes) := hlength ▸ le_value hb bytes

/-! ## Messages -/

theorem hashToStr_ne_empty (hstd : Standard b58encode) (h : Hash) : hashToStr b58encode h ≠ "" := by
  intro hempty
  obtain ⟨bytes, hsize⟩ := h
  rw [hashToStr, hstd.eq_encode] at hempty
  have hlength := length_encode bytes
  rw [hempty, String.length_empty] at hlength
  cases bytes with
  | nil => exact absurd hsize (by decide)
  | cons b bytes =>
    by_cases hb : b = 0
    · rw [leadingZeros, if_pos hb] at hlength
      omega
    · have hlong : 42 - leadingZeros (b :: bytes) < (Nat.digits 58 (value (b :: bytes))).length :=
        (Nat.lt_digits_length_iff (by decide) _).2 (longEnough_of_head hb hsize)
      omega

theorem ledgerIdField_validate {ledgerId : ℤ} (h : ledgerId ∈ [POOL_LEDGER_ID, DOMAIN_LEDGER_ID]) :
    LedgerIdField.validate (.int ledgerId) = none := if_pos h

theorem nonNegativeNumberField_validate (n : ℕ) : NonNegativeNumberField.validate (.int n) = none := by
  have hnot : ¬ (n : ℤ) < 0 := (Int.natCast_nonneg n).not_gt
  have hspecific : NonNegativeNumberField.specificValidation (.int n) = none := by
    simp only [NonNegativeNumberField, if_neg hnot]
  exact hspecific

theorem hashes_validate (hstd : Standard b58encode) (hashes : List Hash) :
    (IterableField NonEmptyStringField).validate (.list (hashes.map fun h => .str (hashToStr b58encode h))) = none := by
  have heach : ∀ h : Hash, NonEmptyStringField.validate (.str (hashToStr b58encode h)) = none := fun h => by
    rw [NonEmptyStringField, strField_validate_str, if_neg (hashToStr_ne_empty hstd h)]
  have hall : (hashes.map fun h => FieldValue.str (hashToStr b58encode h)).findSome? NonEmptyStringField.validate = none := by
    simp [List.findSome?_eq_none_iff, heach]
  exact hall

section Messages

variable (b58encode alphabetText)

/-- **Which roots an honest node can send.** The root of a hash passes the field, a ledger with that root can tell its
status, and there is a proof between two such roots, if and only if the values of the hashes are not too small for their
leading zero bytes. -/
theorem root_accepted_iff (hstd : Standard b58encode) :
    (∀ h : Hash, (MerkleRootField alphabetText).validate (.str (hashToStr b58encode h)) = none ↔ h.LongEnough) ∧
    (∀ ledgerId ∈ [POOL_LEDGER_ID, DOMAIN_LEDGER_ID], ∀ (size : ℕ) (root : Hash),
      MessageBase.Accepts (LedgerStatus alphabetText) (statusArgs b58encode ledgerId size root) ↔ root.LongEnough) ∧
    (∀ ledgerId ∈ [POOL_LEDGER_ID, DOMAIN_LEDGER_ID], ∀ (seqNoStart seqNoEnd ppSeqNo : ℕ) (oldRoot newRoot : Hash)
      (hashes : List Hash), MessageBase.Accepts (ConsistencyProof alphabetText)
        (proofArgs b58encode ledgerId seqNoStart seqNoEnd ppSeqNo oldRoot newRoot hashes) ↔
        oldRoot.LongEnough ∧ newRoot.LongEnough) := by
  refine ⟨fun h => validate_hashToStr_iff hstd h, ?_, ?_⟩
  · intro ledgerId hledger size root
    rw [MessageBase.accepts_iff rfl]
    simp [LedgerStatus, statusArgs, ledgerIdField_validate hledger, nonNegativeNumberField_validate,
      validate_hashToStr_iff hstd]
  · intro ledgerId hledger seqNoStart seqNoEnd ppSeqNo oldRoot newRoot hashes
    rw [MessageBase.accepts_iff rfl]
    simp [ConsistencyProof, proofArgs, ledgerIdField_validate hledger, nonNegativeNumberField_validate,
      validate_hashToStr_iff hstd, hashes_validate hstd]

end Messages

/-! ## Witness and counterexample -/

/-- a zero byte, a one and zeros: 2 to the power of 240 -/
def shortHash : Hash := ⟨0 :: 1 :: List.replicate 30 0, rfl⟩

/-- **A root that is too short.** -/
theorem short_root : (MerkleRootField "").validate (.str (hashToStr encode shortHash)) ≠ none ∧
    (hashToStr encode shortHash).length = 42 := by
  have hshort : ¬ shortHash.LongEnough := by
    unfold Hash.LongEnough
    decide +kernel
  refine ⟨fun h => hshort ((validate_hashToStr_iff standard_encode shortHash).1 h), ?_⟩
  have hdigits : 40 < (Nat.digits 58 (value shortHash.bytes)).length := by
    rw [Nat.lt_digits_length_iff (by decide)]
    decide +kernel
  have hzeros : leadingZeros shortHash.bytes = 1 := rfl
  have hlt := mt (le_length_hashToStr_iff standard_encode shortHash).1 hshort
  rw [hashToStr, length_encode] at hlt ⊢
  omega

/-- ones for the bytes -/
def longHash : Hash := ⟨List.replicate 32 1, rfl⟩

theorem root_accepted_iff_longHash :
    (MerkleRootField "").validate (.str (hashToStr encode longHash)) = none ∧
    MessageBase.Accepts (LedgerStatus "") (statusArgs encode DOMAIN_LEDGER_ID 4 longHash) ∧
    MessageBase.Accepts (ConsistencyProof "") (proofArgs encode DOMAIN_LEDGER_ID 4 5 0 longHash longHash [shortHash]) := by
  obtain ⟨hroot, hstatus, hproof⟩ := root_accepted_iff encode "" standard_encode
  have hlong : longHash.LongEnough := by
    unfold Hash.LongEnough
    decide +kernel
  exact ⟨(hroot longHash).2 hlong, (hstatus _ (by decide) 4 longHash).2 hlong,
    (hproof _ (by decide) 4 5 0 longHash longHash [shortHash]).2 ⟨hlong, hlong⟩⟩

end MerkleRoots

end Plenum
