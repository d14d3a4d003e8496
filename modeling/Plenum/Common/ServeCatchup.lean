/-
How a node serves the requests of a node that catches up: for transactions, and for a consistency proof.

- Neither kind of request has a schema, so that their numbers are arbitrary integers. The Merkle tree and the
  transaction log of a ledger are parameters (`LedgerTree`): what they return is not looked at, only for which ranges
  they are defined. Serving changes nothing but the messages sent, so that it is a function of the state here.
- `buildConsistencyProof_eq`: for natural numbers within the ledger this is the proof that is built in answer to a
  ledger status.
- `serving_returns_iff`: for which requests serving them does not raise.
-/
import Mathlib.Tactic
import Plenum.Common.LedgerManager
import Plenum.Scenarios.CatchingUp

namespace Plenum

open Plenum.Core Plenum.Core.Exec

/-! ## Requests and replies -/

/-- a `CatchupReq` as it arrives -/
structure ReceivedCatchupReq where
  ledgerId : LedgerId
  seqNoStart : ℤ
  seqNoEnd : ℤ
  catchupTill : ℤ
deriving DecidableEq, Repr

/-- a `ConsProofRequest` as it arrives -/
structure ReceivedConsProofRequest where
  ledgerId : LedgerId
  seqNoStart : ℤ
  seqNoEnd : ℤ
deriving DecidableEq, Repr

/-- a `CatchupRep` as it is sent -/
structure ServedCatchupRep (τ : Type) where
  ledgerId : LedgerId
  txns : Dict ℤ τ
  consProof : List String

/-- a Merkle tree over transactions and the log they are read from; `none` where a method raises -/
structure LedgerTree (τ : Type) where
  rootHash : List τ → String
  merkleTreeHash : List τ → ℤ → ℤ → Option String
  consistencyProof : List τ → ℤ → ℤ → Option (List String)
  getAllTxn : List τ → ℤ → ℤ → Option (Dict ℤ τ)
  merkleTreeHash_isSome : ∀ txns n, 0 < n → n ≤ txns.length → (merkleTreeHash txns 0 n).isSome
  consistencyProof_isSome : ∀ txns a b, (consistencyProof txns a b).isSome ↔ 0 < a ∧ a ≤ b ∧ b ≤ txns.length
  getAllTxn_isSome : ∀ txns a b, (getAllTxn txns a b).isSome ↔ 1 ≤ a ∧ a ≤ b

namespace LedgerManager

/-! ## Serving -/

section Serve

variable {O τ : Type} (own : LedgerOwner O τ) (tree : LedgerTree τ) (updateTxnWithExtraData : τ → τ)
  (s : LedgerManager O τ)

/-- the reply, or `none` if the request is dropped -/
def processCatchupReq (req : ReceivedCatchupReq) : Except Exn (Option (ServedCatchupRep τ)) :=
  let txns := (s.ledger own req.ledgerId).txns
  if req.seqNoEnd < req.seqNoStart then .ok none
  else if (txns.length : ℤ) < req.seqNoStart then .ok none
  else
    let seqNoEnd := min req.seqNoEnd txns.length
    match tree.consistencyProof txns seqNoEnd req.catchupTill with
    | none => .error .valueError
    | some consProof =>
      match tree.getAllTxn txns req.seqNoStart seqNoEnd with
      | none => .error .valueError
      | some served => .ok (some ⟨req.ledgerId, served.mapValues updateTxnWithExtraData, consProof⟩)

/-- the root of the first `seqNoStart` transactions, and the proof that they are the first of `seqNoEnd` -/
def oldRootAndProof (txns : List τ) (seqNoStart seqNoEnd : ℤ) : Option (String × List String) :=
  if seqNoStart = 0 then some (tree.rootHash txns, [tree.rootHash txns])
  else
    match tree.consistencyProof txns seqNoStart seqNoEnd with
    | none => none
    | some proof => (tree.merkleTreeHash txns 0 seqNoStart).map fun oldRoot => (oldRoot, proof)

/-- `_buildConsistencyProof`, for any numbers -/
def buildReceivedConsistencyProof (lid : LedgerId) (seqNoStart seqNoEnd : ℤ) : Except Exn (Option ConsistencyProof) :=
  let txns := (s.ledger own lid).txns
  if (txns.length : ℤ) < seqNoStart then .ok none
  else if (txns.length : ℤ) < seqNoEnd then .ok none
  -- the error branch calls a logger that the manager does not have
  else if seqNoEnd < seqNoStart then .error .attributeError
  else
    match oldRootAndProof tree txns seqNoStart seqNoEnd, tree.merkleTreeHash txns 0 seqNoEnd with
    | some (oldRoot, proof), some newRoot =>
      .ok (some ⟨lid, seqNoStart.toNat, seqNoEnd.toNat, own.ppSeqNoForTxnSeqNo s.owner lid seqNoEnd.toNat, oldRoot,
        newRoot, proof⟩)
    | _, _ => .error .valueError

/-- the proof that is sent, or `none` if the request is dropped -/
def processConsistencyProofReq (req : ReceivedConsProofRequest) : Except Exn (Option ConsistencyProof) :=
  buildReceivedConsistencyProof own tree s req.ledgerId req.seqNoStart req.seqNoEnd

end Serve

variable {O τ : Type} {env : LedgerEnv τ} {own : LedgerOwner O τ} {tree : LedgerTree τ} {updateTxnWithExtraData : τ → τ}
  {s : LedgerManager O τ}

/-! ## Proofs for ledger statuses -/

/-- the tree is the one whose roots and proofs `env` has -/
structure Agrees (tree : LedgerTree τ) (env : LedgerEnv τ) : Prop where
  rootHash : ∀ txns, tree.rootHash txns = env.merkleRoot txns
  merkleTreeHash : ∀ (txns : List τ) (n : ℕ), n ≤ txns.length → tree.merkleTreeHash txns 0 n = some (env.merkleRoot (txns.take n))
  consistencyProof : ∀ (txns : List τ) (a b : ℕ), 0 < a → a ≤ b → b ≤ txns.length →
    tree.consistencyProof txns a b = some (env.consistencyProof txns a b)

/-- **One proof for both.** With natural numbers the proof is built as for a ledger status. -/
theorem buildConsistencyProof_eq (hagrees : Agrees tree env) (lid : LedgerId) (seqNoStart seqNoEnd : ℕ) :
    (exec (buildConsistencyProof env own lid seqNoStart seqNoEnd) s).1 =
      buildReceivedConsistencyProof own tree s lid seqNoStart seqNoEnd := by
  unfold buildConsistencyProof buildReceivedConsistencyProof
  rw [exec_bind, exec_get]
  dsimp only
  have hcast : ∀ n : ℕ, ((s.ledger own lid).txns.length : ℤ) < n ↔ (s.ledger own lid).txns.length < n := by
    intro n
    exact_mod_cast Iff.rfl
  have horder : ((seqNoEnd : ℤ) < seqNoStart) ↔ seqNoEnd < seqNoStart := by exact_mod_cast Iff.rfl
  simp only [hcast, horder]
  split_ifs with hstart hend hle hzero
  · rfl
  · rfl
  · rfl
  · have hnew := hagrees.merkleTreeHash (s.ledger own lid).txns seqNoEnd (not_lt.1 hend)
    unfold oldRootAndProof
    rw [hnew, hzero, Nat.cast_zero, if_pos rfl, hagrees.rootHash]
    rfl
  · have hnew := hagrees.merkleTreeHash (s.ledger own lid).txns seqNoEnd (not_lt.1 hend)
    have hold := hagrees.merkleTreeHash (s.ledger own lid).txns seqNoStart (not_lt.1 hstart)
    have hproof := hagrees.consistencyProof (s.ledger own lid).txns seqNoStart seqNoEnd (Nat.pos_of_ne_zero hzero)
      (not_lt.1 hle) (not_lt.1 hend)
    unfold oldRootAndProof
    rw [hnew, if_neg (by exact_mod_cast hzero), hproof, hold]
    rfl

/-! ## When serving returns -/

/-- a range that the ledger does not have, or one that starts with a transaction, up to an end not after `catchupTill`,
which the ledger has -/
def CatchupReqServed (ledgerSize : ℕ) (req : ReceivedCatchupReq) : Prop :=
  req.seqNoEnd < req.seqNoStart ∨ ledgerSize < req.seqNoStart ∨
    (1 ≤ req.seqNoStart ∧ min req.seqNoEnd ledgerSize ≤ req.catchupTill ∧ req.catchupTill ≤ ledgerSize)

/-- numbers that the ledger does not have, or an ascending range -/
def ConsProofReqServed (tree : LedgerTree τ) (txns : List τ) (req : ReceivedConsProofRequest) : Prop :=
  txns.length < req.seqNoStart ∨ txns.length < req.seqNoEnd ∨
    (0 ≤ req.seqNoStart ∧ req.seqNoStart ≤ req.seqNoEnd ∧ (req.seqNoEnd = 0 → (tree.merkleTreeHash txns 0 0).isSome))

theorem processCatchupReq_returns_iff (s : LedgerManager O τ) (req : ReceivedCatchupReq) :
    (∃ r, processCatchupReq own tree updateTxnWithExtraData s req = .ok r) ↔
      CatchupReqServed (s.ledgerSize own req.ledgerId) req := by
  have hsize : s.ledgerSize own req.ledgerId = (s.ledger own req.ledgerId).txns.length := rfl
  unfold processCatchupReq CatchupReqServed
  rw [hsize]
  dsimp only
  split_ifs with hrange hstart
  · exact iff_of_true ⟨none, rfl⟩ (Or.inl hrange)
  · exact iff_of_true ⟨none, rfl⟩ (Or.inr (Or.inl hstart))
  · have hproof := tree.consistencyProof_isSome (s.ledger own req.ledgerId).txns
      (min req.seqNoEnd (s.ledger own req.ledgerId).txns.length) req.catchupTill
    have htxns := tree.getAllTxn_isSome (s.ledger own req.ledgerId).txns req.seqNoStart
      (min req.seqNoEnd (s.ledger own req.ledgerId).txns.length)
    cases hp : tree.consistencyProof (s.ledger own req.ledgerId).txns
      (min req.seqNoEnd (s.ledger own req.ledgerId).txns.length) req.catchupTill with
    | none =>
      rw [hp, Option.isSome_none] at hproof
      refine iff_of_false (by rintro ⟨r, hr⟩; cases hr) ?_
      have := hproof.not.1 Bool.false_ne_true
      omega
    | some proof =>
      rw [hp, Option.isSome_some] at hproof
      have hproof := hproof.1 rfl
      dsimp only
      cases ht : tree.getAllTxn (s.ledger own req.ledgerId).txns req.seqNoStart
        (min req.seqNoEnd (s.ledger own req.ledgerId).txns.length) with
      | none =>
        rw [ht, Option.isSome_none] at htxns
        refine iff_of_false (by rintro ⟨r, hr⟩; cases hr) ?_
        have := htxns.not.1 Bool.false_ne_true
        omega
      | some txns =>
        rw [ht, Option.isSome_some] at htxns
        have htxns := htxns.1 rfl
        refine iff_of_true ⟨_, rfl⟩ ?_
        omega

variable (tree) in
theorem oldRootAndProof_isSome (txns : List τ) {seqNoStart seqNoEnd : ℤ} (hle : seqNoStart ≤ seqNoEnd)
    (hend : seqNoEnd ≤ txns.length) : (oldRootAndProof tree txns seqNoStart seqNoEnd).isSome ↔ 0 ≤ seqNoStart := by
  unfold oldRootAndProof
  have hproof := tree.consistencyProof_isSome txns seqNoStart seqNoEnd
  split_ifs with hzero
  · exact iff_of_true rfl hzero.ge
  · cases hp : tree.consistencyProof txns seqNoStart seqNoEnd with
    | none =>
      rw [hp, Option.isSome_none] at hproof
      have := hproof.not.1 Bool.false_ne_true
      refine iff_of_false Bool.false_ne_true ?_
      omega
    | some proof =>
      rw [hp, Option.isSome_some] at hproof
      have hproof := hproof.1 rfl
      dsimp only
      rw [Option.isSome_map]
      exact iff_of_true (tree.merkleTreeHash_isSome txns seqNoStart hproof.1 (by omega)) hproof.1.le

theorem processConsistencyProofReq_returns_iff (s : LedgerManager O τ) (req : ReceivedConsProofRequest) :
    (∃ r, processConsistencyProofReq own tree s req = .ok r) ↔
      ConsProofReqServed tree (s.ledger own req.ledgerId).txns req := by
  unfold processConsistencyProofReq buildReceivedConsistencyProof ConsProofReqServed
  dsimp only
  split_ifs with hstart hend hle
  · exact iff_of_true ⟨none, rfl⟩ (Or.inl hstart)
  · exact iff_of_true ⟨none, rfl⟩ (Or.inr (Or.inl hend))
  · refine iff_of_false (by rintro ⟨r, hr⟩; cases hr) ?_
    omega
  · have hold := oldRootAndProof_isSome tree (s.ledger own req.ledgerId).txns (not_lt.1 hle) (not_lt.1 hend)
    have hnew : 0 < req.seqNoEnd → (tree.merkleTreeHash (s.ledger own req.ledgerId).txns 0 req.seqNoEnd).isSome :=
      fun h => tree.merkleTreeHash_isSome _ _ h (not_lt.1 hend)
    cases ho : oldRootAndProof tree (s.ledger own req.ledgerId).txns req.seqNoStart req.seqNoEnd with
    | none =>
      rw [ho, Option.isSome_none] at hold
      have := hold.not.1 Bool.false_ne_true
      refine iff_of_false (by rintro ⟨r, hr⟩; cases hr) ?_
      omega
    | some e =>
      rw [ho, Option.isSome_some] at hold
      have hnonneg := hold.1 rfl
      cases hn : tree.merkleTreeHash (s.ledger own req.ledgerId).txns 0 req.seqNoEnd with
      | none =>
        rw [hn] at hnew
        have hzero : req.seqNoEnd = 0 := by
          by_contra hne
          exact Bool.false_ne_true (hnew (by omega))
        rw [hzero] at hn
        refine iff_of_false (by rintro ⟨r, hr⟩; cases hr) ?_
        rintro (h | h | ⟨-, -, h⟩)
        · exact hstart h
        · exact hend h
        · rw [hn] at h
          exact Bool.false_ne_true (h hzero)
      | some root =>
        refine iff_of_true ⟨_, rfl⟩ (Or.inr (Or.inr ⟨hnonneg, not_lt.1 hle, ?_⟩))
        intro hzero
        rw [hzero] at hn
        rw [hn]
        rfl

/-- **Serving catch-up returns** exactly for these requests. For natural numbers the proof that is served is the one that is
built in answer to a ledger status. -/
theorem serving_returns_iff (s : LedgerManager O τ) :
    (∀ req, (∃ r, processCatchupReq own tree updateTxnWithExtraData s req = .ok r) ↔
      CatchupReqServed (s.ledgerSize own req.ledgerId) req) ∧
    (∀ req, (∃ r, processConsistencyProofReq own tree s req = .ok r) ↔
      ConsProofReqServed tree (s.ledger own req.ledgerId).txns req) ∧
    ∀ env, Agrees tree env → ∀ (lid : LedgerId) (seqNoStart seqNoEnd : ℕ),
      processConsistencyProofReq own tree s ⟨lid, seqNoStart, seqNoEnd⟩ =
        (exec (buildConsistencyProof env own lid seqNoStart seqNoEnd) s).1 :=
  ⟨processCatchupReq_returns_iff s, processConsistencyProofReq_returns_iff s,
    fun _ hagrees lid seqNoStart seqNoEnd => (buildConsistencyProof_eq hagrees lid seqNoStart seqNoEnd).symm⟩

end LedgerManager

/-! ## Witness -/

namespace FourNodes

open LedgerManager

/-- a tree and a log that are defined no farther than they have to be -/
def ledgerTree : LedgerTree Char where
  rootHash txns := String.ofList txns
  merkleTreeHash txns a b := if a < b ∧ b ≤ txns.length then some (String.ofList (txns.take b.toNat)) else none
  consistencyProof txns a b := if 0 < a ∧ a ≤ b ∧ b ≤ txns.length then some [] else none
  getAllTxn txns a b :=
    if 1 ≤ a ∧ a ≤ b then
      some (((txns.zipIdx 1).filter fun e => a ≤ e.2 ∧ (e.2 : ℤ) ≤ b).foldl (fun d e => d.set (e.2 : ℤ) e.1) Dict.empty)
    else none
  merkleTreeHash_isSome txns n h h' := by rw [if_pos ⟨h, h'⟩]; rfl
  consistencyProof_isSome txns a b := by split_ifs with h <;> simp [h]
  getAllTxn_isSome txns a b := by split_ifs with h <;> simp [h]

/-- Delta with three transactions in its pool ledger -/
def threeTxns : LedgerManager (PerLedger (Ledger Char)) Char := init ⟨⟨['a', 'b', 'c'], [], none, none⟩, Ledger.empty⟩

/-- requests of a peer that is ahead of Delta, of one that asks from zero on, and for a descending range -/
theorem serving_raises :
    processCatchupReq ledgerOwner ledgerTree id threeTxns ⟨.pool, 1, 3, 4⟩ = .error .valueError ∧
      processCatchupReq ledgerOwner ledgerTree id threeTxns ⟨.pool, 0, 3, 3⟩ = .error .valueError ∧
      processConsistencyProofReq ledgerOwner ledgerTree threeTxns ⟨.pool, 3, 2⟩ = .error .attributeError := by
  refine ⟨rfl, rfl, rfl⟩

end FourNodes

end Plenum
