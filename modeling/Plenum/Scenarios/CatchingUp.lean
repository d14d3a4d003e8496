/-
Delta, one of four nodes, catches up. Its peers are Alpha, Beta and Gamma.

A transaction is a character, and the root of a tree is the string of its leaves, so that a proof of consistency needs
no hashes. Sequence numbers are written in digits, also with zeros in front.
-/
import Mathlib.Tactic
import Plenum.Common.LedgerManager

namespace Plenum.FourNodes

open Plenum.Core

/-- the number that a string of digits stands for -/
def intOfDigits (s : String) : Option ℤ :=
  if s.toList ≠ [] ∧ s.toList.all Char.isDigit then
    some (s.toList.foldl (fun n c => 10 * n + ((c.toNat : ℤ) - '0'.toNat)) 0)
  else none

def ledgerEnv : LedgerEnv Char where
  merkleRoot txns := String.ofList txns
  consistencyProof _ _ _ := []
  verifyTreeConsistency oldSize newSize oldRoot newRoot _ :=
    oldRoot.toList.length = oldSize ∧ newRoot.toList.length = newSize ∧ oldRoot.toList.isPrefixOf newRoot.toList
  int := intOfDigits
  transformTxnForLedger txn := txn
  withSeqNo txn _ := txn
  consistencyProofsTimeout := 5
  catchupTimeout requests batchLength := requests * (6 + batchLength.toNat)

/-- Delta, of which only the ledgers matter -/
def ledgerOwner : LedgerOwner (PerLedger (Ledger Char)) Char where
  totalNodes := 4
  f := 1
  isClient _ := false
  conns _ := ["Alpha", "Beta", "Gamma"]
  connecteds _ := ["Alpha", "Beta", "Gamma"]
  ppSeqNoForTxnSeqNo _ _ seqNo := seqNo
  ledgers := id
  setLedgers _ ledgers := ledgers
  blacklistNode o _ := o
  preDomainLedgerCatchUp o := o
  poolLedgerCaughtUp := pure ()
  postTxnFromCatchupAddedToLedger _ _ := pure ()
  allLedgersCaughtUp _ := pure ()
  ledgers_setLedgers _ _ := rfl
  ledgers_blacklistNode _ _ := rfl
  ledgers_preDomainLedgerCatchUp _ := rfl
  ledgers_poolLedgerCaughtUp _ := rfl
  ledgers_postTxn _ _ _ := rfl

/-- the ledgers of a node that has nothing yet -/
def emptyLedgers : PerLedger (Ledger Char) := ⟨Ledger.empty, Ledger.empty⟩

def peers : Finset NodeName := {"Alpha", "Beta", "Gamma"}

/-- the proof of a pool ledger with the transactions of `abc` -/
def toAbc : ConsistencyProof := ⟨.pool, 0, 3, 1, "", "abc", []⟩

def targetAbc : List Char := ['a', 'b', 'c']

/-- Delta starts to catch up to it -/
def startCatchup : List (LedgerInput Char) := [.setLedgerCanSync .pool true, .consistencyProof toAbc "Gamma"]

/-- a catch-up reply with transactions under the given keys -/
def catchupReply (txns : List (String × Char)) : CatchupRep Char :=
  ⟨.pool, txns.foldl (fun d e => d.set e.1 e.2) Dict.empty, []⟩

/-- with the empty proof as the only one that is accepted -/
def exactLedgerEnv : LedgerEnv Char :=
  { ledgerEnv with
    verifyTreeConsistency := fun oldSize newSize oldRoot newRoot proof =>
      ledgerEnv.verifyTreeConsistency oldSize newSize oldRoot newRoot proof && proof.isEmpty }

/-- Delta with its ledgers and its blacklist -/
def recordingOwner : LedgerOwner (PerLedger (Ledger Char) × List NodeName) Char where
  totalNodes := 4
  f := 1
  isClient _ := false
  conns _ := ["Alpha", "Beta", "Gamma"]
  connecteds _ := ["Alpha", "Beta", "Gamma"]
  ppSeqNoForTxnSeqNo _ _ seqNo := seqNo
  ledgers := Prod.fst
  setLedgers o ledgers := (ledgers, o.2)
  blacklistNode o i := (o.1, o.2 ++ [i])
  preDomainLedgerCatchUp o := o
  poolLedgerCaughtUp := pure ()
  postTxnFromCatchupAddedToLedger _ _ := pure ()
  allLedgersCaughtUp _ := pure ()
  ledgers_setLedgers _ _ := rfl
  ledgers_blacklistNode _ _ := rfl
  ledgers_preDomainLedgerCatchUp _ := rfl
  ledgers_poolLedgerCaughtUp _ := rfl
  ledgers_postTxn _ _ _ := rfl

end Plenum.FourNodes
