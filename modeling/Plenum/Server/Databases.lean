/-
The ledgers and states of a node, and what validating and applying a request does to them.

`Env` collects what the consensus code takes from outside: its configuration, the hash functions, and the request
handlers. Dynamic validation is any function of the databases and the request; applying a request appends one
transaction to the ledger of the request's type and moves the head of that ledger's state, and both the transaction and
the new head are any functions of the databases and the request.
-/
import Mathlib.Tactic
import Plenum.Common.Ledger
import Plenum.Server.Propagator

namespace Plenum

/-- the ledgers and states of a node; `σ` are the versions of a state, `τ` the transactions of a ledger -/
structure Dbs (σ τ : Type) where
  ledgers : PerLedger (Ledger τ)
  states : PerLedger (State σ)
deriving DecidableEq

/-- configuration, hash functions and request handlers; times are counted in clock ticks -/
structure Env (ω σ τ : Type) where
  CHK_FREQ : ℕ
  LOG_SIZE : ℕ
  max3PCBatchSize : ℕ
  max3PCBatchWait : ℕ
  /-- the ticks of one second -/
  second : ℕ
  /-- the hash of the joined digests of a batch -/
  batchHash : List String → String
  /-- the hash of the serialized digests of a checkpoint -/
  checkpointHash : List String → String
  merkleRoot : List τ → String
  stateRoot : σ → String
  ledgerIdForRequest : Request ω → LedgerId
  /-- the text of the exception if dynamic validation refuses the request -/
  validate : Dbs σ τ → Request ω → Option String
  /-- the transaction that applying a request appends, and the head of the state after it -/
  apply : Dbs σ τ → Request ω → τ × σ

namespace Dbs

variable {ω σ τ : Type}

def doDynamicValidation (env : Env ω σ τ) (dbs : Dbs σ τ) (req : Request ω) : Option String := env.validate dbs req

def applyReq (env : Env ω σ τ) (dbs : Dbs σ τ) (req : Request ω) : Dbs σ τ :=
  let lid := env.ledgerIdForRequest req
  let res := env.apply dbs req
  { ledgers := dbs.ledgers.set lid ((dbs.ledgers.get lid).appendTxns env.merkleRoot [res.1]),
    states := dbs.states.set lid { dbs.states.get lid with headHash := res.2 } }

/-- undo a batch: the state goes back to the given head, the ledger drops `reqCount` uncommitted transactions -/
def revert (env : Env ω σ τ) (dbs : Dbs σ τ) (lid : LedgerId) (stateRootHash : σ) (reqCount : ℕ) : Dbs σ τ :=
  { ledgers := dbs.ledgers.set lid ((dbs.ledgers.get lid).discardTxns env.merkleRoot reqCount),
    states := dbs.states.set lid ((dbs.states.get lid).revertToHead stateRootHash) }

/-- every ledger is consistent -/
def Consistent (env : Env ω σ τ) (dbs : Dbs σ τ) : Prop := ∀ lid, (dbs.ledgers.get lid).Consistent env.merkleRoot

theorem Consistent.applyReq {env : Env ω σ τ} {dbs : Dbs σ τ} (h : Consistent env dbs) (req : Request ω) :
    Consistent env (dbs.applyReq env req) := by
  intro lid
  simp only [Dbs.applyReq, PerLedger.get_set]
  split_ifs with hl
  · exact Ledger.appendTxns_consistent (h _) (by simp)
  · exact h lid

end Dbs

/-- the part of a node that its replicas share -/
structure Node (ω σ τ : Type) where
  name : NodeName
  viewNo : ℕ
  f : ℕ
  isParticipating : Bool
  requests : Requests ω
  dbs : Dbs σ τ
  /-- the suspicious messages reported to the node -/
  suspicions : List (RepName × Suspicion)
deriving DecidableEq

end Plenum
