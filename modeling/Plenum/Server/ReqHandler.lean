/-
The request handlers of the two ledgers, and the state they keep.

- A state is a map from nyms to records, with a head and a committed head.
- `DomainRequestHandler`: NYM transactions. A new nym gets the identifier of its author and empty `ROLE` and `VERKEY`;
  later transactions change what they give.
- `PoolRequestHandler`: NODE transactions. A new node gets the identifier of its author; the `DATA` of every
  transaction updates the record.
- `updateState` reads a record back from the head, or from the committed head if it is told that the transactions are
  committed.
- `domainEnv`: the environment of a node whose domain requests go to the domain handler; applying a request there is
  the handler's `apply` (`applyReq_domainEnv`).
-/
import Mathlib.Tactic
import Plenum.Server.Databases

namespace Plenum

open Plenum.Core

/-! ## States as maps -/

namespace State

variable {ν : Type}

def empty : State (Dict String ν) := ⟨Dict.empty, Dict.empty⟩

def isEmpty (s : State (Dict String ν)) : Bool := s.committedHeadHash.size = 0

/-- the record of a key, in the committed head or in the head -/
def get (s : State (Dict String ν)) (key : String) (isCommitted : Bool) : Option ν :=
  if isCommitted then s.committedHeadHash.get? key else s.headHash.get? key

def set (s : State (Dict String ν)) (key : String) (value : ν) : State (Dict String ν) :=
  { s with headHash := s.headHash.set key value }

end State

/-! ## NYM transactions -/

def NYM : String := "1"

def STEWARD : String := "2"

/-- the operation of a request to the domain ledger; `role` and `verkey` may be left out, and may be null -/
structure DomainOperation where
  type : String
  dest : String
  role : Option (Option String)
  verkey : Option (Option String)
deriving DecidableEq, Repr

structure DomainTxn where
  identifier : String
  reqId : ℕ
  signature : String
  operation : DomainOperation
  seqNo : Option ℕ
deriving DecidableEq, Repr

/-- the record of a nym; every record has all four fields -/
structure NymData where
  identifier : String
  role : Option String
  verkey : Option String
  seqNo : Option ℕ
deriving DecidableEq, Repr

abbrev DomainState := State (Dict String NymData)

namespace DomainRequestHandler

def getNymDetails (state : DomainState) (nym : String) (isCommitted : Bool) : Option NymData :=
  state.get nym isCommitted

def isSteward (state : DomainState) (nym : String) (isCommitted : Bool) : Bool :=
  (getNymDetails state nym isCommitted).any fun d => d.role = some STEWARD

/-- the stewards among the committed transactions -/
def countStewards (ledger : Ledger DomainTxn) : ℕ :=
  ledger.txns.countP fun txn => txn.operation.type = NYM ∧ txn.operation.role = some (some STEWARD)

def stewardThresholdExceeded (stewardThreshold : ℕ) (ledger : Ledger DomainTxn) : Bool :=
  stewardThreshold < countStewards ledger

/-- the text of the `UnauthorizedClientRequest`; the later check overrides the earlier one -/
def validate (stewardThreshold : ℕ) (ledger : Ledger DomainTxn) (state : DomainState)
    (req : Request DomainOperation) : Option String :=
  if req.operation.type = NYM then
    if req.operation.role = some (some STEWARD) ∧ stewardThresholdExceeded stewardThreshold ledger then
      some ("New stewards cannot be added by other stewards as there are already " ++ toString stewardThreshold ++
        " stewards in the system")
    else if ! isSteward state req.identifier false then some "Only Steward is allowed to do these transactions"
    else none
  else none

/-- the record of a nym after a transaction -/
def nymAfter (existingData : Option NymData) (txn : DomainTxn) : NymData :=
  let data := existingData.getD ⟨txn.identifier, none, none, none⟩
  { data with role := txn.operation.role.getD data.role, verkey := txn.operation.verkey.getD data.verkey,
              seqNo := txn.seqNo }

def updateNym (state : DomainState) (nym : String) (txn : DomainTxn) (isCommitted : Bool) : DomainState :=
  state.set nym (nymAfter (getNymDetails state nym isCommitted) txn)

def updateStateWithSingleTxn (isCommitted : Bool) (state : DomainState) (txn : DomainTxn) : DomainState :=
  if txn.operation.type = NYM then updateNym state txn.operation.dest txn isCommitted else state

def updateState (isCommitted : Bool) (txns : List DomainTxn) (state : DomainState) : DomainState :=
  txns.foldl (updateStateWithSingleTxn isCommitted) state

def reqToTxn (req : Request DomainOperation) : DomainTxn :=
  ⟨req.identifier, req.reqId, req.signature, req.operation, none⟩

/-- the transaction, the ledger that has it uncommitted, and the state it has updated -/
def apply (root : List DomainTxn → String) (ledger : Ledger DomainTxn) (state : DomainState)
    (req : Request DomainOperation) : DomainTxn × Ledger DomainTxn × DomainState :=
  let txn := reqToTxn req
  let seqNo := ledger.uncommittedSize + 1
  (txn, ledger.appendTxns root [txn], updateState false [{ txn with seqNo := some seqNo }] state)

end DomainRequestHandler

/-- validation and application of the domain handler, with the configuration and the hash functions of `base` -/
def domainEnv (stewardThreshold : ℕ) (base : Env DomainOperation (Dict String NymData) DomainTxn) :
    Env DomainOperation (Dict String NymData) DomainTxn :=
  { base with
    ledgerIdForRequest := fun _ => .domain
    validate := fun dbs req =>
      DomainRequestHandler.validate stewardThreshold dbs.ledgers.domain dbs.states.domain req
    apply := fun dbs req =>
      let res := DomainRequestHandler.apply base.merkleRoot dbs.ledgers.domain dbs.states.domain req
      (res.1, res.2.2.headHash) }

/-- applying a request to the databases is the handler's `apply` on the domain ledger and state -/
theorem applyReq_domainEnv (stewardThreshold : ℕ) (base : Env DomainOperation (Dict String NymData) DomainTxn)
    (dbs : Dbs (Dict String NymData) DomainTxn) (req : Request DomainOperation) :
    ((dbs.applyReq (domainEnv stewardThreshold base) req).ledgers.domain,
      (dbs.applyReq (domainEnv stewardThreshold base) req).states.domain) =
    (DomainRequestHandler.apply base.merkleRoot dbs.ledgers.domain dbs.states.domain req).2 := by
  have hcommitted : ∀ txn : DomainTxn,
      (DomainRequestHandler.updateState false [txn] dbs.states.domain).committedHeadHash =
        dbs.states.domain.committedHeadHash := by
    intro txn
    change (DomainRequestHandler.updateStateWithSingleTxn false dbs.states.domain txn).committedHeadHash = _
    unfold DomainRequestHandler.updateStateWithSingleTxn
    split_ifs <;> rfl
  refine Prod.ext rfl ?_
  change State.mk _ _ = _
  exact congrArg (State.mk _) (hcommitted _).symm

/-! ## NODE transactions -/

/-- a transaction of the pool ledger; `ν` are the values of a JSON object -/
structure PoolTxn (ν : Type) where
  identifier : ν
  dest : String
  data : Dict String ν

/-- the record of a node -/
abbrev NodeData (ν : Type) := Dict String ν

abbrev PoolState (ν : Type) := State (Dict String (NodeData ν))

/-- the key of the author in the record of a node -/
def IDENTIFIER : String := "identifier"

namespace PoolRequestHandler

variable {ν : Type}

def getNodeData (state : PoolState ν) (nym : String) (isCommitted : Bool) : NodeData ν :=
  (state.get nym isCommitted).getD Dict.empty

/-- the record of a node after a transaction -/
def nodeAfter (existingData : NodeData ν) (txn : PoolTxn ν) : NodeData ν :=
  let existingData := if existingData.size = 0 then existingData.set IDENTIFIER txn.identifier else existingData
  existingData.update txn.data

def updateStateWithSingleTxn (isCommitted : Bool) (state : PoolState ν) (txn : PoolTxn ν) : PoolState ν :=
  state.set txn.dest (nodeAfter (getNodeData state txn.dest isCommitted) txn)

def updateState (isCommitted : Bool) (txns : List (PoolTxn ν)) (state : PoolState ν) : PoolState ν :=
  txns.foldl (updateStateWithSingleTxn isCommitted) state

end PoolRequestHandler

end Plenum
