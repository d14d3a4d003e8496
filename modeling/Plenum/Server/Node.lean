/-
A node with its replicas: how PROPAGATEs and client requests become request keys for the replicas, how the queues
between the node and its replicas are serviced, and how an ordered batch is executed.

- A method is a program over the state of the node that may raise (`NodeM`); what it wrote before raising stays.
- The replicas of a node share its request store and databases. A replica gets them when it is serviced and gives
  them back afterwards (`serviceReplica`).
- `sent`, `forwarded` and `processed` are histories: the messages sent to the other nodes, the keys handed to the
  replicas, and the results of `processOrdered`. No method reads them.
- Catch-up, view changes, the monitor and the authentication of messages are left out.
-/
import Mathlib.Tactic
import Plenum.Server.InSequence

namespace Plenum

open Plenum.Core

/-- what a node takes from outside beyond what its replicas take -/
structure NodeEnv (ω σ τ : Type) extends Env ω σ τ where
  /-- the identifier and request id that a transaction carries -/
  txnKey : τ → ReqKey
  /-- the version of a state that has the given root -/
  stateAt : String → σ

/-- what nodes send each other -/
inductive NodeMsg (ω : Type) where
  | propagate (request : Request ω) (senderClient : String)
  | threePhase (m : ThreePhaseMsg)
  | checkpoint (c : Checkpoint)
deriving DecidableEq

/-- what a node sends a client; a transaction goes with its `seqNo` -/
inductive ClientMsg (τ : Type) where
  | requestAck (key : ReqKey)
  | reply (txn : τ) (seqNo : ℕ) (txnTime : Option ℕ)
  | reject (r : Reject)

/-- the instance that a message from another node is for -/
def InMsg.instId : InMsg → ℕ
  | .reqKey _ => 0
  | .threePhase (.prePrepare pp) _ => pp.instId
  | .threePhase (.prepare p) _ => p.instId
  | .threePhase (.commit c) _ => c.instId
  | .checkpoint c _ => c.instId

def InMsg.viewNo : InMsg → ℕ
  | .reqKey _ => 0
  | .threePhase m _ => m.viewNo
  | .checkpoint c _ => c.viewNo

structure RunningNode (ω σ τ : Type) where
  node : Node ω σ τ
  replicas : List (RunningReplica ω σ τ)
  /-- for each replica the messages that wait for `serviceReplicaMsgs` -/
  msgsToReplicas : List (List InMsg)
  msgsForFutureReplicas : Dict ℕ (List InMsg)
  msgsForFutureViews : Dict ℕ (List InMsg)
  /-- the client that waits for the reply to a request -/
  requestSender : Dict ReqKey String
  seqNoDB : Dict ReqKey ℕ
  batchToSeqNos : Dict ℕ (LedgerId × ℕ)
  /-- the requests of the transactions got by catch-up -/
  reqsFromCatchupReplies : List ReqKey
  stashedOrderedReqs : List Ordered
  toClients : List (ClientMsg τ × String)
  sent : List (NodeMsg ω)
  forwarded : List ReqKey
  processed : List (Ordered × Option Bool)

/-- the methods of a node -/
abbrev NodeM (ω σ τ : Type) := Exec Exn (RunningNode ω σ τ)

namespace RunningNode

variable {ω σ τ : Type}

/-- a new node with one replica for each of the given primaries; the first one is the master's -/
def init (env : NodeEnv ω σ τ) (node : Node ω σ τ) (primaries : List (Option RepName)) : RunningNode ω σ τ where
  node := { node with requests := Dict.empty }
  replicas := primaries.mapIdx fun idx p =>
    ⟨Replica.init env.toEnv { node with requests := Dict.empty } idx (decide (idx = 0)) p, []⟩
  msgsToReplicas := primaries.map fun _ => []
  msgsForFutureReplicas := Dict.empty
  msgsForFutureViews := Dict.empty
  requestSender := Dict.empty
  seqNoDB := Dict.empty
  batchToSeqNos := Dict.empty
  reqsFromCatchupReplies := []
  stashedOrderedReqs := []
  toClients := []
  sent := []
  forwarded := []
  processed := []

/-! ## Small writes -/

variable (s : RunningNode ω σ τ)

def setRequests (requests : Requests ω) : RunningNode ω σ τ := { s with node := { s.node with requests := requests } }

def setDbs (dbs : Dbs σ τ) : RunningNode ω σ τ := { s with node := { s.node with dbs := dbs } }

def setReplica (idx : ℕ) (r : RunningReplica ω σ τ) : RunningNode ω σ τ := { s with replicas := s.replicas.set idx r }

/-- the messages of one replica's queue are replaced -/
def setMsgs (idx : ℕ) (ms : List InMsg) : RunningNode ω σ τ := { s with msgsToReplicas := s.msgsToReplicas.set idx ms }

/-! ## Requests -/

def send (m : NodeMsg ω) : NodeM ω σ τ Unit := modify fun s => { s with sent := s.sent ++ [m] }

def transmitToClient (m : ClientMsg τ) (client : String) : NodeM ω σ τ Unit :=
  modify fun s => { s with toClients := s.toClients ++ [(m, client)] }

def isProcessingReq (key : ReqKey) : Bool := s.requestSender.contains key

def startedProcessingReq (key : ReqKey) (frm : String) : NodeM ω σ τ Unit :=
  modify fun s => { s with requestSender := s.requestSender.set key frm }

/-- remember the client of a request that is not being processed yet -/
def ensureProcessingReq (key : ReqKey) (frm : String) : NodeM ω σ τ Unit := do
  let s ← get
  if s.isProcessingReq key then pure () else startedProcessingReq key frm

/-- `requestSender.pop(key)` -/
def doneProcessingReq (key : ReqKey) : NodeM ω σ τ Unit := do
  let s ← get
  if s.isProcessingReq key then modify fun s => { s with requestSender := s.requestSender.erase key }
  else throw .keyError

/-- the client of a request that is being processed -/
def senderOf (key : ReqKey) : NodeM ω σ τ String := do
  let s ← get
  match s.requestSender.get? key with
  | some client => pure client
  | none => throw .keyError

section Propagator

variable [DecidableEq ω]

/-- broadcast a PROPAGATE, unless the node has done so for the request -/
def propagate (request : Request ω) (clientName : String) : NodeM ω σ τ Unit := do
  let s ← get
  if s.node.requests.hasPropagated request s.node.name then pure ()
  else do
    modify fun s => s.setRequests (s.node.requests.addPropagate request s.node.name)
    if s.node.isParticipating then send (.propagate request clientName) else pure ()

/-- hand the key of a request to every replica -/
def forward (request : Request ω) : NodeM ω σ τ Unit :=
  modify fun s =>
    { s.setRequests (s.node.requests.flagAsForwarded request s.msgsToReplicas.length) with
      msgsToReplicas := s.msgsToReplicas.map (· ++ [.reqKey request.key]), forwarded := s.forwarded ++ [request.key] }

def tryForwarding (request : Request ω) : NodeM ω σ τ Unit := do
  let s ← get
  let (r, requests) := s.node.requests.canForward request (s.node.f + 1)
  modify fun s => s.setRequests requests
  if r then forward request else pure ()

def recordAndPropagate (request : Request ω) (clientName : String) : NodeM ω σ τ Unit := do
  modify fun s => s.setRequests (s.node.requests.add request)
  propagate request clientName
  tryForwarding request

def processPropagate (request : Request ω) (clientName : String) (frm : NodeName) : NodeM ω σ τ Unit := do
  ensureProcessingReq request.key clientName
  modify fun s => s.setRequests (s.node.requests.addPropagate request frm)
  propagate request clientName
  tryForwarding request

/-- the transaction of a request that has been executed, found by its `seqNo` or else in the ledger -/
def getReplyFromLedger (env : NodeEnv ω σ τ) (ledger : Ledger τ) (request : Request ω) : Option (τ × ℕ) :=
  match s.seqNoDB.get? request.key with
  | some (seqNo + 1) => (ledger.txns[seqNo]?).map fun txn => (txn, seqNo + 1)
  | _ => (ledger.txns.zipIdx 1).find? fun e => env.txnKey e.1 = request.key

def processRequest (env : NodeEnv ω σ τ) (request : Request ω) (frm : String) : NodeM ω σ τ Unit := do
  let s ← get
  let ledger := s.node.dbs.ledgers.get (env.ledgerIdForRequest request)
  match s.getReplyFromLedger env ledger request with
  | some (txn, seqNo) => transmitToClient (.reply txn seqNo none) frm
  | none => do
    ensureProcessingReq request.key frm
    recordAndPropagate request frm
    transmitToClient (.requestAck request.key) frm

end Propagator

/-! ## Messages for the replicas -/

/-- a message for an instance that the node does not have yet is kept apart -/
def msgHasAcceptableInstId (m : InMsg) : NodeM ω σ τ Bool := do
  let s ← get
  if s.msgsToReplicas.length ≤ m.instId then do
    let waiting := (s.msgsForFutureReplicas.get? (m.instId)).getD []
    modify fun s =>
      { s with msgsForFutureReplicas := s.msgsForFutureReplicas.set (m.instId) (waiting ++ [m]) }
    pure false
  else pure true

/-- a message of a later view is kept apart; one from before the last view is dropped -/
def msgHasAcceptableViewNo (m : InMsg) : NodeM ω σ τ Bool := do
  let s ← get
  if 1 < s.node.viewNo - m.viewNo then pure false
  else if s.node.viewNo < m.viewNo then do
    let waiting := (s.msgsForFutureViews.get? (m.viewNo)).getD []
    modify fun s => { s with msgsForFutureViews := s.msgsForFutureViews.set (m.viewNo) (waiting ++ [m]) }
    pure false
  else pure true

/-- a message joins the queue of its replica -/
def enqueueMsg (m : InMsg) (s : RunningNode ω σ τ) : RunningNode ω σ τ :=
  s.setMsgs (m.instId) (s.msgsToReplicas.getD (m.instId) [] ++ [m])

def sendToReplica (m : InMsg) : NodeM ω σ τ Unit := do
  let instIdOk ← msgHasAcceptableInstId m
  if instIdOk then do
    let viewNoOk ← msgHasAcceptableViewNo m
    if viewNoOk then modify (enqueueMsg m) else pure ()
  else pure ()

/-- the router of the messages from other nodes -/
def nodeMsgRouter [DecidableEq ω] (m : NodeMsg ω) (frm : NodeName) : NodeM ω σ τ Unit :=
  match m with
  | .propagate request clientName => processPropagate request clientName frm
  | .threePhase m => sendToReplica (.threePhase m frm)
  | .checkpoint c => sendToReplica (.checkpoint c frm)

/-- how many of `count` messages a loop with a limit takes when `msgCount` were taken before; `0` is no limit -/
def limited (limit : Option ℕ) (msgCount count : ℕ) : ℕ :=
  match limit with
  | none | some 0 => count
  | some l => min (l - msgCount) count

/-- move the first message of a replica's queue to its inbox -/
def deliverMsg (env : NodeEnv ω σ τ) (idx : ℕ) : NodeM ω σ τ Unit := do
  let s ← get
  match s.msgsToReplicas[idx]?, s.replicas[idx]? with
  | some (m :: rest), some r => modify fun s => (s.setMsgs idx rest).setReplica idx (r.input env.toEnv (.receive m))
  | _, _ => throw .indexError

def repeatM (m : NodeM ω σ τ Unit) : ℕ → NodeM ω σ τ Unit
  | 0 => pure ()
  | n + 1 => do
    m
    repeatM m n

/-- the queues from the `idx`-th on -/
def deliverMsgs (env : NodeEnv ω σ τ) (limit : Option ℕ) : List ℕ → ℕ → NodeM ω σ τ ℕ
  | [], msgCount => pure msgCount
  | idx :: rest, msgCount => do
    let s ← get
    let count := limited limit msgCount (s.msgsToReplicas.getD idx []).length
    repeatM (deliverMsg env idx) count
    deliverMsgs env limit rest (msgCount + count)

def serviceReplicaMsgs (env : NodeEnv ω σ τ) (limit : Option ℕ) : NodeM ω σ τ ℕ := do
  let s ← get
  deliverMsgs env limit (List.range s.msgsToReplicas.length) 0

/-! ## Ordered batches -/

/-- the first `reqCount` uncommitted transactions are committed; the root after it must be the agreed one -/
def commit (env : NodeEnv ω σ τ) (lid : LedgerId) (reqCount : ℕ) (stateRoot txnRoot : Option String) :
    NodeM ω σ τ (List (τ × ℕ)) := do
  let s ← get
  let ledger := s.node.dbs.ledgers.get lid
  let res := ledger.commitTxns reqCount
  modify fun s => s.setDbs { s.node.dbs with ledgers := s.node.dbs.ledgers.set lid res.1 }
  match stateRoot, txnRoot with
  | some stateRoot, some txnRoot =>
    if env.merkleRoot res.1.txns ≠ txnRoot then throw .assertionError
    else do
      modify fun s => s.setDbs { s.node.dbs with
        states := s.node.dbs.states.set lid ((s.node.dbs.states.get lid).commit (env.stateAt stateRoot)) }
      pure (res.2.zipIdx (ledger.txns.length + 1))
  | _, _ => throw .attributeError

def updateSeqNoMap (env : NodeEnv ω σ τ) (committedTxns : List (τ × ℕ)) : NodeM ω σ τ Unit :=
  modify fun s => { s with seqNoDB := committedTxns.foldl (fun d e => d.set (env.txnKey e.1) e.2) s.seqNoDB }

def sendReplyToClient (reply : ClientMsg τ) (key : ReqKey) : NodeM ω σ τ Unit := do
  let s ← get
  match s.requestSender.get? key with
  | some client => do
    transmitToClient reply client
    doneProcessingReq key
  | none => pure ()

def sendRepliesToClients (env : NodeEnv ω σ τ) (committedTxns : List (τ × ℕ)) (ppTime : ℕ) : NodeM ω σ τ Unit :=
  committedTxns.forM fun e => sendReplyToClient (.reply e.1 e.2 (some ppTime)) (env.txnKey e.1)

def commitAndSendReplies (env : NodeEnv ω σ τ) (lid : LedgerId) (ppTime : ℕ) (reqs : List (Request ω))
    (stateRoot txnRoot : Option String) : NodeM ω σ τ (List (τ × ℕ)) := do
  let committedTxns ← commit env lid reqs.length stateRoot txnRoot
  updateSeqNoMap env committedTxns
  sendRepliesToClients env committedTxns ppTime
  pure committedTxns

def executeBatch (env : NodeEnv ω σ τ) (ppSeqNo ppTime : ℕ) (reqs : List (Request ω)) (lid : LedgerId)
    (stateRoot txnRoot : Option String) : NodeM ω σ τ Unit := do
  let committedTxns ← commitAndSendReplies env lid ppTime reqs stateRoot txnRoot
  match committedTxns.getLast? with
  | some (_, seqNo) => modify fun s => { s with batchToSeqNos := s.batchToSeqNos.set ppSeqNo (lid, seqNo) }
  | none => pure ()

/-- execute a batch of the master if all its requests are finalised: `True`, else `None`; `False` for a backup -/
def processOrdered (env : NodeEnv ω σ τ) (o : Ordered) : NodeM ω σ τ (Option Bool) := do
  if o.instId = 0 then do
    let s ← get
    let reqs := o.reqIdr.filterMap s.node.requests.finalised?
    if reqs.length = o.reqIdr.length then do
      executeBatch env o.ppSeqNo o.ppTime reqs o.ledgerId o.stateRootHash o.txnRootHash
      pure (some true)
    else pure none
  else pure (some false)

def gotInCatchupReplies (o : Ordered) : Bool := o.reqIdr.any s.reqsFromCatchupReplies.contains

def reasonForClientFromException (reason : String) : String := "client request invalid: " ++ reason

/-- one message from the outbox of a replica -/
def handleOutMsg (env : NodeEnv ω σ τ) : OutMsg → NodeM ω σ τ Unit
  | .threePhase m => send (.threePhase m)
  | .checkpoint c => send (.checkpoint c)
  | .ordered o => do
    let s ← get
    if s.node.isParticipating && ! s.gotInCatchupReplies o then do
      let r ← processOrdered env o
      modify fun s => { s with processed := s.processed ++ [(o, r)] }
    else modify fun s => { s with stashedOrderedReqs := s.stashedOrderedReqs ++ [o] }
  | .reject r => do
    let client ← senderOf (r.identifier, r.reqId)
    transmitToClient (.reject { r with reason := reasonForClientFromException r.reason }) client
    doneProcessingReq (r.identifier, r.reqId)

/-- take the first message from a replica's outbox and handle it -/
def takeOutMsg (env : NodeEnv ω σ τ) (idx : ℕ) : NodeM ω σ τ Unit := do
  let s ← get
  match s.replicas[idx]? with
  | none => throw .indexError
  | some r =>
    match r.replica.outBox with
    | [] => throw .indexError
    | m :: _ => do
      modify fun s => s.setReplica idx (r.input env.toEnv .takeFromOutBox)
      handleOutMsg env m

/-- the outboxes of the given replicas -/
def takeOutMsgs (env : NodeEnv ω σ τ) (limit : Option ℕ) : List ℕ → ℕ → NodeM ω σ τ ℕ
  | [], msgCount => pure msgCount
  | idx :: rest, msgCount => do
    let s ← get
    let count := limited limit msgCount ((s.replicas[idx]?).elim 0 fun r => r.replica.outBox.length)
    repeatM (takeOutMsg env idx) count
    takeOutMsgs env limit rest (msgCount + count)

def serviceReplicaOutBox (env : NodeEnv ω σ τ) (limit : Option ℕ) : NodeM ω σ τ ℕ := do
  let s ← get
  takeOutMsgs env limit (List.range s.replicas.length) 0

/-! ## Servicing the replicas -/

/-- a replica gets the shared state of the node -/
def shareWith (node : Node ω σ τ) (env : NodeEnv ω σ τ) (r : RunningReplica ω σ τ) : RunningReplica ω σ τ :=
  r.input env.toEnv (.nodeChanged node.requests node.dbs node.suspicions)

/-- the shared state after a replica was serviced -/
def takeBack (node : Node ω σ τ) (r : RunningReplica ω σ τ) : Node ω σ τ :=
  { node with requests := r.replica.node.requests, dbs := r.replica.node.dbs, suspicions := r.replica.node.suspicions }

/-- the outcome of servicing the queues of a replica -/
def serviceQueuesResult (env : NodeEnv ω σ τ) (fuel : ℕ) (limit : Option ℕ) (clock : ℕ × ℕ)
    (r : RunningReplica ω σ τ) : Except Exn ℕ :=
  (Exec.exec (Replica.serviceQueues env.toEnv fuel limit)
    { r.replica with perfCounter := clock.1, time := clock.2 }).1

/-- service the queues of one replica; the clocks read `clock` -/
def serviceReplica (env : NodeEnv ω σ τ) (fuel : ℕ) (limit : Option ℕ) (clock : ℕ × ℕ) (idx : ℕ) :
    NodeM ω σ τ Unit := do
  let s ← get
  match s.replicas[idx]? with
  | none => throw .indexError
  | some r => do
    let r := shareWith s.node env r
    let r' := r.input env.toEnv (.serviceQueues fuel limit clock.1 clock.2)
    modify fun s => { s.setReplica idx r' with node := takeBack s.node r' }
    match serviceQueuesResult env fuel limit clock r with
    | .ok _ => pure ()
    | .error e => throw e

def serviceReplicaInBox (env : NodeEnv ω σ τ) (fuel : ℕ) (limit : Option ℕ) (clock : ℕ → ℕ × ℕ) : NodeM ω σ τ Unit := do
  let s ← get
  (List.range s.replicas.length).forM fun idx => serviceReplica env fuel limit (clock idx) idx

end RunningNode

/-! ## Inputs of a node -/

/-- what happens to a node within a view: a message of another node, a request of a client, or the servicing of its queues;
`clock` gives the readings of the clocks for each replica. It does not catch up, and its view does not change. -/
inductive NodeInput (ω : Type) where
  | nodeMsg (m : NodeMsg ω) (frm : NodeName)
  | request (request : Request ω) (frm : String)
  | serviceReplicaMsgs (limit : Option ℕ)
  | serviceReplicaOutBox (limit : Option ℕ)
  | serviceReplicaInBox (fuel : ℕ) (limit : Option ℕ) (clock : ℕ → ℕ × ℕ)

namespace RunningNode

variable {ω σ τ : Type} [DecidableEq ω]

/-- the method that an input runs -/
def method (env : NodeEnv ω σ τ) : NodeInput ω → NodeM ω σ τ Unit
  | .nodeMsg m frm => nodeMsgRouter m frm
  | .request request frm => processRequest env request frm
  | .serviceReplicaMsgs limit => do
    let _ ← serviceReplicaMsgs env limit
  | .serviceReplicaOutBox limit => do
    let _ ← serviceReplicaOutBox env limit
  | .serviceReplicaInBox fuel limit clock => serviceReplicaInBox env fuel limit clock

def input (env : NodeEnv ω σ τ) (s : RunningNode ω σ τ) (i : NodeInput ω) : RunningNode ω σ τ :=
  (Exec.exec (method env i) s).2

end RunningNode

end Plenum
