/-
The methods of a replica, translated one by one.

- A method is a program over the replica's state that may raise (`ReplicaM`); what it wrote before raising stays.
- The methods of the 3-phase code call each other in one circle only: a message that orders a batch can complete a
  checkpoint, a stable checkpoint replays the messages stashed outside the watermarks, and these are dispatched again.
  `dispatch` stands for that call in the methods below; `dispatchThreePhaseMsg` ties the knot, to a nesting depth
  `fuel`.
- A `while` loop over a queue that its body can extend takes at most `fuel` rounds. A run that is cut short raises
  `outOfFuel`, so it is a prefix of the real one.
- The source's `set` of request keys in `gc` is walked in some order; a `dict` that changes its size while it is walked
  raises `RuntimeError`, as in the source.
-/
import Mathlib.Tactic
import Plenum.Server.ReplicaState

namespace Plenum.Replica

open Plenum.Core

variable {ω σ τ : Type} (env : Env ω σ τ)

/-! ## Messages out, suspicions -/

def send (m : OutMsg) : ReplicaM ω σ τ Unit := modify fun s => s.appendOutBox [m]

def reportSuspiciousNodeEx (node : RepName) (suspicion : Suspicion) : ReplicaM ω σ τ Unit :=
  modify fun s => { s with node := { s.node with suspicions := s.node.suspicions ++ [(node, suspicion)] } }

/-- the `try … except SuspiciousNode` around a method: the suspicion is reported, other exceptions go on -/
def reportingSuspicions (m : ReplicaM ω σ τ Unit) : ReplicaM ω σ τ Unit :=
  tryCatch m fun e =>
    match e with
    | .suspiciousNode node suspicion _ => reportSuspiciousNodeEx node suspicion
    | e => throw e

/-! ## Batches -/

/-- what the requests of a batch came to -/
structure ReqLists (ω : Type) where
  validReqs : List (Request ω)
  inValidReqs : List (Request ω)
  rejects : List Reject

/-- `requests[key].finalised`; a `None` raises where its first attribute is read -/
def finalisedReq (key : ReqKey) : ReplicaM ω σ τ (Request ω) := do
  let s ← get
  match s.node.requests.get? key with
  | none => throw .keyError
  | some state =>
    match state.finalised with
    | none => throw .attributeError
    | some req => pure req

/-- the digest of a batch -/
def batchDigest (reqs : List (Request ω)) : String := env.batchHash (reqs.map Request.digest)

/-- validate and apply one request (the master only) and record it as valid or not -/
def processReqDuringBatch (req : Request ω) (acc : ReqLists ω) : ReplicaM ω σ τ (ReqLists ω) := do
  let s ← get
  if s.isMaster then
    match s.node.dbs.doDynamicValidation env req with
    | some reason =>
      pure { acc with rejects := acc.rejects ++ [⟨req.identifier, req.reqId, reason⟩],
                      inValidReqs := acc.inValidReqs ++ [req] }
    | none => do
      modify fun s => s.setDbs (s.node.dbs.applyReq env req)
      pure { acc with validReqs := acc.validReqs ++ [req] }
  else pure { acc with validReqs := acc.validReqs ++ [req] }

/-- the loop of `create3PCBatch`: at most `n` more requests from the queue -/
def fillBatch (lid : LedgerId) : ℕ → ReqLists ω → ReplicaM ω σ τ (ReqLists ω)
  | 0, acc => pure acc
  | n + 1, acc => do
    let s ← get
    match s.requestQueues.get lid with
    | [] => pure acc
    | key :: rest => do
      modify fun s => s.setRequestQueue lid rest
      let req ← finalisedReq key
      let acc ← processReqDuringBatch env req acc
      fillBatch lid n acc

/-- the PRE-PREPARE of the requests `acc`: the valid ones first -/
def mkPrePrepare (s : Replica ω σ τ) (lid : LedgerId) (ppSeqNo : ℕ) (acc : ReqLists ω) : PrePrepare :=
  let reqs := acc.validReqs ++ acc.inValidReqs
  { instId := s.instId, viewNo := s.node.viewNo, ppSeqNo := ppSeqNo, ppTime := s.time,
    reqIdr := reqs.map Request.key, discarded := acc.validReqs.length, digest := batchDigest env reqs,
    ledgerId := lid, stateRootHash := s.stateRootHash env lid, txnRootHash := s.txnRootHash env lid }

def create3PCBatch (lid : LedgerId) : ReplicaM ω σ τ PrePrepare := do
  let s ← get
  let ppSeqNo := s.lastPrePrepareSeqNo + 1
  let acc ← fillBatch env lid env.max3PCBatchSize ⟨[], [], []⟩
  let s ← get
  let pp := mkPrePrepare env s lid ppSeqNo acc
  modify fun s => s.setLastPrePrepareSeqNo ppSeqNo
  modify fun s => s.appendOutBox (if s.isMaster then acc.rejects.map OutMsg.reject else [])
  pure pp

def sendPrePrepare (pp : PrePrepare) : ReplicaM ω σ τ Unit := do
  modify fun s => s.addSentPrePrepare pp
  send (.threePhase (.prePrepare pp))

/-- one round of `send3PCBatch`: a batch for the ledger if enough requests wait, or some wait long enough -/
def send3PCBatchFor (lid : LedgerId) : ReplicaM ω σ τ ℕ := do
  let s ← get
  let q := s.requestQueues.get lid
  if env.max3PCBatchSize ≤ q.length ∨ (s.lastBatchCreated + env.max3PCBatchWait < s.perfCounter ∧ 0 < q.length) then do
    let pp ← create3PCBatch env lid
    sendPrePrepare pp
    modify fun s' => s'.trackBatches pp (s.stateHead lid)
    pure 1
  else pure 0

def send3PCBatch : ReplicaM ω σ τ ℕ := do
  let r ← send3PCBatchFor env .pool
  let r' ← send3PCBatchFor env .domain
  if 0 < r + r' then do
    modify fun s => { s with lastBatchCreated := s.perfCounter }
    pure (r + r')
  else pure (r + r')

/-- a request key joins the queue of its ledger, unless it is there -/
def readyFor3PC (key : ReqKey) : ReplicaM ω σ τ Unit := do
  let req ← finalisedReq key
  let lid := env.ledgerIdForRequest req
  modify fun s => s.setRequestQueue lid (addKey (s.requestQueues.get lid) key)

/-! ## Waiting messages -/

def enqueuePrePrepare (pp : PrePrepare) (sender : RepName) (nonFinReqs : List ReqKey) : ReplicaM ω σ τ Unit :=
  modify fun s =>
    if nonFinReqs ≠ [] then
      { s with prePreparesPendingFinReqs := s.prePreparesPendingFinReqs ++ [(pp, sender, nonFinReqs)] }
    else { s with prePreparesPendingPrevPP := s.prePreparesPendingPrevPP.set pp.key (pp, sender) }

def enqueuePrepare (p : Prepare) (sender : RepName) : ReplicaM ω σ τ Unit :=
  modify fun s =>
    let waiting := (s.preparesWaitingForPrePrepare.get? p.key).getD []
    { s with preparesWaitingForPrePrepare := s.preparesWaitingForPrePrepare.set p.key (waiting ++ [(p, sender)]) }

def enqueueCommit (c : Commit) (sender : RepName) : ReplicaM ω σ τ Unit :=
  modify fun s =>
    let waiting := (s.commitsWaitingForPrepare.get? c.key).getD []
    { s with commitsWaitingForPrepare := s.commitsWaitingForPrepare.set c.key (waiting ++ [(c, sender)]) }

def stashOutsideWatermarks (m : ThreePhaseMsg) (sender : NodeName) : ReplicaM ω σ τ Unit :=
  modify fun s => { s with stashingWhileOutsideWaterMarks := s.stashingWhileOutsideWaterMarks ++ [(m, sender)] }

def stashCheckpoint (ck : Checkpoint) (sender : NodeName) : ReplicaM ω σ τ Unit :=
  modify fun s =>
    let key := (ck.seqNoStart, ck.seqNoEnd)
    let stashed := (s.stashedRecvdCheckpoints.get? key).getD Dict.empty
    { s with stashedRecvdCheckpoints := s.stashedRecvdCheckpoints.set key (stashed.set sender ck) }

/-! ## Validation of the 3-phase messages -/

def isPrimaryForMsg (viewNo : ℕ) : ReplicaM ω σ τ (Option Bool) := do
  let s ← get
  if viewNo = s.node.viewNo then pure s.isPrimary
  else
    match s.primaryNames.get? viewNo with
    | some p => pure (some (decide (p = some s.name)))
    | none => throw .keyError

/-- whether `ppSeqNo` can belong to the view -/
def canPpSeqNoBeInView (viewNo ppSeqNo : ℕ) : ReplicaM ω σ τ Bool := do
  let s ← get
  if s.node.viewNo < viewNo then throw .assertionError
  else pure (decide (viewNo = s.node.viewNo) || (s.viewEndsAt.get? viewNo).any (ppSeqNo ≤ ·))

/-- undo a batch: the state goes back to the given head, the ledger drops `reqCount` uncommitted transactions -/
def revert (lid : LedgerId) (stateRootHash : σ) (reqCount : ℕ) : ReplicaM ω σ τ Unit :=
  modify fun s => s.setDbs (s.node.dbs.revert env lid stateRootHash reqCount)

/-- the loop of `validatePrePrepare` -/
def processReqs : List ReqKey → ReqLists ω → ReplicaM ω σ τ (ReqLists ω)
  | [], acc => pure acc
  | key :: keys, acc => do
    let req ← finalisedReq key
    let acc ← processReqDuringBatch env req acc
    processReqs keys acc

/-- the master, which knows the old state root, reverts the batch -/
def revertBatch (pp : PrePrepare) (oldStateRoot : Option σ) (validCount : ℕ) : ReplicaM ω σ τ Unit :=
  match oldStateRoot with
  | some root => revert env pp.ledgerId root validCount
  | none => pure ()

def rejectPrePrepare (pp : PrePrepare) (sender : RepName) (oldStateRoot : Option σ) (validCount : ℕ)
    (suspicion : Suspicion) : ReplicaM ω σ τ Unit := do
  revertBatch env pp oldStateRoot validCount
  throw (.suspiciousNode sender suspicion (.prePrepare pp))

/-- apply the requests of the batch and compare what they came to with what the PRE-PREPARE says -/
def validatePrePrepare (pp : PrePrepare) (sender : RepName) : ReplicaM ω σ τ Unit := do
  let s ← get
  let oldStateRoot := s.stateHead pp.ledgerId
  let acc ← processReqs env pp.reqIdr ⟨[], [], []⟩
  let reject := rejectPrePrepare env pp sender oldStateRoot acc.validReqs.length
  if acc.validReqs.length ≠ pp.discarded then reject .PPR_REJECT_WRONG
  else if batchDigest env (acc.validReqs ++ acc.inValidReqs) ≠ pp.digest then reject .PPR_DIGEST_WRONG
  else do
    let s ← get
    if s.isMaster then
      if pp.stateRootHash ≠ s.stateRootHash env pp.ledgerId then reject .PPR_STATE_WRONG
      else if pp.txnRootHash ≠ s.txnRootHash env pp.ledgerId then reject .PPR_TXN_WRONG
      else modify fun s => s.appendOutBox (acc.rejects.map OutMsg.reject)
    else pure ()

def canProcessPrePrepare (pp : PrePrepare) (sender : RepName) : ReplicaM ω σ τ Bool := do
  let s ← get
  if ! s.isMsgFromPrimary sender then throw (.suspiciousNode sender .PPR_FRM_NON_PRIMARY (.prePrepare pp))
  else do
    let primaryStatus ← isPrimaryForMsg pp.viewNo
    if primaryStatus = some true then throw (.suspiciousNode sender .PPR_TO_PRIMARY (.prePrepare pp))
    else if s.prePrepares.contains pp.key then throw (.suspiciousNode sender .DUPLICATE_PPR_SENT (.prePrepare pp))
    else if ! s.node.isParticipating then pure true
    else if s.nonFinalisedReqs pp.reqIdr ≠ [] then do
      enqueuePrePrepare pp sender (s.nonFinalisedReqs pp.reqIdr)
      pure false
    else if ! s.isNextPrePrepare pp.ppSeqNo then do
      enqueuePrePrepare pp sender []
      pure false
    else do
      validatePrePrepare env pp sender
      pure true

def validatePrepare (p : Prepare) (sender : RepName) : ReplicaM ω σ τ Bool := do
  let primaryStatus ← isPrimaryForMsg p.viewNo
  let s ← get
  if s.isMsgFromPrimary sender then throw (.suspiciousNode sender .PR_FRM_PRIMARY (.prepare p))
  else if primaryStatus.isSome ∧ Prepares.hasPrepareFrom s.prepares p sender then
    throw (.suspiciousNode sender .DUPLICATE_PR_SENT (.prepare p))
  else
    match s.getPrePrepare p.key with
    | none =>
      -- the primary sent no such PRE-PREPARE; another replica may not have got it yet
      if primaryStatus = some true then throw (.suspiciousNode sender .UNKNOWN_PR_SENT (.prepare p))
      else do
        enqueuePrepare p sender
        pure false
    | some pp =>
      if p.digest ≠ pp.digest then throw (.suspiciousNode sender .PR_DIGEST_WRONG (.prepare p))
      else if p.stateRootHash ≠ pp.stateRootHash then throw (.suspiciousNode sender .PR_STATE_WRONG (.prepare p))
      else if p.txnRootHash ≠ pp.txnRootHash then throw (.suspiciousNode sender .PR_TXN_WRONG (.prepare p))
      else pure true

def validateCommit (c : Commit) (sender : RepName) : ReplicaM ω σ τ Bool := do
  let s ← get
  match s.getPrePrepare c.key with
  | none => do
    enqueueCommit c sender
    pure false
  | some _ =>
    if ! s.prepares.contains c.key && ! s.preparesWaitingForPrePrepare.contains c.key then pure false
    else if Commits.hasCommitFrom s.commits c sender then
      throw (.suspiciousNode sender .DUPLICATE_CM_SENT (.commit c))
    else pure true

/-- whether the batch of a COMMIT can be ordered now; one that is out of order is stashed -/
def canOrder (c : Commit) : ReplicaM ω σ τ Bool := do
  let s ← get
  if ! Commits.hasQuorum s.commits c s.node.f then pure false
  else if s.hasOrdered c.key then pure false
  else if ! s.allPrevOrdered c then do
    modify fun s =>
      let stashed := (s.stashedOutOfOrderCommits.get? c.viewNo).getD Dict.empty
      { s with stashedOutOfOrderCommits := s.stashedOutOfOrderCommits.set c.viewNo (stashed.set c.ppSeqNo c),
               actions := s.actions.startRepeating s.perfCounter .processStashedOutOfOrderCommits env.second }
    pure false
  else pure true

/-! ## Checkpoints -/

section Dispatch

variable (fuel : ℕ) (dispatch : ThreePhaseMsg → NodeName → ReplicaM ω σ τ Unit)

/-- the loop of `gc` over the requests: one replica fewer needs each -/
def releaseReqs : List ReqKey → ReplicaM ω σ τ Unit
  | [] => pure ()
  | k :: ks => do
    let s ← get
    match s.node.requests.release k with
    | none => throw .keyError
    | some requests => do
      modify fun s => s.setRequests requests
      releaseReqs ks

/-- forget the 3-phase data of the batches up to `tillSeqNo` -/
def gcTpc (tillSeqNo : ℕ) (s : Replica ω σ τ) : Replica ω σ τ :=
  let tpcKeys := s.gcKeys tillSeqNo
  { s with sentPrePrepares := s.sentPrePrepares.eraseAll tpcKeys, prePrepares := s.prePrepares.eraseAll tpcKeys,
           prepares := Dict.eraseAll s.prepares tpcKeys, commits := Dict.eraseAll s.commits tpcKeys }

def gc (tillSeqNo : ℕ) : ReplicaM ω σ τ Unit := do
  let s ← get
  modify fun s => gcTpc tillSeqNo s
  releaseReqs (s.gcReqKeys tillSeqNo)

/-- `itemsToConsume` more messages from the stash -/
def consumeStashedMsgs : ℕ → ReplicaM ω σ τ Unit
  | 0 => pure ()
  | n + 1 => do
    let s ← get
    match s.stashingWhileOutsideWaterMarks with
    | [] => throw .indexError
    | (m, sender) :: rest => do
      modify fun s => { s with stashingWhileOutsideWaterMarks := rest }
      dispatch m sender
      consumeStashedMsgs n

def processStashedMsgsForNewWaterMarks : ReplicaM ω σ τ Unit := do
  let s ← get
  consumeStashedMsgs dispatch s.stashingWhileOutsideWaterMarks.length

/-- make the checkpoint of `key` stable, with the watermark at `seqNo`, and drop the checkpoints before it -/
def stabilise (key : CkKey) (state : CheckpointState) (previous : List CkKey) (seqNo : ℕ) (s : Replica ω σ τ) :
    Replica ω σ τ :=
  { s.setH env seqNo with checkpoints := (s.checkpoints.set key { state with isStable := true }).eraseAll previous }

def markCheckPointStable (seqNo : ℕ) : ReplicaM ω σ τ Unit := do
  let s ← get
  let previous := s.checkpoints.entries.takeWhile fun e => e.1.2 ≠ (seqNo : ℤ)
  match s.checkpoints.entries.find? fun e => e.1.2 = (seqNo : ℤ) with
  | none => pure ()
  | some (key, state) => do
    modify fun s => stabilise env key state (previous.map Prod.fst) seqNo s
    gc seqNo
    processStashedMsgsForNewWaterMarks dispatch

def checkIfCheckpointStable (key : CkKey) : ReplicaM ω σ τ Unit := do
  let s ← get
  match s.checkpoints.get? key with
  | none => throw .keyError
  | some ck =>
    if ck.receivedDigests.size = 2 * s.node.f then markCheckPointStable env dispatch ck.seqNo
    else pure ()

def processCheckpoint (ck : Checkpoint) (sender : NodeName) : ReplicaM ω σ τ Unit := do
  let s ← get
  if s.isPpSeqNoStable ck.seqNoEnd then pure ()
  else
    let key := (ck.seqNoStart, ck.seqNoEnd)
    match s.checkpoints.get? key with
    | none => stashCheckpoint ck sender
    | some state =>
      match state.digest with
      | none => stashCheckpoint ck sender
      | some digest =>
        if digest = ck.digest then do
          let state := { state with receivedDigests := state.receivedDigests.set sender ck.digest }
          modify fun s => { s with checkpoints := s.checkpoints.set key state }
          checkIfCheckpointStable env dispatch key
        else pure ()

def processStashedCheckpoints (key : CkKey) : ReplicaM ω σ τ Unit := do
  let s ← get
  match s.stashedRecvdCheckpoints.get? key with
  | none => pure ()
  | some cks => cks.entries.forM fun e => processCheckpoint env dispatch e.2 e.1

/-- the checkpoint that the batch belongs to, with the digest of the batch added -/
def extendCheckpoint (ppSeqNo : ℕ) (digest : String) (s : Replica ω σ τ) : CkKey × CheckpointState :=
  match s.checkpoints.entries.find? fun e => e.1.1 ≤ (ppSeqNo : ℤ) ∧ (ppSeqNo : ℤ) ≤ e.1.2 with
  | some (key, state) => (key, { state with digests := state.digests ++ [digest], seqNo := ppSeqNo })
  | none => (((ppSeqNo : ℤ), (ppSeqNo : ℤ) + env.CHK_FREQ - 1), ⟨ppSeqNo, [digest], none, Dict.empty, false⟩)

def addToCheckpoint (ppSeqNo : ℕ) (digest : String) : ReplicaM ω σ τ Unit := do
  let s ← get
  let (key, state) := extendCheckpoint env ppSeqNo digest s
  if state.digests.length = env.CHK_FREQ then do
    let ckDigest := env.checkpointHash state.digests
    modify fun s =>
      { s with checkpoints := s.checkpoints.set key { state with digest := some ckDigest, digests := [] },
               outBox := s.outBox ++ [.checkpoint ⟨s.instId, s.node.viewNo, key.1, key.2, ckDigest⟩] }
    processStashedCheckpoints env dispatch key
  else modify fun s => { s with checkpoints := s.checkpoints.set key state }

/-! ## Ordering -/

/-- apply the requests of a batch that arrived while the node was catching up -/
def applyReqs : List ReqKey → ReplicaM ω σ τ Unit
  | [] => pure ()
  | key :: keys => do
    let req ← finalisedReq key
    modify fun s => s.setDbs (s.node.dbs.applyReq env req)
    applyReqs keys

/-- a batch that arrived while the node was catching up is no longer stashed; the master applies it -/
def unstashCaughtUp (key : TPCKey) (pp : PrePrepare) : ReplicaM ω σ τ Unit := do
  let s ← get
  if s.isStashedWhileCatchingUp key then do
    if s.isMaster && s.node.isParticipating then applyReqs env (pp.reqIdr.take pp.discarded) else pure ()
    modify fun s => { s with stashingWhileCatchingUp := s.stashingWhileCatchingUp.filter (· ≠ key) }
  else pure ()

def doOrder (c : Commit) : ReplicaM ω σ τ Unit := do
  let s ← get
  match s.getPrePrepare c.key with
  | none => throw .assertionError
  | some pp => do
    modify fun s => s.addToOrdered c.key
    unstashCaughtUp env c.key pp
    modify fun s => s.setRequestQueue pp.ledgerId (discardKeys (s.requestQueues.get pp.ledgerId) pp.reqIdr)
    modify fun s => s.appendOutBox [.ordered (pp.toOrdered s.instId)]
    addToCheckpoint env dispatch pp.ppSeqNo pp.digest

def tryOrder (c : Commit) : ReplicaM ω σ τ Bool := do
  let canOrder ← canOrder env c
  if canOrder then do
    doOrder env dispatch c
    pure true
  else pure false

/-! ## Votes -/

def addToCommits (c : Commit) (sender : RepName) : ReplicaM ω σ τ Unit := do
  modify fun s => { s with commits := s.commits.addMsg c.key sender }
  let _ ← tryOrder env dispatch c

def doCommit (p : Prepare) : ReplicaM ω σ τ Unit := do
  let s ← get
  let commit : Commit := ⟨s.instId, p.viewNo, p.ppSeqNo⟩
  send (.threePhase (.commit commit))
  addToCommits env dispatch commit s.name

def tryCommit (p : Prepare) : ReplicaM ω σ τ Unit := do
  let s ← get
  if s.canCommit p then doCommit env dispatch p else pure ()

def addToPrepares (p : Prepare) (sender : RepName) : ReplicaM ω σ τ Unit := do
  modify fun s => { s with prepares := s.prepares.addMsg p.key sender }
  tryCommit env dispatch p

def doPrepare (pp : PrePrepare) : ReplicaM ω σ τ Unit := do
  let s ← get
  send (.threePhase (.prepare (pp.prepare s.instId)))
  addToPrepares env dispatch (pp.prepare s.instId) s.name

def tryPrepare (pp : PrePrepare) : ReplicaM ω σ τ Unit := do
  let s ← get
  if s.canPrepare pp then doPrepare env dispatch pp else pure ()

/-! ## Processing the 3-phase messages -/

def processPrepare (p : Prepare) (sender : RepName) : ReplicaM ω σ τ Unit := do
  let s ← get
  if s.isPpSeqNoStable p.ppSeqNo then pure ()
  else
    reportingSuspicions do
      let valid ← validatePrepare p sender
      if valid then addToPrepares env dispatch p sender else pure ()

def processCommit (c : Commit) (sender : RepName) : ReplicaM ω σ τ Unit := do
  let s ← get
  if s.isPpSeqNoStable c.ppSeqNo then pure ()
  else do
    let valid ← validateCommit c sender
    if valid then addToCommits env dispatch c sender else pure ()

/-- the `while` loop of `dequeuePrepares` -/
def drainPrepares (key : TPCKey) : ℕ → ReplicaM ω σ τ Unit
  | 0 => throw .outOfFuel
  | n + 1 => do
    let s ← get
    match s.preparesWaitingForPrePrepare.get? key with
    | none => throw .keyError
    | some [] => pure ()
    | some ((p, sender) :: rest) => do
      modify fun s =>
        { s with preparesWaitingForPrePrepare := s.preparesWaitingForPrePrepare.set key rest }
      processPrepare env dispatch p sender
      drainPrepares key n

def dequeuePrepares (key : TPCKey) : ReplicaM ω σ τ Unit := do
  let s ← get
  if s.preparesWaitingForPrePrepare.contains key then do
    drainPrepares env dispatch key fuel
    modify fun s => { s with preparesWaitingForPrePrepare := s.preparesWaitingForPrePrepare.erase key }
  else pure ()

/-- the `while` loop of `dequeueCommits` -/
def drainCommits (key : TPCKey) : ℕ → ReplicaM ω σ τ Unit
  | 0 => throw .outOfFuel
  | n + 1 => do
    let s ← get
    match s.commitsWaitingForPrepare.get? key with
    | none => throw .keyError
    | some [] => pure ()
    | some ((c, sender) :: rest) => do
      modify fun s => { s with commitsWaitingForPrepare := s.commitsWaitingForPrepare.set key rest }
      processCommit env dispatch c sender
      drainCommits key n

def dequeueCommits (key : TPCKey) : ReplicaM ω σ τ Unit := do
  let s ← get
  if s.commitsWaitingForPrepare.contains key then do
    drainCommits env dispatch key fuel
    modify fun s => { s with commitsWaitingForPrepare := s.commitsWaitingForPrepare.erase key }
  else pure ()

/-- take a PRE-PREPARE in, with the votes that waited for it, and try to send the PREPARE -/
def addToPrePrepares (pp : PrePrepare) : ReplicaM ω σ τ Unit := do
  modify fun s => s.addPrePrepare pp
  modify fun s => s.setLastPrePrepareSeqNo pp.ppSeqNo
  dequeuePrepares env fuel dispatch pp.key
  dequeueCommits env fuel dispatch pp.key
  tryPrepare env dispatch pp

def processPrePrepare (pp : PrePrepare) (sender : RepName) : ReplicaM ω σ τ Unit := do
  let s ← get
  let oldStateRoot := s.stateHead pp.ledgerId
  let canProcess ← canProcessPrePrepare env pp sender
  if canProcess then do
    addToPrePrepares env fuel dispatch pp
    let s ← get
    if ! s.node.isParticipating then
      modify fun s => { s with stashingWhileCatchingUp := s.stashingWhileCatchingUp ++ [pp.key] }
    else modify fun s => s.trackBatches pp oldStateRoot
  else pure ()

/-- the router of the 3-phase messages -/
def threePhaseRouter (m : ThreePhaseMsg) (sender : RepName) : ReplicaM ω σ τ Unit :=
  match m with
  | .prePrepare pp => processPrePrepare env fuel dispatch pp sender
  | .prepare p => processPrepare env dispatch p sender
  | .commit c => processCommit env dispatch c sender

/-- one dispatch, with `dispatch` for the dispatches nested in it -/
def dispatchOnce (m : ThreePhaseMsg) (sender : NodeName) : ReplicaM ω σ τ Unit := do
  let s ← get
  if s.isPpSeqNoStable m.ppSeqNo then pure ()
  else if s.isPpSeqNoBetweenWaterMarks m.ppSeqNo then
    reportingSuspicions do
      let inView ← canPpSeqNoBeInView m.viewNo m.ppSeqNo
      if inView then threePhaseRouter env fuel dispatch m (generateName sender s.instId) else pure ()
  else stashOutsideWatermarks m sender

end Dispatch

/-- dispatch a 3-phase message, with dispatches nested at most `depth` deep -/
def dispatchThreePhaseMsg (fuel : ℕ) : ℕ → ThreePhaseMsg → NodeName → ReplicaM ω σ τ Unit
  | 0 => fun _ _ => throw .outOfFuel
  | depth + 1 => dispatchOnce env fuel (dispatchThreePhaseMsg fuel depth)

/-! ## Servicing the queues -/

section Service

variable (fuel : ℕ)

/-- messages wait for the election of a primary -/
def processThreePhaseMsg (m : ThreePhaseMsg) (sender : NodeName) : ReplicaM ω σ τ Unit := do
  let s ← get
  if s.isPrimary = none then modify fun s => { s with postElectionMsgs := s.postElectionMsgs ++ [(m, sender)] }
  else dispatchThreePhaseMsg env fuel fuel m sender

/-- the router of the inbox -/
def inBoxRouter : InMsg → ReplicaM ω σ τ Unit
  | .reqKey k => readyFor3PC env k
  | .threePhase m sender => processThreePhaseMsg env fuel m sender
  | .checkpoint ck sender => processCheckpoint env (dispatchThreePhaseMsg env fuel fuel) ck sender

/-- at most `n` messages from the inbox; returns how many were handled -/
def handleInBox : ℕ → ReplicaM ω σ τ ℕ
  | 0 => pure 0
  | n + 1 => do
    let s ← get
    match s.inBox with
    | [] => pure 0
    | m :: rest => do
      modify fun s => { s with inBox := rest }
      inBoxRouter env fuel m
      let r ← handleInBox n
      pure (r + 1)

/-- no handler adds to the inbox, so its length bounds the rounds; a limit of `0` is no limit -/
def handleAllSync (limit : Option ℕ) : ReplicaM ω σ τ ℕ := do
  let s ← get
  let count := s.inBox.length
  handleInBox env fuel (match limit with
    | none | some 0 => count
    | some l => min l count)

/-- the PRE-PREPAREs whose requests are all finalised now go to those that wait for earlier ones -/
def movePrePreparesReady (s : Replica ω σ τ) : Replica ω σ τ :=
  let pending := s.prePreparesPendingFinReqs.map fun e => (e.1, e.2.1, s.nonFinalisedReqs e.2.2)
  let ready := pending.filter fun e => e.2.2 = []
  { s with
    prePreparesPendingFinReqs := pending.filter fun e => e.2.2 ≠ [],
    prePreparesPendingPrevPP := ready.reverse.foldl (fun d e => d.set e.1.key (e.1, e.2.1)) s.prePreparesPendingPrevPP }

/-- the `while` loop of `dequeuePrePrepares` -/
def drainPrePrepares : ℕ → ReplicaM ω σ τ ℕ
  | 0 => throw .outOfFuel
  | n + 1 => do
    let s ← get
    match s.prePreparesPendingPrevPP.first? with
    | none => pure 0
    | some (key, pp, sender) =>
      if s.isNextPrePrepare key.2 then do
        modify fun s => { s with prePreparesPendingPrevPP := s.prePreparesPendingPrevPP.erase key }
        let inView ← canPpSeqNoBeInView pp.viewNo pp.ppSeqNo
        if inView then do
          processPrePrepare env fuel (dispatchThreePhaseMsg env fuel fuel) pp sender
          let r ← drainPrePrepares n
          pure (r + 1)
        else drainPrePrepares n
      else pure 0

def dequeuePrePrepares : ReplicaM ω σ τ ℕ := do
  modify movePrePreparesReady
  drainPrePrepares env fuel fuel

/-- one stashed commit: `true` if it is ordered by now, with the last ordered key after it -/
def orderStashedCommit (v p : ℕ) (lastOrdered : TPCKey) : ReplicaM ω σ τ (Bool × TPCKey) := do
  let s ← get
  match (s.stashedOutOfOrderCommits.get? v).bind (Dict.get? · p) with
  | none => throw .keyError
  | some c =>
    if s.hasOrdered (v, p) then pure (true, lastOrdered)
    else if (v = lastOrdered.1 ∧ lastOrdered.2 + 1 = p) ∨ (lastOrdered.1 < v ∧ s.isLowestCommitInView c) then do
      let done ← tryOrder env (dispatchThreePhaseMsg env fuel fuel) c
      pure (done, if done then (v, p) else lastOrdered)
    else pure (false, lastOrdered)

/-- the walk over the stashed commits of view `v`, of which there were `size` at the start -/
def orderStashedInView (v size : ℕ) : List ℕ → TPCKey → ReplicaM ω σ τ (List ℕ × TPCKey)
  | [], lastOrdered => pure ([], lastOrdered)
  | p :: ps, lastOrdered => do
    let (done, lastOrdered) ← orderStashedCommit env fuel v p lastOrdered
    let s ← get
    if ((s.stashedOutOfOrderCommits.get? v).getD Dict.empty).size ≠ size then throw .runtimeError
    else do
      let (pToRemove, lastOrdered) ← orderStashedInView v size ps lastOrdered
      pure (if done then p :: pToRemove else pToRemove, lastOrdered)

/-- the walk over the views of the stashed commits, of which there were `size` at the start -/
def orderStashedInViews (size : ℕ) : List ℕ → TPCKey → ReplicaM ω σ τ (List ℕ)
  | [], _ => pure []
  | v :: vs, lastOrdered => do
    let s ← get
    let commits := (s.stashedOutOfOrderCommits.get? v).getD Dict.empty
    if v < lastOrdered.1 ∧ commits.size ≠ 0 then throw .runtimeError
    else do
      let (pToRemove, lastOrdered) ← orderStashedInView env fuel v commits.size commits.keys lastOrdered
      let s ← get
      let commits := ((s.stashedOutOfOrderCommits.get? v).getD Dict.empty).eraseAll pToRemove
      modify fun s => { s with stashedOutOfOrderCommits := s.stashedOutOfOrderCommits.set v commits }
      if s.stashedOutOfOrderCommits.size ≠ size then throw .runtimeError
      else do
        let vToRemove ← orderStashedInViews size vs lastOrdered
        pure (if commits.size = 0 then v :: vToRemove else vToRemove)

def processStashedOutOfOrderCommits : ReplicaM ω σ τ Unit := do
  let s ← get
  match s.ordered.getLast? with
  | none => pure ()
  | some lastOrdered => do
    let vToRemove ← orderStashedInViews env fuel s.stashedOutOfOrderCommits.size s.stashedOutOfOrderCommits.keys
      lastOrdered
    modify fun s => { s with stashedOutOfOrderCommits := s.stashedOutOfOrderCommits.eraseAll vToRemove }
    let s ← get
    if s.stashedOutOfOrderCommits.size = 0 then
      match s.actions.stopRepeating .processStashedOutOfOrderCommits with
      | none => throw .keyError
      | some actions => modify fun s => { s with actions := actions }
    else pure ()

/-- a repeating action: run it and schedule it again -/
def runRepeating (a : ReplicaAction) : ReplicaM ω σ τ Unit := do
  let s ← get
  if a ∈ s.actions.repeatingActions then do
    match a with
    | .processStashedOutOfOrderCommits => processStashedOutOfOrderCommits env fuel
    modify fun s => { s with actions := s.actions.schedule s.perfCounter a env.second }
  else pure ()

/-- the loop of `_serviceActions`; a repeating action goes to the stash, so it is not run twice in one call -/
def runActions : ℕ → ReplicaM ω σ τ Unit
  | 0 => pure ()
  | n + 1 => do
    let s ← get
    match s.actions.actionQueue with
    | [] => pure ()
    | (a, _) :: rest => do
      modify fun s => { s with actions := { s.actions with actionQueue := rest } }
      runRepeating env fuel a
      runActions n

def serviceActions : ReplicaM ω σ τ ℕ := do
  modify fun s => { s with actions := s.actions.moveDue s.perfCounter }
  let s ← get
  let count := s.actions.actionQueue.length
  runActions env fuel count
  pure count

def serviceQueues (limit : Option ℕ) : ReplicaM ω σ τ ℕ := do
  let s ← get
  let r ← (if s.node.isParticipating then dequeuePrePrepares env fuel else pure 0)
  let r1 ← handleAllSync env fuel limit
  let s ← get
  let r2 ← (if s.isPrimary = some true ∧ s.node.isParticipating then send3PCBatch env else pure 0)
  let r3 ← serviceActions env fuel
  pure (r + r1 + r2 + r3)

end Service

end Plenum.Replica
