/-
The ledger manager of a node: how the node finds out that its ledgers are behind, and how it catches up.

- `LedgerManager O τ`: the manager with its owner, a node of which only what the manager uses is known
  (`LedgerOwner`); `O` is the state of the owner, `τ` the transactions. The callbacks that a node registers are written
  out as far as they reach back into the manager (`postPoolLedgerCaughtUp`); what else they do is the owner's.
- Both ledgers are registered. Hash functions, the verification of consistency proofs and the number behind a string
  (`int`) are fields of `LedgerEnv`.
- `verdicts` is a history: what `canStartCatchUpProcess` has returned; no definition reads it.
- `checkIfTxnsNeeded`, which only asks other nodes for transactions again, is only scheduled here; its requests are in
  `Common/MissingTxns.lean`.
-/
import Mathlib.Tactic
import Plenum.Core.Dict
import Plenum.Core.Exec
import Plenum.Common.Util
import Plenum.Common.Ledger
import Plenum.Server.HasActionQueue

namespace Plenum

open Plenum.Core

/-! ## Messages -/

structure LedgerStatus where
  ledgerId : LedgerId
  txnSeqNo : ℕ
  merkleRoot : String
deriving DecidableEq, Repr

structure ConsistencyProof where
  ledgerId : LedgerId
  seqNoStart : ℕ
  seqNoEnd : ℕ
  ppSeqNo : ℕ
  oldMerkleRoot : String
  newMerkleRoot : String
  hashes : List String
deriving DecidableEq, Repr

/-- what two proofs for one range have to agree in to be counted together -/
structure ProofKey where
  ppSeqNo : ℕ
  oldMerkleRoot : String
  newMerkleRoot : String
  hashes : List String
deriving DecidableEq, Repr

namespace ConsistencyProof

def range (p : ConsistencyProof) : ℕ × ℕ := (p.seqNoStart, p.seqNoEnd)

def key (p : ConsistencyProof) : ProofKey := ⟨p.ppSeqNo, p.oldMerkleRoot, p.newMerkleRoot, p.hashes⟩

def ofKey (lid : LedgerId) (range : ℕ × ℕ) (key : ProofKey) : ConsistencyProof :=
  ⟨lid, range.1, range.2, key.ppSeqNo, key.oldMerkleRoot, key.newMerkleRoot, key.hashes⟩

end ConsistencyProof

structure CatchupReq where
  ledgerId : LedgerId
  seqNoStart : ℤ
  seqNoEnd : ℤ
  catchupTill : ℕ
deriving DecidableEq, Repr

/-- the transactions by their sequence numbers, which are strings in the message -/
structure CatchupRep (τ : Type) where
  ledgerId : LedgerId
  txns : Dict String τ
  consProof : List String

structure ConsProofRequest where
  ledgerId : LedgerId
  seqNoStart : ℕ
  seqNoEnd : ℕ
deriving DecidableEq, Repr

inductive LedgerMsg where
  | status (m : LedgerStatus)
  | proof (m : ConsistencyProof)
  | catchupReq (m : CatchupReq)
  | consProofReq (m : ConsProofRequest)
deriving DecidableEq, Repr

/-! ## State -/

inductive LedgerState where
  | notSynced
  | syncing
  | synced
deriving DecidableEq, Repr

/-- a sequence number and a transaction -/
abbrev CatchupTxn (τ : Type) := ℤ × τ

structure LedgerInfo (τ : Type) where
  state : LedgerState
  canSync : Bool
  stashedLedgerStatuses : List (LedgerStatus × NodeName)
  ledgerStatusOk : Finset NodeName
  /-- `none` from a node that is at the same state -/
  recvdConsistencyProofs : Dict NodeName (Option ConsistencyProof)
  catchUpTill : Option ConsistencyProof
  receivedCatchUpReplies : List (CatchupTxn τ)
  recvdCatchupRepliesFrm : Dict NodeName (List (CatchupRep τ))
  consistencyProofsTimer : Option ℕ
  catchupReplyTimer : Option ℕ

def LedgerInfo.init {τ : Type} : LedgerInfo τ where
  state := .notSynced
  canSync := false
  stashedLedgerStatuses := []
  ledgerStatusOk := ∅
  recvdConsistencyProofs := Dict.empty
  catchUpTill := none
  receivedCatchUpReplies := []
  recvdCatchupRepliesFrm := Dict.empty
  consistencyProofsTimer := none
  catchupReplyTimer := none

inductive LedgerAction where
  | checkIfCPsNeeded (ledgerId : LedgerId)
  | checkIfTxnsNeeded (ledgerId : LedgerId)
deriving DecidableEq, Repr

structure LedgerManager (O τ : Type) where
  owner : O
  ledgerRegistry : PerLedger (LedgerInfo τ)
  lastCaughtUpPpSeqNo : ℤ
  actions : ActionQueue LedgerAction
  perfCounter : ℕ
  /-- what it has sent, and to whom; `none` is everybody -/
  outBox : List (LedgerMsg × Option NodeName)
  verdicts : List (LedgerId × Bool × Option ConsistencyProof)

/-- hashes, proofs and times; times are counted in clock ticks -/
structure LedgerEnv (τ : Type) where
  merkleRoot : List τ → String
  consistencyProof : List τ → ℕ → ℕ → List String
  /-- whether the tree of the first size and root is shown to be a prefix of the second; an exception counts as no -/
  verifyTreeConsistency : ℕ → ℕ → String → String → List String → Bool
  /-- the number that a string stands for; `none` if it raises -/
  int : String → Option ℤ
  transformTxnForLedger : τ → τ
  withSeqNo : τ → ℕ → τ
  consistencyProofsTimeout : ℕ
  catchupTimeout : ℕ → ℤ → ℕ

/-- what the manager uses of the node that owns it -/
structure LedgerOwner (O τ : Type) where
  totalNodes : ℕ
  f : ℕ
  isClient : NodeName → Bool
  conns : O → List NodeName
  connecteds : O → List NodeName
  ppSeqNoForTxnSeqNo : O → LedgerId → ℕ → ℕ
  ledgers : O → PerLedger (Ledger τ)
  setLedgers : O → PerLedger (Ledger τ) → O
  blacklistNode : O → NodeName → O
  preDomainLedgerCatchUp : O → O
  /-- what `postPoolLedgerCaughtUp` does before it goes on to the domain ledger -/
  poolLedgerCaughtUp : Exec Exn O Unit
  postTxnFromCatchupAddedToLedger : LedgerId → τ → Exec Exn O Unit
  allLedgersCaughtUp : ℤ → Exec Exn O Unit
  ledgers_setLedgers : ∀ o l, ledgers (setLedgers o l) = l
  ledgers_blacklistNode : ∀ o i, ledgers (blacklistNode o i) = ledgers o
  ledgers_preDomainLedgerCatchUp : ∀ o, ledgers (preDomainLedgerCatchUp o) = ledgers o
  ledgers_poolLedgerCaughtUp : ∀ o, ledgers (Exec.exec poolLedgerCaughtUp o).2 = ledgers o
  ledgers_postTxn : ∀ lid txn o, ledgers (Exec.exec (postTxnFromCatchupAddedToLedger lid txn) o).2 = ledgers o

/-- the methods of a ledger manager -/
abbrev LedgerManagerM (O τ : Type) := Exec Exn (LedgerManager O τ)

namespace LedgerManager

variable {O τ : Type} (env : LedgerEnv τ) (own : LedgerOwner O τ)

/-- a new manager of a node -/
def init (owner : O) : LedgerManager O τ where
  owner := owner
  ledgerRegistry := ⟨LedgerInfo.init, LedgerInfo.init⟩
  lastCaughtUpPpSeqNo := -1
  actions := ActionQueue.empty
  perfCounter := 0
  outBox := []
  verdicts := []

/-! ## Reading and writing -/

section Access

variable (s : LedgerManager O τ)

def ledgerInfo (lid : LedgerId) : LedgerInfo τ := s.ledgerRegistry.get lid

def ledger (lid : LedgerId) : Ledger τ := (own.ledgers s.owner).get lid

def ledgerSize (lid : LedgerId) : ℕ := (s.ledger own lid).txns.length

def setLedgerInfo (lid : LedgerId) (info : LedgerInfo τ) : LedgerManager O τ :=
  { s with ledgerRegistry := s.ledgerRegistry.set lid info }

def setOwner (o : O) : LedgerManager O τ := { s with owner := o }

@[simp] theorem ledgerInfo_setLedgerInfo (lid lid' : LedgerId) (info : LedgerInfo τ) :
    (s.setLedgerInfo lid info).ledgerInfo lid' = if lid' = lid then info else s.ledgerInfo lid' :=
  PerLedger.get_set s.ledgerRegistry lid lid' info

@[simp] theorem ledgerInfo_setOwner (lid : LedgerId) (o : O) : (s.setOwner o).ledgerInfo lid = s.ledgerInfo lid := rfl

@[simp] theorem ledger_setLedgerInfo (lid lid' : LedgerId) (info : LedgerInfo τ) :
    (s.setLedgerInfo lid info).ledger own lid' = s.ledger own lid' := rfl

end Access

def modifyLedgerInfo (lid : LedgerId) (g : LedgerInfo τ → LedgerInfo τ) : LedgerManagerM O τ Unit :=
  modify fun s => s.setLedgerInfo lid (g (s.ledgerInfo lid))

/-- run a method of the owner -/
def callOwner (m : Exec Exn O Unit) : LedgerManagerM O τ Unit := do
  let s ← get
  let r := Exec.exec m s.owner
  modify fun s => s.setOwner r.2
  match r.1 with
  | .ok _ => pure ()
  | .error e => throw e

def sendTo (msg : LedgerMsg) (receiver : Option NodeName) : LedgerManagerM O τ Unit :=
  modify fun s => { s with outBox := s.outBox ++ [(msg, receiver)] }

def schedule (action : LedgerAction) (ticks : ℕ) : LedgerManagerM O τ Unit :=
  modify fun s => { s with actions := s.actions.schedule s.perfCounter action ticks }

def setLedgerState (lid : LedgerId) (state : LedgerState) : LedgerManagerM O τ Unit :=
  modifyLedgerInfo lid fun info => { info with state := state }

def setLedgerCanSync (lid : LedgerId) (canSync : Bool) : LedgerManagerM O τ Unit :=
  modifyLedgerInfo lid fun info => { info with canSync := canSync }

def stashLedgerStatus (lid : LedgerId) (status : LedgerStatus) (frm : NodeName) : LedgerManagerM O τ Unit :=
  modifyLedgerInfo lid fun info => { info with stashedLedgerStatuses := info.stashedLedgerStatuses ++ [(status, frm)] }

/-- the own status of a ledger -/
def ownStatus (s : LedgerManager O τ) (lid : LedgerId) : LedgerStatus :=
  ⟨lid, s.ledgerSize own lid, env.merkleRoot (s.ledger own lid).txns⟩

/-! ## Completing a catch-up -/

/-- `catchupCompleted` with the callback of the ledger -/
def completeCatchup (postCatchupComplete : LedgerManagerM O τ Unit) (lid : LedgerId) (lastPpSeqNo : ℤ) :
    LedgerManagerM O τ Unit := do
  modify fun s => { s with lastCaughtUpPpSeqNo := max s.lastCaughtUpPpSeqNo lastPpSeqNo }
  modifyLedgerInfo lid fun info =>
    { info with catchupReplyTimer := none, canSync := false, state := .synced, ledgerStatusOk := ∅,
                recvdConsistencyProofs := Dict.empty }
  postCatchupComplete
  let s ← get
  if (s.ledgerInfo .pool).state = .synced ∧ (s.ledgerInfo .domain).state = .synced then
    callOwner (own.allLedgersCaughtUp s.lastCaughtUpPpSeqNo)
  else pure ()

/-- the proof that the tree of the first `seqNoStart` transactions is a prefix of that of the first `seqNoEnd` -/
def buildConsistencyProof (lid : LedgerId) (seqNoStart seqNoEnd : ℕ) :
    LedgerManagerM O τ (Option ConsistencyProof) := do
  let s ← get
  let txns := (s.ledger own lid).txns
  if txns.length < seqNoStart then pure none
  else if txns.length < seqNoEnd then pure none
  -- the source calls a logger that the manager does not have
  else if seqNoEnd < seqNoStart then throw .attributeError
  else
    let proof := if seqNoStart = 0 then [env.merkleRoot txns] else env.consistencyProof txns seqNoStart seqNoEnd
    let oldRoot := if seqNoStart = 0 then env.merkleRoot txns else env.merkleRoot (txns.take seqNoStart)
    pure (some ⟨lid, seqNoStart, seqNoEnd, own.ppSeqNoForTxnSeqNo s.owner lid seqNoEnd, oldRoot,
      env.merkleRoot (txns.take seqNoEnd), proof⟩)

/-! ## Ledger statuses -/

section Status

variable (completed : LedgerId → LedgerManagerM O τ Unit)

/-- what a status says that is neither ahead of the own ledger nor from a client -/
def recordLedgerStatusOk (lid : LedgerId) (frm : NodeName) : LedgerManagerM O τ Unit := do
  modifyLedgerInfo lid fun info =>
    { info with recvdConsistencyProofs := info.recvdConsistencyProofs.set frm none,
                ledgerStatusOk := insert frm info.ledgerStatusOk }
  let s ← get
  if (s.ledgerInfo lid).ledgerStatusOk.card = 2 * own.f ∧ (s.ledgerInfo lid).state ≠ .synced then completed lid
  else pure ()

def recordUnlessClient (lid : LedgerId) (frm : NodeName) : LedgerManagerM O τ Unit :=
  if own.isClient frm then pure () else recordLedgerStatusOk own completed lid frm

/-- a client whose pool ledger is up to date is told so -/
def confirmToClient (status : LedgerStatus) (frm : NodeName) : LedgerManagerM O τ Unit := do
  let s ← get
  if own.isClient frm ∧ s.ledgerSize own status.ledgerId = status.txnSeqNo then
    sendTo (.status (ownStatus env own s .pool)) (some frm)
  else pure ()

/-- `processLedgerStatus`, with `completed` for `catchupCompleted` -/
def processLedgerStatusWith (status : LedgerStatus) (frm : NodeName) : LedgerManagerM O τ Unit := do
  let s ← get
  let lid := status.ledgerId
  if own.isClient frm ∧ lid ≠ .pool then pure ()
  else do
    confirmToClient env own status frm
    if (s.ledgerInfo lid).state ≠ .synced ∧ (s.ledgerInfo lid).canSync = false then stashLedgerStatus lid status frm
    else if status.txnSeqNo < s.ledgerSize own lid then do
      let proof ← buildConsistencyProof env own lid status.txnSeqNo (s.ledgerSize own lid)
      match proof with
      | none => pure ()
      | some proof => do
        sendTo (.proof proof) (some frm)
        recordUnlessClient own completed lid frm
    else if s.ledgerSize own lid < status.txnSeqNo then
      if (s.ledgerInfo lid).state = .synced then do
        setLedgerCanSync lid true
        sendTo (.status (ownStatus env own s lid)) (some frm)
      else pure ()
    else recordUnlessClient own completed lid frm

/-- the `while` loop over the stashed statuses, the last one first -/
def drainLedgerStatuses (lid : LedgerId) : ℕ → LedgerManagerM O τ Unit
  | 0 => throw .outOfFuel
  | n + 1 => do
    let s ← get
    match (s.ledgerInfo lid).stashedLedgerStatuses.getLast? with
    | none => pure ()
    | some (status, frm) => do
      modifyLedgerInfo lid fun info => { info with stashedLedgerStatuses := info.stashedLedgerStatuses.dropLast }
      processLedgerStatusWith env own completed status frm
      drainLedgerStatuses lid n

def processStashedLedgerStatuses (lid : LedgerId) : ℕ → LedgerManagerM O τ Unit :=
  drainLedgerStatuses env own completed lid

end Status

/-- the domain ledger is caught up; its callback does nothing. Only statuses of the domain ledger wait for it -/
def domainCatchupCompleted : LedgerId → LedgerManagerM O τ Unit
  | .domain => completeCatchup own (pure ()) .domain (-1)
  | .pool => throw .outOfFuel

/-- the pool ledger is caught up, the domain ledger is next; at most `fuel` stashed statuses are looked at -/
def postPoolLedgerCaughtUp (fuel : ℕ) : LedgerManagerM O τ Unit := do
  callOwner own.poolLedgerCaughtUp
  setLedgerCanSync .domain true
  let s ← get
  (own.connecteds s.owner).forM fun nm => sendTo (.status (ownStatus env own s .domain)) (some nm)
  processStashedLedgerStatuses env own (domainCatchupCompleted own) .domain fuel

def catchupCompleted (fuel : ℕ) (lid : LedgerId) (lastPpSeqNo : ℤ) : LedgerManagerM O τ Unit :=
  match lid with
  | .pool => completeCatchup own (postPoolLedgerCaughtUp env own fuel) .pool lastPpSeqNo
  | .domain => completeCatchup own (pure ()) .domain lastPpSeqNo

def processLedgerStatus (fuel : ℕ) (status : LedgerStatus) (frm : NodeName) : LedgerManagerM O τ Unit :=
  processLedgerStatusWith env own (fun lid => catchupCompleted env own fuel lid (-1)) status frm

/-! ## Consistency proofs -/

abbrev GroupedProofs := Dict (ℕ × ℕ) (Dict ProofKey ℕ)

/-- one more proof for its range -/
def groupProof (grouped : GroupedProofs) (proof : ConsistencyProof) : GroupedProofs :=
  grouped.set proof.range (countItem ((grouped.get? proof.range).getD Dict.empty) proof.key)

def notEmptyProofs (proofs : Dict NodeName (Option ConsistencyProof)) : List ConsistencyProof :=
  proofs.values.filterMap id

/-- the proofs counted by their range and contents, and the number of nodes at the same state -/
def groupConsistencyProofs (proofs : Dict NodeName (Option ConsistencyProof)) : GroupedProofs × ℕ :=
  ((notEmptyProofs proofs).foldl groupProof Dict.empty, proofs.values.countP Option.isNone)

def adjustedF : ℕ := getMaxFailures (own.totalNodes - 1)

/-- for each range the first proof that more than `f` nodes sent -/
def reliableProofs (f : ℕ) (grouped : GroupedProofs) : List ((ℕ × ℕ) × ProofKey) :=
  grouped.entries.filterMap fun e => (e.2.entries.find? fun x => f < x.2).map fun x => (e.1, x.1)

/-- a proof that starts elsewhere than at the end of the ledger is ignored; one that goes farther replaces the last -/
def laterProof (ledgerSize : ℕ) (latest : Option ((ℕ × ℕ) × ProofKey)) (e : (ℕ × ℕ) × ProofKey) :
    Option ((ℕ × ℕ) × ProofKey) :=
  if e.1.1 ≠ ledgerSize then latest
  else
    match latest with
    | none => some e
    | some l => if l.1.2 < e.1.2 then some e else latest

/-- the reliable proof from the end of the ledger that goes farthest -/
def latestReliableProof (f : ℕ) (grouped : GroupedProofs) (ledgerSize : ℕ) : Option ((ℕ × ℕ) × ProofKey) :=
  (reliableProofs f grouped).foldl (laterProof ledgerSize) none

def checkLedgerIsOutOfSync (info : LedgerInfo τ) : Bool :=
  decide (own.totalNodes - 1 - adjustedF own ≤ (notEmptyProofs info.recvdConsistencyProofs).length)

/-- what the consistency proofs received so far say: whether catch-up can start, and with which proof -/
def catchUpVerdict (s : LedgerManager O τ) (lid : LedgerId) : Bool × Option ConsistencyProof :=
  let proofs := (s.ledgerInfo lid).recvdConsistencyProofs
  if 2 * adjustedF own < proofs.size then
    let (grouped, nullProofs) := groupConsistencyProofs proofs
    if adjustedF own < nullProofs then (true, none)
    else
      let result := latestReliableProof (adjustedF own) grouped (s.ledgerSize own lid)
      (result.isSome, result.map fun e => ConsistencyProof.ofKey lid e.1 e.2)
  else (false, none)

/-- with the first proof of a correct node a timer starts -/
def startConsistencyProofsTimer (lid : LedgerId) : LedgerManagerM O τ Unit := do
  let s ← get
  if (s.ledgerInfo lid).recvdConsistencyProofs.size = adjustedF own + 1 then do
    modifyLedgerInfo lid fun info => { info with consistencyProofsTimer := some s.perfCounter }
    schedule (.checkIfCPsNeeded lid) (env.consistencyProofsTimeout * (own.totalNodes - 1))
  else pure ()

def canStartCatchUpProcess (lid : LedgerId) : LedgerManagerM O τ (Bool × Option ConsistencyProof) := do
  let s ← get
  startConsistencyProofsTimer env own lid
  let verdict := catchUpVerdict own s lid
  modify fun s => { s with verdicts := s.verdicts ++ [(lid, verdict)] }
  pure verdict

def canProcessRange (s : LedgerManager O τ) (proof : ConsistencyProof) : Bool :=
  decide (proof.seqNoStart ≤ s.ledgerSize own proof.ledgerId ∧ proof.seqNoStart < proof.seqNoEnd)

/-- only the domain ledger has a callback here -/
def preCatchupStart (lid : LedgerId) : LedgerManagerM O τ Unit :=
  if lid = .domain then modify fun s => s.setOwner (own.preDomainLedgerCatchUp s.owner) else pure ()

/-- a synced ledger that turns out to be behind is not synced any more -/
def canProcessConsistencyProof (proof : ConsistencyProof) : LedgerManagerM O τ Bool := do
  let s ← get
  let info := s.ledgerInfo proof.ledgerId
  if info.canSync = false then pure false
  else
    match info.state with
    | .syncing => pure false
    | .synced =>
      if checkLedgerIsOutOfSync own info then do
        setLedgerState proof.ledgerId .notSynced
        preCatchupStart own proof.ledgerId
        let s ← get
        pure (canProcessRange own s proof)
      else pure false
    | .notSynced => pure (canProcessRange own s proof)

/-- the loop of `getCatchupReqs`, for at most `n` more requests, of which the first is from `s` to `e` -/
def catchupReqsFrom (lid : LedgerId) (seqNoEnd : ℕ) (batchLength : ℤ) : ℕ → ℤ → ℤ → List CatchupReq
  | 0, _, _ => []
  | n + 1, s, e =>
    ⟨lid, s, e, seqNoEnd⟩ ::
      if (seqNoEnd : ℤ) < e + 1 then []
      else catchupReqsFrom lid seqNoEnd batchLength n (e + 1) (min (e + batchLength) seqNoEnd)

/-- the missing range in as many parts as there are connections; `none` if there is none -/
def getCatchupReqs (nodeCount : ℕ) (proof : ConsistencyProof) : Option (List CatchupReq) :=
  if nodeCount = 0 then none
  else
    -- the ceiling of the quotient
    let batchLength : ℤ := -(((proof.seqNoStart : ℤ) - proof.seqNoEnd) / nodeCount)
    some (catchupReqsFrom proof.ledgerId proof.seqNoEnd batchLength nodeCount (proof.seqNoStart + 1)
      (min (proof.seqNoStart + batchLength) proof.seqNoEnd))

def startCatchUpProcess (fuel : ℕ) (lid : LedgerId) (proof : Option ConsistencyProof) : LedgerManagerM O τ Unit :=
  match proof with
  | none => catchupCompleted env own fuel lid (-1)
  | some p => do
    modifyLedgerInfo lid fun info =>
      { info with state := .syncing, consistencyProofsTimer := none, recvdConsistencyProofs := Dict.empty }
    let s ← get
    match getCatchupReqs (own.conns s.owner).length p with
    | none => throw .zeroDivisionError
    | some reqs => do
      (reqs.zip (own.conns s.owner)).forM fun e => sendTo (.catchupReq e.1) (some e.2)
      modifyLedgerInfo lid fun info => { info with catchUpTill := some p }
      match reqs with
      | [] => pure ()
      | req :: _ => do
        modifyLedgerInfo lid fun info => { info with catchupReplyTimer := some s.perfCounter }
        schedule (.checkIfTxnsNeeded lid) (env.catchupTimeout reqs.length (req.seqNoEnd - req.seqNoStart + 1))

def processConsistencyProof (fuel : ℕ) (proof : ConsistencyProof) (frm : NodeName) : LedgerManagerM O τ Unit := do
  let lid := proof.ledgerId
  modifyLedgerInfo lid fun info =>
    { info with recvdConsistencyProofs := info.recvdConsistencyProofs.set frm (some proof) }
  let canProcess ← canProcessConsistencyProof own proof
  if canProcess then do
    let verdict ← canStartCatchUpProcess env own lid
    if verdict.1 then startCatchUpProcess env own fuel lid verdict.2 else pure ()
  else pure ()

/-- the end of the range whose greatest group of equal proofs is the median one -/
def medianEnd (grouped : GroupedProofs) : Option ℕ :=
  let greatest (e : (ℕ × ℕ) × Dict ProofKey ℕ) : ℕ := (e.2.values.max?).getD 0
  let proofs := grouped.entries.insertionSort fun a b => greatest a ≤ greatest b
  (proofs[proofs.length / 2]?).map fun e => e.1.2

/-- ask for proofs to the median of the ends proposed, unless some proof is reliable -/
def requestConsistencyProofs (lid : LedgerId) (grouped : GroupedProofs) : LedgerManagerM O τ Unit := do
  let s ← get
  match latestReliableProof (adjustedF own) grouped (s.ledgerSize own lid), medianEnd grouped with
  | some _, _ => pure ()
  | none, none => throw .indexError
  | none, some seqNoEnd => sendTo (.consProofReq ⟨lid, s.ledgerSize own lid, seqNoEnd⟩) none

def checkIfCPsNeeded (lid : LedgerId) : LedgerManagerM O τ Unit := do
  let s ← get
  let info := s.ledgerInfo lid
  if info.consistencyProofsTimer.isNone then pure ()
  else
    let (grouped, nullProofs) := groupConsistencyProofs info.recvdConsistencyProofs
    if adjustedF own < nullProofs then pure ()
    else do
      requestConsistencyProofs own lid grouped
      modifyLedgerInfo lid fun info =>
        { info with recvdConsistencyProofs := Dict.empty, consistencyProofsTimer := none,
                    recvdCatchupRepliesFrm := Dict.empty }

/-! ## Catch-up replies -/

/-- the transactions of a reply in the order of their sequence numbers, if they are contiguous and some are new -/
def canProcessCatchupReply (rep : CatchupRep τ) : LedgerManagerM O τ (List (CatchupTxn τ)) := do
  let s ← get
  if (s.ledgerInfo rep.ledgerId).state ≠ .syncing then pure []
  else
    match rep.txns.entries.mapM fun e => (env.int e.1).map fun seqNo => (seqNo, e.2) with
    | none => throw .valueError
    | some txns =>
      let txns := txns.insertionSort fun a b => a.1 ≤ b.1
      let anyNew := txns.any fun e => (s.ledgerSize own rep.ledgerId : ℤ) < e.1
      match txns.head?, txns.getLast? with
      | some first, some last =>
        if anyNew ∧ (txns.length : ℤ) = last.1 - first.1 + 1 then pure txns else pure []
      | _, _ => pure []

/-- the first stored reply that has a transaction under `seqNo`, with its sender -/
def getCatchupReplyForSeqNo (info : LedgerInfo τ) (seqNo : ℤ) : Option (NodeName × CatchupRep τ) :=
  (info.recvdCatchupRepliesFrm.entries.flatMap fun e => e.2.map fun rep => (e.1, rep)).find? fun x =>
    x.2.txns.contains (toString seqNo)

/-- the transactions among `replies` that belong to the reply -/
def txnsOfReply (rep : CatchupRep τ) (replies : List (CatchupTxn τ)) : List τ :=
  ((replies.take rep.txns.size).filter fun e => rep.txns.contains (toString e.1)).map fun e =>
    env.transformTxnForLedger e.2

/-- whether the ledger with the transactions of the reply is shown to be a prefix of the ledger caught up to -/
def verifyReply (s : LedgerManager O τ) (lid : LedgerId) (rep : CatchupRep τ) (txns : List τ) : Bool :=
  match (s.ledgerInfo lid).catchUpTill with
  | none => false
  | some cp =>
    let tempTree := (s.ledger own lid).treeWithAppliedTxns txns none
    env.verifyTreeConsistency tempTree.length cp.seqNoEnd (env.merkleRoot tempTree) cp.newMerkleRoot rep.consProof

def hasValidCatchupReplies (lid : LedgerId) (seqNo : ℤ) (replies : List (CatchupTxn τ)) :
    LedgerManagerM O τ (Bool × NodeName × ℕ) := do
  let s ← get
  match getCatchupReplyForSeqNo (s.ledgerInfo lid) seqNo with
  | none => throw .typeError
  | some (nodeName, rep) =>
    match (s.ledgerInfo lid).catchUpTill with
    | none => throw .attributeError
    | some _ =>
      let txns := txnsOfReply env rep replies
      pure (verifyReply env own s lid rep txns, nodeName, txns.length)

/-- drop the first stored reply of the node that has `seqNo`, or else the last one -/
def removePrcdCatchupReply (lid : LedgerId) (nodeName : NodeName) (seqNo : ℤ) : LedgerManagerM O τ Unit := do
  let s ← get
  match (s.ledgerInfo lid).recvdCatchupRepliesFrm.get? nodeName with
  | none => throw .keyError
  | some [] => throw .nameError
  | some reps =>
    let i := min (reps.findIdx fun rep => rep.txns.contains (toString seqNo)) (reps.length - 1)
    modifyLedgerInfo lid fun info =>
      { info with recvdCatchupRepliesFrm := info.recvdCatchupRepliesFrm.set nodeName (reps.eraseIdx i) }

/-- `ledger.add` -/
def addToLedger (lid : LedgerId) (txn : τ) : LedgerManagerM O τ Unit :=
  modify fun s =>
    s.setOwner (own.setLedgers s.owner
      ((own.ledgers s.owner).set lid ((s.ledger own lid).appendCommittedTxns [env.transformTxnForLedger txn])))

/-- add the transactions to the ledger, each with its callback -/
def addCatchupTxns (lid : LedgerId) : List (CatchupTxn τ) → LedgerManagerM O τ Unit
  | [] => pure ()
  | (_, txn) :: replies => do
    addToLedger env own lid txn
    let s ← get
    callOwner (own.postTxnFromCatchupAddedToLedger lid (env.withSeqNo txn (s.ledgerSize own lid)))
    addCatchupTxns lid replies

/-- process the sorted replies; returns how many of them are done with. Each round takes at least one reply -/
def processCatchupReplies (lid : LedgerId) : ℕ → List (CatchupTxn τ) → LedgerManagerM O τ ℕ
  | 0, _ => throw .outOfFuel
  | n + 1, replies => do
    let s ← get
    let numProcessed := replies.countP fun e => e.1 ≤ (s.ledgerSize own lid : ℤ)
    match replies.drop numProcessed with
    | [] => pure numProcessed
    | reply :: rest =>
      if reply.1 - (s.ledgerSize own lid : ℤ) = 1 then do
        let (result, nodeName, toBeProcessed) ← hasValidCatchupReplies env own lid reply.1 (reply :: rest)
        if result then do
          addCatchupTxns env own lid ((reply :: rest).take toBeProcessed)
          removePrcdCatchupReply lid nodeName reply.1
          let m ← processCatchupReplies lid n ((reply :: rest).drop toBeProcessed)
          pure (numProcessed + toBeProcessed + m)
        else do
          modify fun s => s.setOwner (own.blacklistNode s.owner nodeName)
          removePrcdCatchupReply lid nodeName reply.1
          pure (numProcessed + toBeProcessed)
      else pure numProcessed

/-- `heapq.merge` of two lists by the sequence numbers -/
def heapqMerge : List (CatchupTxn τ) → List (CatchupTxn τ) → List (CatchupTxn τ)
  | [], l' => l'
  | a :: l, l' => into a l (heapqMerge l) l'
where
  into (a : CatchupTxn τ) (l : List (CatchupTxn τ)) (rest : List (CatchupTxn τ) → List (CatchupTxn τ)) :
      List (CatchupTxn τ) → List (CatchupTxn τ)
    | [] => a :: l
    | b :: l' => if a.1 ≤ b.1 then a :: rest (b :: l') else b :: into a l rest l'

theorem heapqMerge_eq_merge (l l' : List (CatchupTxn τ)) : heapqMerge l l' = l.merge l' fun a b => a.1 ≤ b.1 := by
  induction l generalizing l' with
  | nil => simp [heapqMerge]
  | cons a l ih =>
    rw [heapqMerge]
    induction l' with
    | nil => simp [heapqMerge.into]
    | cons b l' ih' =>
      rw [heapqMerge.into, List.cons_merge_cons, ih, ih']
      simp

/-- what `processCatchupRep` does before it checks whether the ledger has caught up: `false` if it ignores the reply -/
def mergeCatchupRep (rep : CatchupRep τ) (frm : NodeName) : LedgerManagerM O τ Bool := do
  let lid := rep.ledgerId
  let txns ← canProcessCatchupReply env own rep
  if txns = [] then pure false
  else do
    modifyLedgerInfo lid fun info =>
      { info with recvdCatchupRepliesFrm :=
          info.recvdCatchupRepliesFrm.set frm ((info.recvdCatchupRepliesFrm.get? frm).getD [] ++ [rep]) }
    let s ← get
    let replies := heapqMerge (s.ledgerInfo lid).receivedCatchUpReplies txns
    let numProcessed ← processCatchupReplies env own lid (replies.length + 1) replies
    modifyLedgerInfo lid fun info => { info with receivedCatchUpReplies := replies.drop numProcessed }
    pure true

def processCatchupRep (fuel : ℕ) (rep : CatchupRep τ) (frm : NodeName) : LedgerManagerM O τ Unit := do
  let merged ← mergeCatchupRep env own rep frm
  if merged then do
    let s ← get
    match (s.ledgerInfo rep.ledgerId).catchUpTill with
    | none => throw .attributeError
    | some cp =>
      if cp.seqNoEnd = s.ledgerSize own rep.ledgerId then do
        modifyLedgerInfo rep.ledgerId fun info => { info with catchUpTill := none }
        catchupCompleted env own fuel rep.ledgerId cp.ppSeqNo
      else pure ()
  else pure ()

end LedgerManager

/-! ## Runs -/

/-- what reaches a ledger manager: messages, the node letting a ledger sync, a timer, and time -/
inductive LedgerInput (τ : Type) where
  | ledgerStatus (m : LedgerStatus) (frm : NodeName)
  | consistencyProof (m : ConsistencyProof) (frm : NodeName)
  | catchupRep (m : CatchupRep τ) (frm : NodeName)
  | setLedgerCanSync (lid : LedgerId) (canSync : Bool)
  | checkIfCPsNeeded (lid : LedgerId)
  | tick (perfCounter : ℕ)

namespace LedgerManager

variable {O τ : Type} (env : LedgerEnv τ) (own : LedgerOwner O τ) (fuel : ℕ)

def method : LedgerInput τ → LedgerManagerM O τ Unit
  | .ledgerStatus m frm => processLedgerStatus env own fuel m frm
  | .consistencyProof m frm => processConsistencyProof env own fuel m frm
  | .catchupRep m frm => processCatchupRep env own fuel m frm
  | .setLedgerCanSync lid canSync => setLedgerCanSync lid canSync
  | .checkIfCPsNeeded lid => checkIfCPsNeeded own lid
  | .tick perfCounter => modify fun s => { s with perfCounter := perfCounter }

/-- the state after an input, also when its method raises -/
def input (s : LedgerManager O τ) (x : LedgerInput τ) : LedgerManager O τ := (Exec.exec (method env own fuel x) s).2

def run (s : LedgerManager O τ) (xs : List (LedgerInput τ)) : LedgerManager O τ := xs.foldl (input env own fuel) s

end LedgerManager

end Plenum
