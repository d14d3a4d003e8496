/-
The state of a replica, and what its code reads off it.

The record follows the fields of the source's class; `node` is the shared part of the node it lives on. The clocks
that the code reads are fields too. `accepted` is a history: the PRE-PREPAREs taken into `prePrepares` or
`sentPrePrepares` so far; no definition reads it. Statistics and log messages are left out.
-/
import Mathlib.Tactic
import Plenum.Core.Exec
import Plenum.Server.Databases
import Plenum.Server.HasActionQueue
import Plenum.Server.Models

namespace Plenum

open Plenum.Core

/-- the PREPARE of a PRE-PREPARE -/
def PrePrepare.prepare (pp : PrePrepare) (instId : ℕ) : Prepare :=
  ⟨instId, pp.viewNo, pp.ppSeqNo, pp.digest, pp.stateRootHash, pp.txnRootHash⟩

/-- the `Ordered` message of a PRE-PREPARE: only the accepted requests are in it -/
def PrePrepare.toOrdered (pp : PrePrepare) (instId : ℕ) : Ordered :=
  ⟨instId, pp.viewNo, pp.reqIdr.take pp.discarded, pp.ppSeqNo, pp.ppTime, pp.ledgerId, pp.stateRootHash,
    pp.txnRootHash⟩

/-- the state of a checkpoint: the digests of its batches until it is complete, then their hash -/
structure CheckpointState where
  seqNo : ℕ
  digests : List String
  digest : Option String
  receivedDigests : Dict NodeName String
  isStable : Bool
deriving DecidableEq

/-- the one action that a replica repeats -/
inductive ReplicaAction where
  | processStashedOutOfOrderCommits
deriving DecidableEq

/-- 3-phase dictionaries are sorted by `ppSeqNo` -/
abbrev TPCDict (α : Type) := SortedDict (κ := TPCKey) Prod.snd α

/-- PRE-PREPAREs sorted by `ppSeqNo`, each under its own key -/
structure PrePrepareLog where
  dict : TPCDict PrePrepare
  keyed : ∀ e ∈ dict.entries, e.2.key = e.1

namespace PrePrepareLog

def empty : PrePrepareLog := ⟨SortedDict.empty, fun _ he => by cases he⟩

def get? (l : PrePrepareLog) (key : TPCKey) : Option PrePrepare := l.dict.get? key

def contains (l : PrePrepareLog) (key : TPCKey) : Bool := l.dict.contains key

def keys (l : PrePrepareLog) : List TPCKey := l.dict.keys

def entries (l : PrePrepareLog) : List (TPCKey × PrePrepare) := l.dict.entries

def last? (l : PrePrepareLog) : Option (TPCKey × PrePrepare) := l.dict.last?

def add (l : PrePrepareLog) (pp : PrePrepare) : PrePrepareLog where
  dict := l.dict.set pp.key pp
  keyed e he := by
    rcases SortedDict.mem_set.1 he with rfl | ⟨he, -⟩
    · rfl
    · exact l.keyed e he

def eraseAll (l : PrePrepareLog) (keys : List TPCKey) : PrePrepareLog where
  dict := l.dict.eraseAll keys
  keyed e he := l.keyed e (SortedDict.mem_eraseAll.1 he).1

theorem get?_add (l : PrePrepareLog) (pp : PrePrepare) (key : TPCKey) :
    (l.add pp).get? key = if key = pp.key then some pp else l.get? key := SortedDict.get?_set l.dict pp.key key pp

theorem get?_eraseAll (l : PrePrepareLog) (keys : List TPCKey) (key : TPCKey) :
    (l.eraseAll keys).get? key = if key ∈ keys then none else l.get? key := by
  refine (SortedDict.get?_eraseAll l.dict keys key).trans ?_
  by_cases h : key ∈ keys
  · rw [if_pos h, if_pos h]
  · rw [if_neg h, if_neg h]; rfl

theorem get?_eq_some {l : PrePrepareLog} {key : TPCKey} {pp : PrePrepare} :
    l.get? key = some pp ↔ (key, pp) ∈ l.entries := Dict.get?_eq_some

theorem key_of_get? {l : PrePrepareLog} {key : TPCKey} {pp : PrePrepare} (h : l.get? key = some pp) : pp.key = key :=
  l.keyed (key, pp) (get?_eq_some.1 h)

theorem mem_keys {l : PrePrepareLog} {key : TPCKey} : key ∈ l.keys ↔ ∃ pp, l.get? key = some pp := by
  simp only [get?_eq_some]
  exact Dict.mem_fst

/-- the last PRE-PREPARE has the greatest `ppSeqNo` -/
theorem le_last? {l : PrePrepareLog} {e : TPCKey × PrePrepare} (h : l.last? = some e) :
    l.get? e.1 = some e.2 ∧ ∀ key pp, l.get? key = some pp → key.2 ≤ e.1.2 :=
  ⟨get?_eq_some.2 (SortedDict.last?_mem h), fun _ _ hk => SortedDict.le_last? h (get?_eq_some.1 hk)⟩

theorem get?_of_last?_none {l : PrePrepareLog} (h : l.last? = none) (key : TPCKey) : l.get? key = none := by
  rw [PrePrepareLog.get?, Dict.get?_eq_none, Dict.keys, SortedDict.last?_eq_none h]
  simp

end PrePrepareLog

/-- `OrderedSet.add` -/
def addKey (queue : List ReqKey) (key : ReqKey) : List ReqKey := if key ∈ queue then queue else queue ++ [key]

def discardKeys (queue keys : List ReqKey) : List ReqKey := queue.filter (· ∉ keys)

/-- the range of a checkpoint -/
abbrev CkKey := ℤ × ℤ

structure Replica (ω σ τ : Type) where
  node : Node ω σ τ
  instId : ℕ
  isMaster : Bool
  name : RepName
  primaryName : Option RepName
  primaryNames : Dict ℕ (Option RepName)
  outBox : List OutMsg
  inBox : List InMsg
  /-- messages that wait until the primary is known -/
  postElectionMsgs : List (ThreePhaseMsg × NodeName)
  /-- PRE-PREPAREs that wait for requests to be finalised -/
  prePreparesPendingFinReqs : List (PrePrepare × RepName × List ReqKey)
  /-- PRE-PREPAREs that wait for earlier ones -/
  prePreparesPendingPrevPP : TPCDict (PrePrepare × RepName)
  preparesWaitingForPrePrepare : Dict TPCKey (List (Prepare × RepName))
  commitsWaitingForPrepare : Dict TPCKey (List (Commit × RepName))
  sentPrePrepares : PrePrepareLog
  prePrepares : PrePrepareLog
  prepares : TrackedMsgs
  commits : TrackedMsgs
  ordered : List TPCKey
  stashingWhileCatchingUp : List TPCKey
  stashedOutOfOrderCommits : Dict ℕ (Dict ℕ Commit)
  checkpoints : SortedDict (κ := CkKey) Prod.fst CheckpointState
  stashedRecvdCheckpoints : Dict CkKey (Dict NodeName Checkpoint)
  stashingWhileOutsideWaterMarks : List (ThreePhaseMsg × NodeName)
  h : ℕ
  H : ℕ
  lastPrePrepareSeqNo : ℕ
  requestQueues : PerLedger (List ReqKey)
  batches : Dict ℕ (ℕ × ℕ × Option σ)
  lastBatchCreated : ℕ
  lastOrderedPPSeqNo : ℕ
  /-- never written by the source -/
  viewEndsAt : Dict ℕ ℕ
  actions : ActionQueue ReplicaAction
  perfCounter : ℕ
  time : ℕ
  accepted : List PrePrepare

/-- the methods of a replica -/
abbrev ReplicaM (ω σ τ : Type) := Exec Exn (Replica ω σ τ)

namespace Replica

variable {ω σ τ : Type}

/-- a new replica of instance `instId` whose instance has the primary `primaryName` -/
def init (env : Env ω σ τ) (node : Node ω σ τ) (instId : ℕ) (isMaster : Bool) (primaryName : Option RepName) :
    Replica ω σ τ where
  node := node
  instId := instId
  isMaster := isMaster
  name := generateName node.name instId
  primaryName := primaryName
  primaryNames := Dict.empty.set node.viewNo primaryName
  outBox := []
  inBox := []
  postElectionMsgs := []
  prePreparesPendingFinReqs := []
  prePreparesPendingPrevPP := SortedDict.empty
  preparesWaitingForPrePrepare := Dict.empty
  commitsWaitingForPrepare := Dict.empty
  sentPrePrepares := PrePrepareLog.empty
  prePrepares := PrePrepareLog.empty
  prepares := Dict.empty
  commits := Dict.empty
  ordered := []
  stashingWhileCatchingUp := []
  stashedOutOfOrderCommits := Dict.empty
  checkpoints := SortedDict.empty
  stashedRecvdCheckpoints := Dict.empty
  stashingWhileOutsideWaterMarks := []
  h := 0
  H := env.LOG_SIZE
  lastPrePrepareSeqNo := 0
  requestQueues := ⟨[], []⟩
  batches := Dict.empty
  lastBatchCreated := 0
  lastOrderedPPSeqNo := 0
  viewEndsAt := Dict.empty
  actions := ActionQueue.empty
  perfCounter := 0
  time := 0
  accepted := []

/-! ## What the code reads -/

variable (s : Replica ω σ τ)

/-- the root of the ledger with the uncommitted transactions, known to the master only -/
def txnRootHash (env : Env ω σ τ) (lid : LedgerId) : Option String :=
  if s.isMaster then some ((s.node.dbs.ledgers.get lid).uncommittedRoot env.merkleRoot) else none

/-- the root of the state's head in hexadecimal, known to the master only -/
def stateRootHash (env : Env ω σ τ) (lid : LedgerId) : Option String :=
  if s.isMaster then some (env.stateRoot (s.node.dbs.states.get lid).headHash) else none

/-- the state's head itself -/
def stateHead (lid : LedgerId) : Option σ :=
  if s.isMaster then some (s.node.dbs.states.get lid).headHash else none

def isPrimary : Option Bool := s.primaryName.map fun p => decide (p = s.name)

def isMsgFromPrimary (sender : RepName) : Bool := s.primaryName = some sender

/-- the batch arrived while the node was catching up -/
def isStashedWhileCatchingUp (key : TPCKey) : Bool := key ∈ s.stashingWhileCatchingUp

def shouldParticipate (viewNo ppSeqNo : ℕ) : Bool :=
  s.node.isParticipating && ! s.isStashedWhileCatchingUp (viewNo, ppSeqNo)

/-- the keys that have no finalised request yet -/
def nonFinalisedReqs (reqKeys : List ReqKey) : List ReqKey := reqKeys.filter fun k => ¬ s.node.requests.isFinalised k

/-- the sent or received PRE-PREPARE of a key -/
def getPrePrepare (key : TPCKey) : Option PrePrepare :=
  if s.sentPrePrepares.contains key then s.sentPrePrepares.get? key else s.prePrepares.get? key

/-- the sent or received PRE-PREPARE with the greatest `ppSeqNo` -/
def lastPrePrepare : Option PrePrepare :=
  match s.sentPrePrepares.last?, s.prePrepares.last? with
  | none, none => none
  | some (_, pp), none => some pp
  | none, some (k, pp) => if 0 < k.2 then some pp else none
  | some (k, pp), some (k', pp') => if k.2 < k'.2 then some pp' else some pp

def isNextPrePrepare (ppSeqNo : ℕ) : Bool :=
  let lastPpSeqNo :=
    match s.lastPrePrepare with
    | some lastPp => if s.lastOrderedPPSeqNo < lastPp.ppSeqNo then lastPp.ppSeqNo else s.lastOrderedPPSeqNo
    | none => s.lastOrderedPPSeqNo
  ppSeqNo = lastPpSeqNo + 1

def hasPrepared (pp : PrePrepare) : Bool := s.prepares.hasVote pp.key s.name

def hasCommitted (p : Prepare) : Bool := s.commits.hasVote p.key s.name

def hasOrdered (key : TPCKey) : Bool := key ∈ s.ordered

def canPrepare (pp : PrePrepare) : Bool := s.shouldParticipate pp.viewNo pp.ppSeqNo && ! s.hasPrepared pp

def canCommit (p : Prepare) : Bool :=
  s.shouldParticipate p.viewNo p.ppSeqNo && Prepares.hasQuorum s.prepares p s.node.f && ! s.hasCommitted p

/-- every batch known to be before this one has been ordered -/
def allPrevOrdered (c : Commit) : Bool :=
  if s.ordered.getLast?.any (fun last => last.1 = c.viewNo ∧ last.2 + 1 = c.ppSeqNo) then true
  else
    (s.sentPrePrepares.keys ++ s.prePrepares.keys ++ Dict.keys s.prepares ++ Dict.keys s.commits).all fun k =>
      ! (decide (k.1 < c.viewNo ∨ (k.1 = c.viewNo ∧ k.2 < c.ppSeqNo)) && decide (k ∉ s.ordered))

def isLowestCommitInView (c : Commit) : Bool :=
  if s.node.viewNo < c.viewNo then false
  else if c.viewNo ≠ s.node.viewNo ∧ ! s.viewEndsAt.contains c.viewNo then false
  else
    match (((Dict.keys s.commits).filter fun k => k.1 = c.viewNo).map Prod.snd).min? with
    | some p => decide (p = c.ppSeqNo)
    | none => true

/-- whether the first checkpoint is stable and covers `ppSeqNo` -/
def isPpSeqNoStable (ppSeqNo : ℤ) : Bool :=
  match s.checkpoints.first? with
  | some (_, ck) => ck.isStable && decide (ppSeqNo ≤ ck.seqNo)
  | none => false

def isPpSeqNoBetweenWaterMarks (ppSeqNo : ℕ) : Bool := decide (s.h < ppSeqNo ∧ ppSeqNo ≤ s.H)

/-- the 3-phase keys that garbage collection removes -/
def gcKeys (tillSeqNo : ℕ) : List TPCKey :=
  (s.sentPrePrepares.keys ++ s.prePrepares.keys).filter fun k => k.2 ≤ tillSeqNo

/-- the requests of the batches that garbage collection removes, each once -/
def gcReqKeys (tillSeqNo : ℕ) : List ReqKey :=
  ((s.sentPrePrepares.entries ++ s.prePrepares.entries).filter fun e => e.1.2 ≤ tillSeqNo).flatMap
    (fun e => e.2.reqIdr) |>.dedup

/-! ## Small writes -/

/-- the setter of `h` moves `H` along -/
def setH (env : Env ω σ τ) (n : ℕ) : Replica ω σ τ := { s with h := n, H := n + env.LOG_SIZE }

/-- the setter of `lastPrePrepareSeqNo` only raises it -/
def setLastPrePrepareSeqNo (n : ℕ) : Replica ω σ τ :=
  { s with lastPrePrepareSeqNo := if s.lastPrePrepareSeqNo < n then n else s.lastPrePrepareSeqNo }

def addToOrdered (key : TPCKey) : Replica ω σ τ :=
  { s with ordered := if key ∈ s.ordered then s.ordered else s.ordered ++ [key],
           lastOrderedPPSeqNo := if s.lastOrderedPPSeqNo < key.2 then key.2 else s.lastOrderedPPSeqNo }

def trackBatches (pp : PrePrepare) (prevStateRoot : Option σ) : Replica ω σ τ :=
  { s with batches := s.batches.set pp.ppSeqNo (pp.discarded, pp.ppTime, prevStateRoot) }

def appendOutBox (ms : List OutMsg) : Replica ω σ τ := { s with outBox := s.outBox ++ ms }

def setRequestQueue (lid : LedgerId) (queue : List ReqKey) : Replica ω σ τ :=
  { s with requestQueues := s.requestQueues.set lid queue }

def setDbs (dbs : Dbs σ τ) : Replica ω σ τ := { s with node := { s.node with dbs := dbs } }

def setRequests (requests : Requests ω) : Replica ω σ τ := { s with node := { s.node with requests := requests } }

def addSentPrePrepare (pp : PrePrepare) : Replica ω σ τ :=
  { s with sentPrePrepares := s.sentPrePrepares.add pp, accepted := s.accepted ++ [pp] }

def addPrePrepare (pp : PrePrepare) : Replica ω σ τ :=
  { s with prePrepares := s.prePrepares.add pp, accepted := s.accepted ++ [pp] }

variable {s}

@[simp] theorem setRequestQueue_self (lid : LedgerId) : s.setRequestQueue lid (s.requestQueues.get lid) = s := by
  rw [setRequestQueue, PerLedger.set_get]

@[simp] theorem setDbs_self : s.setDbs s.node.dbs = s := rfl

theorem setLastPrePrepareSeqNo_lastPrePrepareSeqNo (n : ℕ) :
    (s.setLastPrePrepareSeqNo n).lastPrePrepareSeqNo = max s.lastPrePrepareSeqNo n := by
  unfold setLastPrePrepareSeqNo
  dsimp only
  split_ifs with h
  · rw [max_eq_right h.le]
  · rw [max_eq_left (not_lt.1 h)]

theorem addToOrdered_lastOrderedPPSeqNo (key : TPCKey) :
    (s.addToOrdered key).lastOrderedPPSeqNo = max s.lastOrderedPPSeqNo key.2 := by
  unfold addToOrdered
  dsimp only
  split_ifs with h
  · rw [max_eq_right h.le]
  · rw [max_eq_left (not_lt.1 h)]

end Replica

end Plenum
