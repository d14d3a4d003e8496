/-
A pool of four nodes, Alpha, Beta, Gamma and Delta, that tolerates one failure. The concrete traces of the scenarios
run on it. Alpha has the primary of the master instance.

The hash functions keep one of the digests they are given, so that a trace can be computed; the state is the number of
requests applied, and a transaction is the key of its request. Requests with the operation `false` fail dynamic
validation.
-/
import Mathlib.Tactic
import Plenum.Server.Replica

namespace Plenum.FourNodes

open Plenum.Core

/-- batches of one request; a checkpoint every `chkFreq` batches -/
def env (chkFreq : ℕ) : Env Bool ℕ ReqKey where
  CHK_FREQ := chkFreq
  LOG_SIZE := 3 * chkFreq
  max3PCBatchSize := 1
  max3PCBatchWait := 0
  second := 1
  batchHash digests := digests.headD ""
  checkpointHash digests := digests.headD ""
  merkleRoot _ := "root"
  stateRoot _ := "state"
  ledgerIdForRequest _ := .domain
  validate _ req := if req.operation then none else some "refused"
  apply dbs req := (req.key, (dbs.states.get .domain).headHash + 1)

def request (reqId : ℕ) (digest : String) : Request Bool := ⟨"client", reqId, true, digest, ""⟩

/-- a request that `instances` replicas of a node got, with its PROPAGATEs from the given nodes -/
def forwarded (req : Request Bool) (instances : ℕ) (senders : List NodeName) : ReqState Bool where
  request := req
  forwarded := true
  forwardedTo := instances
  propagates := senders.foldl (fun d n => d.set n req) Dict.empty
  finalised := some req

def dbs : Dbs ℕ ReqKey := ⟨⟨Ledger.empty, Ledger.empty⟩, ⟨⟨0, 0⟩, ⟨0, 0⟩⟩⟩

/-- a node that participates in view 0 and has the given requests -/
def node (name : NodeName) (requests : Requests Bool) : Node Bool ℕ ReqKey where
  name := name
  viewNo := 0
  f := 1
  isParticipating := true
  requests := requests
  dbs := dbs
  suspicions := []

/-- the primary of the master instance -/
def primary : RepName := generateName "Alpha" 0

/-- the master replica of a node -/
def master (chkFreq : ℕ) (name : NodeName) (requests : Requests Bool) : Replica Bool ℕ ReqKey :=
  Replica.init (env chkFreq) (node name requests) 0 true (some primary)

/-- the PRE-PREPARE of a batch of one valid request -/
def prePrepare (ppSeqNo : ℕ) (req : Request Bool) : PrePrepare :=
  ⟨0, 0, ppSeqNo, 0, [req.key], 1, req.digest, .domain, some "state", some "root"⟩

end Plenum.FourNodes
