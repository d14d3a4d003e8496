/-
The handlers of the elector: how a node nominates, declares a primary or proposes a re-election.

- A node nominates the candidate of the first nomination it sees in an instance, or itself in one instance of its
  choice. From a quorum of nominations it declares a primary or proposes a re-election (`decidePrimary`); a quorum of
  declarations settles the primary (`processPrimary`), a quorum of proposals starts the election anew
  (`processReelection`).
- Decisions and self-nominations are actions, which run later; the actions of an old view are not taken back.
- `primaryChanged`: the replica that has a primary now dispatches the three phase messages that have waited for it, and
  these may change the view before the elector goes on (`Dispatched`).
- `ElectorEvent`: what happens to an elector within a view, one message and one action at a time. `serviceActions` is a
  sequence of these; `ElectingNode` has the messages that are serviced together.

A handler of an instance that the node does not have raises before it writes anything: it does nothing here.
`start_election_for_instance` is left out: the only call of it is never reached (`RoutingNode.newNodeJoined`).
-/
import Mathlib.Tactic
import Plenum.Server.PrimaryElector

namespace Plenum

open Plenum.Core

/-- whether the replica is primary; unknown, if its primary is -/
def ElectedReplica.isPrimary (r : ElectedReplica) : Option Bool := r.primaryName.map fun p => decide (p = r.name)

namespace PrimaryElector

variable (s : PrimaryElector)

/-! ## Small writes -/

def schedule (action : ElectorAction) (ticks : ℕ) : PrimaryElector :=
  { s with actions := s.actions.schedule s.perfCounter action ticks }

def restartsOf (instId : ℕ) : ℕ := (s.restarts.get? instId).getD 0

def send (m : ElectionMsg) : PrimaryElector :=
  { s with outBox := s.outBox ++ [m], sent := s.sent ++ [(m, s.restartsOf m.instId)] }

def setElectionDefaults (instId : ℕ) : PrimaryElector :=
  { s with nominations := s.nominations.set instId Dict.empty,
           primaryDeclarations := s.primaryDeclarations.set instId Dict.empty,
           scheduledPrimaryDecisions := s.scheduledPrimaryDecisions.set instId none,
           reElectionProposals := s.reElectionProposals.set instId Dict.empty,
           restarts := s.restarts.set instId (s.restartsOf instId + 1) }

def setDefaults (instId : ℕ) : PrimaryElector :=
  { s with reElectionRounds := s.reElectionRounds.set instId 0 }.setElectionDefaults instId

/-- `nominations[instId][sender] = candidate` -/
def setNomination (instId : ℕ) (sender : RepName) (candidate : Candidate) : PrimaryElector :=
  { s with nominations := s.nominations.set instId ((s.nominationsOf instId).set sender candidate) }

/-- `reElectionProposals[instId][sender] = tieAmong` -/
def setReElectionProposal (instId : ℕ) (sender : RepName) (tieAmong : List Candidate) : PrimaryElector :=
  { s with reElectionProposals :=
      s.reElectionProposals.set instId ((s.reElectionProposalsOf instId).set sender tieAmong) }

/-- what `replica.primaryChanged` writes -/
def setPrimary (instId : ℕ) (primary : RepName) (seqNo : ℕ) : PrimaryElector :=
  { s with
    replicas := s.replicas.modify instId fun r =>
      { r with primaryName := some primary, lastOrderedPPSeqNo := max r.lastOrderedPPSeqNo seqNo }
    masterPrimaries :=
      if instId = 0 then s.masterPrimaries ++ [(s.formerMasterPrimary, getNodeName primary)] else s.masterPrimaries }

/-! ## What the elector knows -/

def hasPrimaryReplica : Bool := s.replicas.any fun r => r.isPrimary = some true

def wasMasterPrimaryInPrevView : Bool := s.previousMasterPrimary = some s.name

/-- `node.master_primary` -/
def masterPrimary : Option NodeName := (s.replicas[0]?.bind ElectedReplica.primaryName).map getNodeName

def didReplicaNominate (instId : ℕ) : Bool :=
  match s.replicas[instId]? with
  | none => false
  | some replica => (s.nominationsOf instId).contains replica.name

def reElectionRound (instId : ℕ) : ℕ := (s.reElectionRounds.get? instId).getD 0

/-- the candidates with the most nominations, with their numbers -/
def getPrimaryCandidates (instId : ℕ) : List (Candidate × ℕ) :=
  let candidates := itemCounts (s.nominationsOf instId).values
  match maxEntry candidates.entries with
  | none => []
  | some m => candidates.entries.filter fun c => c.2 = m.2

def scheduledAt (instId : ℕ) : Option ℕ := (s.scheduledPrimaryDecisions.get? instId).getD none

section Timers

-- the ticks of a second
variable (second : ℕ)

/-- a decision is scheduled, and it is due -/
def hasPrimaryDecisionTimerExpired (instId : ℕ) : Bool :=
  match s.scheduledAt instId with
  | none => false
  | some t => decide (t + s.nodeCount * second < s.perfCounter)

/-! ## Nominating -/

/-- the instances without a primary; the last primary of the master instance does not try that one again -/
def undecidedInstIds : List ℕ :=
  ((s.replicas.zipIdx.filter fun r => r.1.isPrimary = none).map Prod.snd).filter fun i =>
    ¬ (i = 0 ∧ s.wasMasterPrimaryInPrevView = true)

/-- a random one of them -/
def chosenInstId : Option ℕ := s.undecidedInstIds[s.randomChoice % s.undecidedInstIds.length]?

def nominateRandomReplica : PrimaryElector :=
  if s.isParticipating then
    match s.chosenInstId with
    | none => s
    | some chosen => { s with replicaNominatedForItself := some chosen }.schedule (.nominateReplica chosen) 0
  else s

/-- only once, until the election of the instance is over -/
def nominateItself : PrimaryElector :=
  if s.replicaNominatedForItself = none then if s.hasPrimaryReplica then s else s.nominateRandomReplica else s

/-- it raises a `KeyError` if there is no election in the instance yet -/
def nominateReplica (instId : ℕ) : PrimaryElector :=
  match s.replicas[instId]? with
  | none => s
  | some replica =>
    if s.didReplicaNominate instId then s
    else if s.nominations.contains instId then
      (s.setNomination instId replica.name (replica.name, replica.lastOrderedPPSeqNo)).send
        (.nomination ⟨replica.name, instId, s.viewNo, replica.lastOrderedPPSeqNo⟩)
    else s

def prepareReplicaForElection (replica : ElectedReplica) : PrimaryElector :=
  if s.nominations.contains replica.name.instId then s else s.setDefaults replica.name.instId

def startElection : PrimaryElector := (s.replicas.foldl prepareReplicaForElection s).nominateItself

def scheduleElection : PrimaryElector := s.schedule .startElection 0

/-! ## View changes -/

/-- the primaries are unknown in the new view -/
def forgetPrimaries (viewNo : ℕ) : PrimaryElector :=
  { s with previousMasterPrimary := s.masterPrimary, formerMasterPrimary := s.masterPrimary, viewNo := viewNo,
           replicas := s.replicas.map fun r => { r with primaryName := none } }

def viewChanged (viewNo : ℕ) : PrimaryElector :=
  if s.viewNo < viewNo then
    let s := s.forgetPrimaries viewNo
    let s := s.replicas.foldl (fun s r => s.setDefaults r.name.instId) s
    nominateRandomReplica { s with replicaNominatedForItself := none }
  else s

/-- `viewChanged`, if the master replica raises when its primary becomes unknown: the elections do not start anew -/
def viewChangedPartly (viewNo : ℕ) : PrimaryElector :=
  if s.viewNo < viewNo then
    { s with previousMasterPrimary := s.masterPrimary, formerMasterPrimary := s.masterPrimary, viewNo := viewNo,
             replicas := s.replicas.modify 0 fun r => { r with primaryName := none } }
  else s

/-- a new view; whether the master replica raises meanwhile -/
structure StartedView where
  viewNo : ℕ
  raises : Bool
deriving DecidableEq, Repr

def startView (v : StartedView) : PrimaryElector := if v.raises then s.viewChangedPartly v.viewNo else s.viewChanged v.viewNo

/-- What the three phase messages come to that have waited for a primary: the view changes that they start, and whether one
of them raises at last. -/
structure Dispatched where
  views : List StartedView
  raises : Bool
deriving DecidableEq, Repr

/-- they start no view change -/
def Dispatched.quiet : Dispatched := ⟨[], false⟩

/-! ## Messages -/

/-- the node follows a nomination if it has not nominated in the instance -/
def nominate (replica : ElectedReplica) (nom : Nomination) : PrimaryElector :=
  if s.didReplicaNominate nom.instId then s
  else
    let s := if s.nominations.contains nom.instId then s else s.setDefaults nom.instId
    (s.setNomination nom.instId replica.name (nom.name, nom.ordSeqNo)).send
      (.nomination ⟨nom.name, nom.instId, nom.viewNo, nom.ordSeqNo⟩)

/-- the nomination of the sender, once -/
def recordNomination (nom : Nomination) (sndrRep : RepName) : PrimaryElector :=
  if (s.nominationsOf nom.instId).contains sndrRep then s
  else (s.setNomination nom.instId sndrRep (nom.name, nom.ordSeqNo)).schedule (.decidePrimary nom.instId) 0

/-- the primary of the master instance in the last view is not elected again -/
def excludes (instId : ℕ) (name : RepName) : Bool :=
  decide (instId = 0 ∧ s.previousMasterPrimary = some (getNodeName name))

def processNominate (nom : Nomination) (sender : NodeName) : PrimaryElector :=
  match s.replicas[nom.instId]? with
  | none => s
  | some replica =>
    if s.excludes nom.instId nom.name then s
    else (s.nominate replica nom).recordNomination nom (generateName sender nom.instId)

/-- `replica.primaryChanged`, which also dispatches the messages that have waited -/
def primaryChanged (instId : ℕ) (primary : RepName) (seqNo : ℕ) (d : Dispatched) : PrimaryElector :=
  d.views.foldl startView (s.setPrimary instId primary seqNo)

/-- The primary with the most declarations. The elector goes on when the messages that have waited are dispatched, also
after a view change, unless one of them raises. -/
def selectPrimary (instId : ℕ) (d : Dispatched) : PrimaryElector :=
  match mostCommonElement (s.primaryDeclarationsOf instId).values with
  | none => s
  | some (primary, seqNo) =>
    let s := s.primaryChanged instId primary seqNo d
    if d.raises then s
    else
      let s := if instId = 0 then { s with previousMasterPrimary := none } else s
      let s := if s.replicaNominatedForItself = some instId then { s with replicaNominatedForItself := none } else s
      s.scheduleElection

def processPrimary (prim : Primary) (sender : NodeName) (d : Dispatched) : PrimaryElector :=
  match s.replicas[prim.instId]? with
  | none => s
  | some replica =>
    if s.excludes prim.instId prim.name then s
    else
      let s := if s.primaryDeclarations.contains prim.instId then s else s.setDefaults prim.instId
      if (s.primaryDeclarationsOf prim.instId).contains (generateName sender prim.instId) then s
      else
        let s := s.setPrimaryDeclaration prim.instId (generateName sender prim.instId) (prim.name, prim.ordSeqNo)
        if replica.isPrimary.isSome then s
        else if s.hasPrimaryQuorum prim.instId then s.selectPrimary prim.instId d
        else s

/-- the round that a re-election must have: the one the node has proposed, or else the next one -/
def expectedRound (instId : ℕ) (replica : ElectedReplica) : ℕ :=
  s.reElectionRound instId + if (s.reElectionProposalsOf instId).contains replica.name then 0 else 1

/-- a quorum of proposals: the election starts anew. A node in the tie waits for a while before it nominates itself. -/
def startReelection (instId : ℕ) (replica : ElectedReplica) : PrimaryElector :=
  match mostCommonElement (s.reElectionProposalsOf instId).values with
  | none => s
  | some tieAmong =>
    let s := s.setElectionDefaults instId
    if s.hasPrimaryReplica = false ∧ s.wasMasterPrimaryInPrevView = false then
      if replica.name ∈ tieAmong.map Prod.fst then s.schedule (.nominateReplica instId) (s.randomWait * second)
      else s.nominateReplica instId
    else s

def processReelection (reelection : Reelection) (sender : NodeName) : PrimaryElector :=
  match s.replicas[reelection.instId]? with
  | none => s
  | some replica =>
    let s := if s.reElectionProposals.contains reelection.instId then s else s.setDefaults reelection.instId
    if reelection.round ≠ s.expectedRound reelection.instId replica then s
    else if (s.reElectionProposalsOf reelection.instId).contains (generateName sender reelection.instId) then s
    else
      let s := s.setReElectionProposal reelection.instId (generateName sender reelection.instId) reelection.tieAmong
      if s.hasReelectionQuorum reelection.instId then s.startReelection second reelection.instId replica else s

/-- `inBoxRouter` -/
def inBoxRouter (m : ElectionMsg) (sender : NodeName) (d : Dispatched) : PrimaryElector :=
  match m with
  | .nomination m => s.processNominate m sender
  | .primary m => s.processPrimary m sender d
  | .reelection m => s.processReelection second m sender

/-- only messages of the current view are kept -/
def filterMsgs (wrappedMsgs : List (ElectionMsg × NodeName)) : List (ElectionMsg × NodeName) :=
  wrappedMsgs.filter fun w => w.1.viewNo = s.viewNo

/-! ## Deciding -/

def sendPrimary (instId : ℕ) (replica : ElectedReplica) (primaryName : RepName) (lastOrderedSeqNo : ℕ) :
    PrimaryElector :=
  let s := s.setPrimaryDeclaration instId replica.name (primaryName, lastOrderedSeqNo)
  let s := { s with scheduledPrimaryDecisions := s.scheduledPrimaryDecisions.set instId none }
  s.send (.primary ⟨primaryName, instId, s.viewNo, lastOrderedSeqNo⟩)

def sendReelection (instId : ℕ) (replica : ElectedReplica) (primaryCandidates : List Candidate) : PrimaryElector :=
  let s := { s with reElectionRounds := s.reElectionRounds.set instId (s.reElectionRound instId + 1) }
  let s := s.setReElectionProposal instId replica.name primaryCandidates
  let s := { s with scheduledPrimaryDecisions := s.scheduledPrimaryDecisions.set instId none }
  s.send (.reelection ⟨instId, s.reElectionRound instId, primaryCandidates, s.viewNo⟩)

/-- wait for more nominations -/
def schedulePrimaryDecision (instId : ℕ) : PrimaryElector :=
  if (s.scheduledAt instId).getD 0 = 0 then
    { s with scheduledPrimaryDecisions := s.scheduledPrimaryDecisions.set instId (some s.perfCounter) }.schedule
      (.decidePrimary instId) (s.nodeCount * second)
  else if s.hasPrimaryDecisionTimerExpired second instId then s.schedule (.decidePrimary instId) 0
  else s

/-- what is not there yet is empty; no decision is scheduled then -/
def addDecisionDefaults (instId : ℕ) : PrimaryElector :=
  { s with
    primaryDeclarations :=
      if s.primaryDeclarations.contains instId then s.primaryDeclarations
      else s.primaryDeclarations.set instId Dict.empty
    reElectionProposals :=
      if s.reElectionProposals.contains instId then s.reElectionProposals
      else s.reElectionProposals.set instId Dict.empty
    scheduledPrimaryDecisions :=
      if s.scheduledPrimaryDecisions.contains instId then s.scheduledPrimaryDecisions
      else s.scheduledPrimaryDecisions.set instId none
    reElectionRounds :=
      if s.reElectionRounds.contains instId then s.reElectionRounds else s.reElectionRounds.set instId 0 }

/-- enough nominations have come: from all nodes, or as long as the node wants to wait -/
def hasEnoughNominations (instId : ℕ) : Bool :=
  s.hasNominationsFromAll instId || s.hasPrimaryDecisionTimerExpired second instId

/-- `math.ceil((nodeCount + 1) / 2.0)` -/
def votesNeeded : ℕ := (s.nodeCount + 2) / 2

/-- a clear winner is declared, with enough nominations or with a majority; a tie leads to a re-election -/
def decideOnCandidates (instId : ℕ) (replica : ElectedReplica) : PrimaryElector :=
  match s.getPrimaryCandidates instId with
  | [((primaryName, seqNo), votes)] =>
    if s.hasEnoughNominations second instId then s.sendPrimary instId replica primaryName seqNo
    else if s.votesNeeded ≤ votes then s.sendPrimary instId replica primaryName seqNo
    else s.schedulePrimaryDecision second instId
  | candidates =>
    if s.hasEnoughNominations second instId then s.sendReelection instId replica (candidates.map Prod.fst)
    else s.schedulePrimaryDecision second instId

def decidePrimary (instId : ℕ) : PrimaryElector :=
  match s.replicas[instId]? with
  | none => s
  | some replica =>
    let s := s.addDecisionDefaults instId
    if (s.primaryDeclarationsOf instId).contains replica.name then s
    else if (s.reElectionProposalsOf instId).contains replica.name then s
    else if s.hasNominationQuorum instId then s.decideOnCandidates second instId replica
    else s

/-! ## Nodes that lag behind -/

/-- what a node that has joined is told of the election of an instance -/
def getElectionMsgsForInstance (instId : ℕ) : List ElectionMsg :=
  match s.replicas[instId]? with
  | none => []
  | some replica =>
    match replica.primaryName with
    | some primaryName => [.primary ⟨primaryName, instId, s.viewNo, replica.lastOrderedPPSeqNo⟩]
    | none =>
      (match (s.nominationsOf instId).get? replica.name with
        | some (nm, seqNo) => [.nomination ⟨nm, instId, s.viewNo, seqNo⟩]
        | none => []) ++
      match (s.primaryDeclarationsOf instId).get? replica.name with
        | some (nm, seqNo) => [.primary ⟨nm, instId, s.viewNo, seqNo⟩]
        | none => []

def getElectionMsgsForLaggedNodes : List ElectionMsg :=
  (List.range s.replicas.length).flatMap s.getElectionMsgsForInstance

/-- another message to some nodes only, which does not go through `outBox` -/
def sendAgain (m : ElectionMsg) : PrimaryElector := { s with sent := s.sent ++ [(m, s.restartsOf m.instId)] }

/-- `sendElectionMsgsToLaggingNode` -/
def sendToLagged : PrimaryElector := s.getElectionMsgsForLaggedNodes.foldl sendAgain s

/-! ## Events -/

def runAction : ElectorAction → PrimaryElector
  | .startElection => s.startElection
  | .nominateItself => s.nominateItself
  | .nominateReplica instId => s.nominateReplica instId
  | .decidePrimary instId => s.decidePrimary second instId

/-- What happens to an elector. The node and its replicas set the fields of `update`. A message starts no view change from
within. -/
inductive ElectorEvent where
  | message (m : ElectionMsg) (sender : NodeName)
  | action
  | moveDue
  | decidePrimaries
  /-- other nodes are connected (`onConnsChanged`) -/
  | nodesJoined
  | viewChanged (viewNo : ℕ)
  | update (perfCounter nodeCount randomChoice randomWait : ℕ) (isParticipating : Bool) (ordered : List ℕ)
deriving DecidableEq

/-- the replicas have ordered up to the given numbers -/
def setOrdered (ordered : List ℕ) : List ElectedReplica :=
  s.replicas.mapIdx fun i r => { r with lastOrderedPPSeqNo := ordered.getD i r.lastOrderedPPSeqNo }

def handle : ElectorEvent → PrimaryElector
  | .message m sender => if m.viewNo = s.viewNo then s.inBoxRouter second m sender .quiet else s
  | .action =>
    match s.actions.actionQueue with
    | [] => s
    | (action, _) :: rest => runAction { s with actions := { s.actions with actionQueue := rest } } second action
  | .moveDue => { s with actions := s.actions.moveDue s.perfCounter }
  | .decidePrimaries => s.scheduleElection
  | .nodesJoined => s.sendToLagged
  | .viewChanged viewNo => s.viewChanged viewNo
  | .update perfCounter nodeCount randomChoice randomWait isParticipating ordered =>
    { s with perfCounter := perfCounter, nodeCount := nodeCount, randomChoice := randomChoice,
             randomWait := randomWait, isParticipating := isParticipating, replicas := s.setOrdered ordered }

def run (events : List ElectorEvent) : PrimaryElector := events.foldl (fun s e => s.handle second e) s

end Timers

end PrimaryElector

end Plenum
