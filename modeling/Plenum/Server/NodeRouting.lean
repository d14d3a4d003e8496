/-
A node and the protocol instances it takes part in: how many there are, and how the messages of other nodes find them.

- `sendToReplica`, `sendToElector`: a message for a later view or for an instance that the node does not have is kept;
  any other one is put in the queue of its replica or of the elector, unless it is of a view before the last one.
- `adjustReplicas`, `startViewChange`: the node gets a new instance or enters a view, and routes again what was kept
  for it.
- `replicas_inStep_iff`: the lists of the node and of its monitor have one length in those sequences of calls only in
  which no replica is removed.

The messages are those of an election and those of the instances (`Server.Node` has the latter only, for one view).
`kept`, `puts` and `elections` are histories: the messages that were ahead of the node when they came, every message
put in a queue, with the view of the node then, and the instances for which an election was started. No method reads
them, nor the number of its arrival that a message carries.
-/
import Mathlib.Tactic
import Plenum.Core.Run
import Plenum.Server.Monitor
import Plenum.Server.Quorums

namespace Plenum

open Plenum.Core

/-! ## Messages and queues -/

/-- a message that is for a protocol instance and of a view -/
inductive RoutedMsg where
  | election (m : ElectionMsg)
  | threePhase (m : ThreePhaseMsg)
  | checkpoint (c : Checkpoint)
deriving DecidableEq

/-- where a message is put -/
inductive MsgQueue where
  | replica (instId : ℕ)
  | elector
deriving DecidableEq

namespace RoutedMsg

def instId : RoutedMsg → ℕ
  | election m => m.instId
  | threePhase (.prePrepare pp) => pp.instId
  | threePhase (.prepare p) => p.instId
  | threePhase (.commit c) => c.instId
  | checkpoint c => c.instId

def viewNo : RoutedMsg → ℕ
  | election m => m.viewNo
  | threePhase m => m.viewNo
  | checkpoint c => c.viewNo

def isElection : RoutedMsg → Bool
  | election _ => true
  | _ => false

def isCheckpoint : RoutedMsg → Bool
  | checkpoint _ => true
  | _ => false

/-- the queue that a message belongs in -/
def queue (m : RoutedMsg) : MsgQueue := if m.isElection then .elector else .replica m.instId

end RoutedMsg

/-- a message, its sender, and the number of its arrival -/
structure WrappedMsg where
  msg : RoutedMsg
  frm : NodeName
  arrival : ℕ
deriving DecidableEq

namespace WrappedMsg

def instId (w : WrappedMsg) : ℕ := w.msg.instId

def viewNo (w : WrappedMsg) : ℕ := w.msg.viewNo

end WrappedMsg

/-- a message put in a queue, and the view of the node then -/
structure Put where
  wrapped : WrappedMsg
  queue : MsgQueue
  viewNo : ℕ
deriving DecidableEq

/-- the messages that wait for an instance, or for a view -/
inductive Stash where
  | futureReplica (instId : ℕ)
  | futureView (viewNo : ℕ)
deriving DecidableEq

/-! ## The state -/

/-- what the node knows of its replica here -/
structure NodeReplica where
  instId : ℕ
  isMaster : Bool
deriving DecidableEq

structure RoutingNode extends PoolSize where
  name : NodeName
  nodeReg : Dict NodeName (String × ℤ)
  viewNo : ℕ
  viewChangeInProgress : Bool
  replicas : List NodeReplica
  msgsToReplicas : List (List WrappedMsg)
  msgsToElector : List WrappedMsg
  msgsForFutureReplicas : Dict ℕ (List WrappedMsg)
  msgsForFutureViews : Dict ℕ (List WrappedMsg)
  monitor : Monitor
  perfCounter : ℚ
  arrivals : ℕ
  elections : List ℕ
  kept : List WrappedMsg
  puts : List Put

namespace RoutingNode

variable (s : RoutingNode)

def setNodeReg (nodeReg : Dict NodeName (String × ℤ)) : RoutingNode := { s with nodeReg := nodeReg }

def setF : RoutingNode := { s with toPoolSize := Plenum.setF s.nodeReg s.name }

/-! ## Routing -/

def waiting : Stash → List WrappedMsg
  | .futureReplica instId => (s.msgsForFutureReplicas.get? instId).getD []
  | .futureView viewNo => (s.msgsForFutureViews.get? viewNo).getD []

def setWaiting (ws : List WrappedMsg) : Stash → RoutingNode
  | .futureReplica instId => { s with msgsForFutureReplicas := s.msgsForFutureReplicas.set instId ws }
  | .futureView viewNo => { s with msgsForFutureViews := s.msgsForFutureViews.set viewNo ws }

/-- the message waits -/
def keepFor (st : Stash) (w : WrappedMsg) : RoutingNode := s.setWaiting (s.waiting st ++ [w]) st

/-- the number of an instance is that of its queue -/
def msgHasAcceptableInstId (w : WrappedMsg) : Bool × RoutingNode :=
  if s.msgsToReplicas.length ≤ w.instId then (false, s.keepFor (.futureReplica w.instId) w) else (true, s)

/-- a message from before the last view is dropped -/
def msgHasAcceptableViewNo (w : WrappedMsg) : Bool × RoutingNode :=
  if 1 < s.viewNo - w.viewNo then (false, s)
  else if s.viewNo < w.viewNo then (false, s.keepFor (.futureView w.viewNo) w)
  else (true, s)

def putToReplica (w : WrappedMsg) : RoutingNode :=
  { s with msgsToReplicas := s.msgsToReplicas.modify w.instId (· ++ [w]),
           puts := s.puts ++ [⟨w, .replica w.instId, s.viewNo⟩] }

def putToElector (w : WrappedMsg) : RoutingNode :=
  { s with msgsToElector := s.msgsToElector ++ [w], puts := s.puts ++ [⟨w, .elector, s.viewNo⟩] }

/-- both checks, the second one only if the first one passes -/
def acceptable (w : WrappedMsg) : Bool × RoutingNode :=
  match s.msgHasAcceptableInstId w with
  | (false, s) => (false, s)
  | (true, s) => s.msgHasAcceptableViewNo w

def sendToReplica (w : WrappedMsg) : RoutingNode :=
  match s.acceptable w with
  | (false, s) => s
  | (true, s) => s.putToReplica w

def sendToElector (w : WrappedMsg) : RoutingNode :=
  match s.acceptable w with
  | (false, s) => s
  | (true, s) => s.putToElector w

/-- the routes of the messages from other nodes -/
def nodeMsgRouter (w : WrappedMsg) : RoutingNode :=
  match w.msg with
  | .election _ => s.sendToElector w
  | .threePhase _ => s.sendToReplica w
  | .checkpoint _ => s.sendToReplica w

/-- whether the message is ahead of the node -/
def IsAhead (w : WrappedMsg) : Prop := s.msgsToReplicas.length ≤ w.instId ∨ s.viewNo < w.viewNo

instance (w : WrappedMsg) : Decidable (s.IsAhead w) := by
  unfold IsAhead
  infer_instance

/-- a message comes -/
def receive (msg : RoutedMsg) (frm : NodeName) : RoutingNode :=
  let w : WrappedMsg := ⟨msg, frm, s.arrivals⟩
  { s.nodeMsgRouter w with arrivals := s.arrivals + 1, kept := if s.IsAhead w then s.kept ++ [w] else s.kept }

/-! ## Messages that were kept -/

/-- whether the type of the message is one of those that are kept -/
def dispatchStashedMsg (w : WrappedMsg) : Bool × RoutingNode :=
  match w.msg with
  | .election _ => (true, s.sendToElector w)
  | .threePhase _ => (true, s.sendToReplica w)
  | .checkpoint _ => (false, s)

/-- a loop over a stash; a message of an unknown type is discarded -/
def processStashed (st : Stash) : ℕ → RoutingNode → RoutingNode
  | 0, s => s
  | fuel + 1, s =>
    match s.waiting st with
    | [] => s
    | w :: rest => processStashed st fuel ((s.setWaiting rest st).dispatchStashedMsg w).2

def processStashedMsgsForReplica (instId : ℕ) : RoutingNode :=
  processStashed (.futureReplica instId) (s.waiting (.futureReplica instId)).length s

def processStashedMsgsForView (viewNo : ℕ) : RoutingNode :=
  processStashed (.futureView viewNo) (s.waiting (.futureView viewNo)).length s

/-! ## Replicas -/

def addReplica : RoutingNode :=
  { s with replicas := s.replicas ++ [⟨s.replicas.length, decide (s.replicas.length = 0)⟩],
           msgsToReplicas := s.msgsToReplicas ++ [[]],
           monitor := s.monitor.addInstance s.perfCounter }

/-- the monitor gets one more instance here, too -/
def removeReplica : RoutingNode :=
  { s with replicas := s.replicas.dropLast, msgsToReplicas := s.msgsToReplicas.dropLast,
           monitor := s.monitor.addInstance s.perfCounter }

/-- `pop_keys` -/
def popKeys (d : Dict ℕ (List WrappedMsg)) (cond : ℕ → Bool) : Dict ℕ (List WrappedMsg) :=
  d.eraseAll (d.keys.filter cond)

/-- a new replica gets the messages that wait for its instance -/
def addAndService : RoutingNode := s.addReplica.processStashedMsgsForReplica s.replicas.length

/-- how many replicas are added, or removed if negative -/
def adjustReplicas : ℤ × RoutingNode :=
  let before := s.replicas.length
  let s := addAndService^[s.requiredNumberOfInstances - s.replicas.length] s
  let s := removeReplica^[s.replicas.length - s.requiredNumberOfInstances] s
  (s.replicas.length - before,
    { s with msgsForFutureReplicas := popKeys s.msgsForFutureReplicas (· < s.replicas.length) })

/-- `start_election_for_instance` for the last replicas -/
def startElections (newReplicas : ℕ) : RoutingNode :=
  { s with elections := s.elections ++ (s.replicas.drop (s.replicas.length - newReplicas)).map NodeReplica.instId }

/-- the replicas are adjusted twice -/
def newNodeJoined : RoutingNode :=
  let (newReplicas, s) := s.setF.adjustReplicas
  let (again, s) := s.adjustReplicas
  if 0 < again then s.startElections newReplicas.toNat else s

def nodeLeft : RoutingNode := s.setF.adjustReplicas.2

/-! ## View changes -/

/-- the elector, which is told then, is left out -/
def startViewChange (proposedViewNo : ℕ) : RoutingNode :=
  let s := { s with viewChangeInProgress := true, viewNo := proposedViewNo, monitor := s.monitor.reset }
  let s := s.processStashedMsgsForView proposedViewNo
  { s with msgsForFutureViews := popKeys s.msgsForFutureViews (· ≤ s.viewNo) }

/-- with a quorum of requests for it; the view must be a later one (`canViewChange`) -/
def doViewChangeIfPossible (viewNo : ℕ) : RoutingNode := if s.viewNo < viewNo then s.startViewChange viewNo else s

/-! ## Histories -/

/-- what happens to a node. Pool changes come with the registry after them. -/
inductive Event where
  | receive (msg : RoutedMsg) (frm : NodeName)
  | viewChange (viewNo : ℕ)
  | newNodeJoined (nodeReg : Dict NodeName (String × ℤ))
  | nodeLeft (nodeReg : Dict NodeName (String × ℤ))
  | popReplicaMsg (instId : ℕ)
  | popElectorMsg
deriving DecidableEq

/-- the registry after a pool change -/
def Event.nodeReg? : Event → Option (Dict NodeName (String × ℤ))
  | newNodeJoined nodeReg => some nodeReg
  | nodeLeft nodeReg => some nodeReg
  | _ => none

def handle : Event → RoutingNode
  | .receive msg frm => s.receive msg frm
  | .viewChange viewNo => s.doViewChangeIfPossible viewNo
  | .newNodeJoined nodeReg => (s.setNodeReg nodeReg).newNodeJoined
  | .nodeLeft nodeReg => (s.setNodeReg nodeReg).nodeLeft
  | .popReplicaMsg instId => { s with msgsToReplicas := s.msgsToReplicas.modify instId List.tail }
  | .popElectorMsg => { s with msgsToElector := s.msgsToElector.tail }

def run (events : List Event) : RoutingNode := events.foldl handle s

/-- a node before its replicas are made -/
def blank (name : NodeName) (nodeReg : Dict NodeName (String × ℤ)) (monitor : Monitor) : RoutingNode where
  toPoolSize := Plenum.setF nodeReg name
  name := name
  nodeReg := nodeReg
  viewNo := 0
  viewChangeInProgress := false
  replicas := []
  msgsToReplicas := []
  msgsToElector := []
  msgsForFutureReplicas := Dict.empty
  msgsForFutureViews := Dict.empty
  monitor := monitor
  perfCounter := 0
  arrivals := 0
  elections := []
  kept := []
  puts := []

/-- a new node; its monitor is new, too -/
def init (name : NodeName) (nodeReg : Dict NodeName (String × ℤ)) (monitor : Monitor) : RoutingNode :=
  (blank name nodeReg monitor).adjustReplicas.2

/-! ## What routing leaves alone -/

/-- `s'` differs from `s` only in the messages that wait and in the queues -/
structure Routed (s s' : RoutingNode) : Prop where
  size : s'.toPoolSize = s.toPoolSize
  name : s'.name = s.name
  viewNo : s'.viewNo = s.viewNo
  replicas : s'.replicas = s.replicas
  queues : s'.msgsToReplicas.length = s.msgsToReplicas.length
  monitor : s'.monitor = s.monitor
  arrivals : s'.arrivals = s.arrivals
  elections : s'.elections = s.elections
  kept : s'.kept = s.kept

theorem Routed.refl (s : RoutingNode) : Routed s s := ⟨rfl, rfl, rfl, rfl, rfl, rfl, rfl, rfl, rfl⟩

theorem Routed.trans {s s' s'' : RoutingNode} (h : Routed s s') (h' : Routed s' s'') : Routed s s'' :=
  ⟨h'.size.trans h.size, h'.name.trans h.name, h'.viewNo.trans h.viewNo, h'.replicas.trans h.replicas,
    h'.queues.trans h.queues, h'.monitor.trans h.monitor, h'.arrivals.trans h.arrivals,
    h'.elections.trans h.elections, h'.kept.trans h.kept⟩

theorem setWaiting_routed (s : RoutingNode) (ws : List WrappedMsg) (st : Stash) : Routed s (s.setWaiting ws st) := by
  cases st <;> exact ⟨rfl, rfl, rfl, rfl, rfl, rfl, rfl, rfl, rfl⟩

theorem keepFor_routed (s : RoutingNode) (st : Stash) (w : WrappedMsg) : Routed s (s.keepFor st w) :=
  setWaiting_routed s _ _

/-- both checks: the message waits, is dropped, or passes -/
theorem acceptable_cases (s : RoutingNode) (w : WrappedMsg) :
    (s.msgsToReplicas.length ≤ w.instId ∧ s.acceptable w = (false, s.keepFor (.futureReplica w.instId) w)) ∨
      (w.instId < s.msgsToReplicas.length ∧ w.viewNo + 1 < s.viewNo ∧ s.acceptable w = (false, s)) ∨
      (w.instId < s.msgsToReplicas.length ∧ s.viewNo < w.viewNo ∧
        s.acceptable w = (false, s.keepFor (.futureView w.viewNo) w)) ∨
      (w.instId < s.msgsToReplicas.length ∧ w.viewNo ≤ s.viewNo ∧ s.viewNo ≤ w.viewNo + 1 ∧
        s.acceptable w = (true, s)) := by
  unfold acceptable msgHasAcceptableInstId msgHasAcceptableViewNo
  by_cases hinst : s.msgsToReplicas.length ≤ w.instId
  · rw [if_pos hinst]
    exact Or.inl ⟨hinst, rfl⟩
  · rw [if_neg hinst]
    dsimp only
    split_ifs with hold hahead
    · exact Or.inr (Or.inl ⟨not_le.1 hinst, by omega, rfl⟩)
    · exact Or.inr (Or.inr (Or.inl ⟨not_le.1 hinst, hahead, rfl⟩))
    · exact Or.inr (Or.inr (Or.inr ⟨not_le.1 hinst, by omega, by omega, rfl⟩))

theorem acceptable_routed (s : RoutingNode) (w : WrappedMsg) : Routed s (s.acceptable w).2 := by
  obtain ⟨-, h⟩ | ⟨-, -, h⟩ | ⟨-, -, h⟩ | ⟨-, -, -, h⟩ := acceptable_cases s w
  · rw [h]
    exact keepFor_routed s (.futureReplica w.instId) w
  · rw [h]
    exact Routed.refl s
  · rw [h]
    exact keepFor_routed s (.futureView w.viewNo) w
  · rw [h]
    exact Routed.refl s

theorem putToReplica_routed (s : RoutingNode) (w : WrappedMsg) : Routed s (s.putToReplica w) :=
  { Routed.refl s with queues := List.length_modify _ _ _ }

theorem putToElector_routed (s : RoutingNode) (w : WrappedMsg) : Routed s (s.putToElector w) :=
  ⟨rfl, rfl, rfl, rfl, rfl, rfl, rfl, rfl, rfl⟩

theorem sendToReplica_routed (s : RoutingNode) (w : WrappedMsg) : Routed s (s.sendToReplica w) := by
  have h := acceptable_routed s w
  unfold sendToReplica
  cases hacc : s.acceptable w with
  | mk ok s' =>
    rw [hacc] at h
    cases ok with
    | false => exact h
    | true => exact h.trans (putToReplica_routed s' w)

theorem sendToElector_routed (s : RoutingNode) (w : WrappedMsg) : Routed s (s.sendToElector w) := by
  have h := acceptable_routed s w
  unfold sendToElector
  cases hacc : s.acceptable w with
  | mk ok s' =>
    rw [hacc] at h
    cases ok with
    | false => exact h
    | true => exact h.trans (putToElector_routed s' w)

theorem nodeMsgRouter_routed (s : RoutingNode) (w : WrappedMsg) : Routed s (s.nodeMsgRouter w) := by
  unfold nodeMsgRouter
  cases w.msg with
  | election m => exact sendToElector_routed s w
  | threePhase m => exact sendToReplica_routed s w
  | checkpoint c => exact sendToReplica_routed s w

theorem dispatchStashedMsg_routed (s : RoutingNode) (w : WrappedMsg) : Routed s (s.dispatchStashedMsg w).2 := by
  unfold dispatchStashedMsg
  cases w.msg with
  | election m => exact sendToElector_routed s w
  | threePhase m => exact sendToReplica_routed s w
  | checkpoint c => exact Routed.refl s

theorem processStashed_routed (st : Stash) (fuel : ℕ) (s : RoutingNode) : Routed s (processStashed st fuel s) := by
  induction fuel generalizing s with
  | zero => exact Routed.refl s
  | succ fuel ih =>
    unfold processStashed
    cases s.waiting st with
    | nil => exact Routed.refl s
    | cons w rest =>
      exact ((setWaiting_routed s rest st).trans (dispatchStashedMsg_routed _ w)).trans (ih _)

/-! ## Bookkeeping -/

/-- **In step.** The node and its monitor have as many entries as there are instances, and as many as are needed. -/
structure InStep (s : RoutingNode) : Prop where
  required : s.replicas.length = s.f + 1
  queues : s.msgsToReplicas.length = s.replicas.length
  count : s.monitor.instances.count = s.replicas.length
  ordered : s.monitor.numOrderedRequests.length = s.replicas.length
  clients : s.monitor.clientAvgReqLatencies.length = s.replicas.length
  started : s.monitor.instances.started.length = s.replicas.length

/-- the node has `n` replicas now; its monitor knows of `k` more instances -/
structure Resized (s s' : RoutingNode) (n k : ℕ) : Prop where
  size : s'.toPoolSize = s.toPoolSize
  name : s'.name = s.name
  replicas : s'.replicas.length = n
  queues : s.msgsToReplicas.length = s.replicas.length → s'.msgsToReplicas.length = n
  count : s'.monitor.instances.count = s.monitor.instances.count + k
  ordered : s'.monitor.numOrderedRequests.length = s.monitor.numOrderedRequests.length + k
  clients : s'.monitor.clientAvgReqLatencies.length = s.monitor.clientAvgReqLatencies.length + k

theorem Resized.refl (s : RoutingNode) : Resized s s s.replicas.length 0 := ⟨rfl, rfl, rfl, id, rfl, rfl, rfl⟩

theorem Resized.trans {s s' s'' : RoutingNode} {n n' k k' : ℕ} (h : Resized s s' n k) (h' : Resized s' s'' n' k') :
    Resized s s'' n' (k + k') where
  size := h'.size.trans h.size
  name := h'.name.trans h.name
  replicas := h'.replicas
  queues hq := h'.queues ((h.queues hq).trans h.replicas.symm)
  count := by rw [h'.count, h.count, add_assoc]
  ordered := by rw [h'.ordered, h.ordered, add_assoc]
  clients := by rw [h'.clients, h.clients, add_assoc]

theorem addReplica_resized (s : RoutingNode) : Resized s s.addReplica (s.replicas.length + 1) 1 where
  size := rfl
  name := rfl
  replicas := by simp [addReplica]
  queues h := by simp [addReplica, h]
  count := rfl
  ordered := by simp [addReplica, Monitor.addInstance]
  clients := by simp [addReplica, Monitor.addInstance]

theorem removeReplica_resized (s : RoutingNode) : Resized s s.removeReplica (s.replicas.length - 1) 1 where
  size := rfl
  name := rfl
  replicas := by simp [removeReplica]
  queues h := by simp [removeReplica, h]
  count := rfl
  ordered := by simp [removeReplica, Monitor.addInstance]
  clients := by simp [removeReplica, Monitor.addInstance]

theorem Routed.resized {s s' : RoutingNode} (h : Routed s s') : Resized s s' s.replicas.length 0 where
  size := h.size
  name := h.name
  replicas := by rw [h.replicas]
  queues hq := h.queues.trans hq
  count := by rw [h.monitor, add_zero]
  ordered := by rw [h.monitor, add_zero]
  clients := by rw [h.monitor, add_zero]

theorem addAndService_resized (s : RoutingNode) : Resized s s.addAndService (s.replicas.length + 1) 1 := by
  have hadd := addReplica_resized s
  have hroute := (processStashed_routed (.futureReplica s.replicas.length)
    (s.addReplica.waiting (.futureReplica s.replicas.length)).length s.addReplica).resized
  rw [hadd.replicas] at hroute
  exact hadd.trans hroute

theorem iterate_addAndService_resized (k : ℕ) (s : RoutingNode) :
    Resized s (addAndService^[k] s) (s.replicas.length + k) k := by
  induction k with
  | zero => exact Resized.refl s
  | succ k ih =>
    rw [Function.iterate_succ_apply']
    have h := addAndService_resized (addAndService^[k] s)
    rw [ih.replicas] at h
    exact ih.trans h

theorem iterate_removeReplica_resized (k : ℕ) (s : RoutingNode) :
    Resized s (removeReplica^[k] s) (s.replicas.length - k) k := by
  induction k with
  | zero => exact Resized.refl s
  | succ k ih =>
    rw [Function.iterate_succ_apply']
    have h := removeReplica_resized (removeReplica^[k] s)
    rw [ih.replicas, Nat.sub_sub] at h
    exact ih.trans h

/-- the distance to the number needed is what the monitor gains, in either direction -/
theorem adjustReplicas_resized (s : RoutingNode) : Resized s s.adjustReplicas.2 s.requiredNumberOfInstances
    (s.requiredNumberOfInstances - s.replicas.length + (s.replicas.length - s.requiredNumberOfInstances)) := by
  have hadd := iterate_addAndService_resized (s.requiredNumberOfInstances - s.replicas.length) s
  have hneeded : (addAndService^[s.requiredNumberOfInstances - s.replicas.length] s).requiredNumberOfInstances =
      s.requiredNumberOfInstances := congrArg PoolSize.requiredNumberOfInstances hadd.size
  have hremove := iterate_removeReplica_resized
    ((addAndService^[s.requiredNumberOfInstances - s.replicas.length] s).replicas.length - s.requiredNumberOfInstances)
    (addAndService^[s.requiredNumberOfInstances - s.replicas.length] s)
  have hremoved : (addAndService^[s.requiredNumberOfInstances - s.replicas.length] s).replicas.length -
      s.requiredNumberOfInstances = s.replicas.length - s.requiredNumberOfInstances := by
    rw [hadd.replicas]
    omega
  have hleft : (addAndService^[s.requiredNumberOfInstances - s.replicas.length] s).replicas.length -
      (s.replicas.length - s.requiredNumberOfInstances) = s.requiredNumberOfInstances := by
    rw [hadd.replicas]
    omega
  rw [hremoved, hleft] at hremove
  have h := hadd.trans hremove
  unfold adjustReplicas
  dsimp only
  rw [hneeded, hremoved]
  exact ⟨h.size, h.name, h.replicas, h.queues, h.count, h.ordered, h.clients⟩

theorem adjustReplicas_fst (s : RoutingNode) :
    s.adjustReplicas.1 = s.adjustReplicas.2.replicas.length - s.replicas.length := rfl

/-- `newNodeJoined` adjusts the replicas once: there is nothing left to do the second time -/
theorem newNodeJoined_resized (s : RoutingNode) : Resized s.setF s.newNodeJoined s.setF.requiredNumberOfInstances
    (s.setF.requiredNumberOfInstances - s.replicas.length +
      (s.replicas.length - s.setF.requiredNumberOfInstances)) := by
  have hfirst := adjustReplicas_resized s.setF
  have hagain := adjustReplicas_resized s.setF.adjustReplicas.2
  have hneeded : s.setF.adjustReplicas.2.requiredNumberOfInstances = s.setF.requiredNumberOfInstances :=
    congrArg PoolSize.requiredNumberOfInstances hfirst.size
  rw [hneeded, hfirst.replicas, Nat.sub_self] at hagain
  have hnone : s.setF.adjustReplicas.2.adjustReplicas.1 = 0 := by
    rw [adjustReplicas_fst, hagain.replicas, hfirst.replicas, sub_self]
  unfold newNodeJoined
  dsimp only
  rw [hnone, if_neg (lt_irrefl _)]
  exact hfirst.trans hagain

theorem nodeLeft_resized (s : RoutingNode) : Resized s.setF s.nodeLeft s.setF.requiredNumberOfInstances
    (s.setF.requiredNumberOfInstances - s.replicas.length +
      (s.replicas.length - s.setF.requiredNumberOfInstances)) := adjustReplicas_resized s.setF

/-- a node in step stays in step exactly if no replica is removed -/
theorem Resized.inStep_iff {s s' : RoutingNode}
    (h : Resized s.setF s' s.setF.requiredNumberOfInstances (s.setF.requiredNumberOfInstances - s.replicas.length +
      (s.replicas.length - s.setF.requiredNumberOfInstances))) (hs : s.InStep) :
    s'.InStep ↔ s.replicas.length ≤ s.setF.f + 1 := by
  have hf : s'.f = s.setF.f := congrArg PoolSize.f h.size
  have hreplicas : s'.replicas.length = s.setF.f + 1 := h.replicas
  have hcount : s'.monitor.instances.count = s.replicas.length +
      (s.setF.f + 1 - s.replicas.length + (s.replicas.length - (s.setF.f + 1))) := by
    rw [h.count]
    exact congrArg₂ (· + ·) hs.count rfl
  constructor
  · intro hs'
    have := hs'.count
    omega
  · intro hle
    have hgrown : s.replicas.length + (s.setF.f + 1 - s.replicas.length +
        (s.replicas.length - (s.setF.f + 1))) = s.setF.f + 1 := by omega
    refine ⟨by rw [hf, hreplicas], ?_, ?_, ?_, ?_, ?_⟩
    · rw [hreplicas]
      exact h.queues hs.queues
    · rw [hreplicas, hcount, hgrown]
    · rw [hreplicas, h.ordered, ← hgrown]
      exact congrArg₂ (· + ·) hs.ordered rfl
    · rw [hreplicas, h.clients, ← hgrown]
      exact congrArg₂ (· + ·) hs.clients rfl
    · rw [hreplicas, s'.monitor.instances.sized, hcount, hgrown]

theorem Routed.inStep {s s' : RoutingNode} (h : Routed s s') (hs : s.InStep) : s'.InStep where
  required := by rw [h.replicas, h.size, hs.required]
  queues := by rw [h.replicas, h.queues, hs.queues]
  count := by rw [h.replicas, h.monitor, hs.count]
  ordered := by rw [h.replicas, h.monitor, hs.ordered]
  clients := by rw [h.replicas, h.monitor, hs.clients]
  started := by rw [h.replicas, h.monitor, hs.started]

theorem receive_inStep {s : RoutingNode} (hs : s.InStep) (msg : RoutedMsg) (frm : NodeName) :
    (s.receive msg frm).InStep := by
  have h := (nodeMsgRouter_routed s ⟨msg, frm, s.arrivals⟩).inStep hs
  exact ⟨h.required, h.queues, h.count, h.ordered, h.clients, h.started⟩

theorem processStashedMsgsForView_routed (s : RoutingNode) (viewNo : ℕ) :
    Routed s (s.processStashedMsgsForView viewNo) := processStashed_routed _ _ s

/-- a view change resets the monitor to an entry for each instance -/
theorem startViewChange_inStep {s : RoutingNode} (hs : s.InStep) (viewNo : ℕ) : (s.startViewChange viewNo).InStep := by
  have hreset : InStep { s with viewChangeInProgress := true, viewNo := viewNo, monitor := s.monitor.reset } := by
    refine ⟨hs.required, hs.queues, hs.count, ?_, ?_, hs.started⟩
    · exact (List.length_map _).trans hs.started
    · exact (List.length_map _).trans hs.started
  have h := (processStashedMsgsForView_routed _ viewNo).inStep hreset
  exact ⟨h.required, h.queues, h.count, h.ordered, h.clients, h.started⟩

theorem handle_name (s : RoutingNode) (e : Event) : (s.handle e).name = s.name := by
  cases e with
  | receive msg frm => exact (nodeMsgRouter_routed s ⟨msg, frm, s.arrivals⟩).name
  | viewChange viewNo =>
    simp only [handle, doViewChangeIfPossible]
    split_ifs
    · exact (processStashedMsgsForView_routed _ viewNo).name
    · rfl
  | newNodeJoined nodeReg => exact (newNodeJoined_resized (s.setNodeReg nodeReg)).name
  | nodeLeft nodeReg => exact (nodeLeft_resized (s.setNodeReg nodeReg)).name
  | popReplicaMsg instId => rfl
  | popElectorMsg => rfl

theorem run_name (s : RoutingNode) (events : List Event) : (s.run events).name = s.name := by
  induction events generalizing s with
  | nil => rfl
  | cons e events ih => exact (ih (s.handle e)).trans (handle_name s e)

/-- what happens to a node in step: only a pool change can get it out of step -/
theorem handle_inStep_iff {s : RoutingNode} (hs : s.InStep) (e : Event) : (s.handle e).InStep ↔
    ∀ nodeReg ∈ e.nodeReg?, s.replicas.length ≤ (Plenum.setF nodeReg s.name).f + 1 := by
  have hkept (nodeReg : Dict NodeName (String × ℤ)) : (s.setNodeReg nodeReg).InStep :=
    ⟨hs.required, hs.queues, hs.count, hs.ordered, hs.clients, hs.started⟩
  -- an event that is no pool change
  have hquiet (hnone : e.nodeReg? = none) (h : (s.handle e).InStep) : (s.handle e).InStep ↔
      ∀ nodeReg ∈ e.nodeReg?, s.replicas.length ≤ (Plenum.setF nodeReg s.name).f + 1 := by
    rw [hnone]
    exact ⟨fun _ _ hreg => (nomatch hreg), fun _ => h⟩
  cases e with
  | receive msg frm => exact hquiet rfl (receive_inStep hs msg frm)
  | viewChange viewNo =>
    refine hquiet rfl ?_
    simp only [handle, doViewChangeIfPossible]
    split_ifs
    · exact startViewChange_inStep hs viewNo
    · exact hs
  | newNodeJoined nodeReg =>
    have h : (s.handle (.newNodeJoined nodeReg)).InStep ↔ s.replicas.length ≤ (Plenum.setF nodeReg s.name).f + 1 :=
      (newNodeJoined_resized (s.setNodeReg nodeReg)).inStep_iff (hkept nodeReg)
    rw [h]
    simp [Event.nodeReg?]
  | nodeLeft nodeReg =>
    have h : (s.handle (.nodeLeft nodeReg)).InStep ↔ s.replicas.length ≤ (Plenum.setF nodeReg s.name).f + 1 :=
      (nodeLeft_resized (s.setNodeReg nodeReg)).inStep_iff (hkept nodeReg)
    rw [h]
    simp [Event.nodeReg?]
  | popReplicaMsg instId =>
    refine hquiet rfl ⟨hs.required, ?_, hs.count, hs.ordered, hs.clients, hs.started⟩
    exact (List.length_modify _ _ _).trans hs.queues
  | popElectorMsg => exact hquiet rfl ⟨hs.required, hs.queues, hs.count, hs.ordered, hs.clients, hs.started⟩

theorem run_concat (s : RoutingNode) (xs : List Event) (e : Event) : s.run (xs ++ [e]) = (s.run xs).handle e := by
  unfold run
  rw [List.foldl_append, List.foldl_cons, List.foldl_nil]

/-- **In step with the pool.** From a node in step, the lists of the node and of its monitor stay in step in those
sequences of messages, view changes and pool changes only in which no pool change finds more replicas than the new
registry needs: `removeReplica` adds an instance to the monitor. -/
theorem replicas_inStep_iff (s : RoutingNode) (hs : s.InStep) (events : List Event) :
    (∀ xs e ys, events = xs ++ e :: ys → (s.run (xs ++ [e])).InStep) ↔
      ∀ xs e ys, events = xs ++ e :: ys → ∀ nodeReg ∈ e.nodeReg?,
        (s.run xs).replicas.length ≤ (Plenum.setF nodeReg s.name).f + 1 := by
  constructor
  · intro h xs e ys hsplit
    -- the node was in step before the event, too
    have hbefore : (s.run xs).InStep := by
      rcases List.eq_nil_or_concat' xs with rfl | ⟨xs', e', rfl⟩
      · exact hs
      · exact h xs' e' (e :: ys) (by rw [hsplit, List.append_assoc, List.singleton_append])
    have hafter := h xs e ys hsplit
    rw [run_concat, handle_inStep_iff hbefore, run_name] at hafter
    exact hafter
  · intro h
    have hrun : ∀ xs ys, events = xs ++ ys → (s.run xs).InStep := by
      intro xs
      induction xs using List.reverseRecOn with
      | nil => exact fun _ _ => hs
      | append_singleton xs e ih =>
        intro ys hsplit
        have hsplit' : events = xs ++ e :: ys := by rw [hsplit, List.append_assoc, List.singleton_append]
        rw [run_concat, handle_inStep_iff (ih _ hsplit'), run_name]
        exact h xs e ys hsplit'
    intro xs e ys hsplit
    exact hrun (xs ++ [e]) ys (by rw [hsplit, List.append_assoc, List.singleton_append])

/-- a new node is in step -/
theorem init_inStep (name : NodeName) (nodeReg : Dict NodeName (String × ℤ)) {monitor : Monitor}
    (hcount : monitor.instances.count = 0) (hordered : monitor.numOrderedRequests = [])
    (hclients : monitor.clientAvgReqLatencies = []) : (init name nodeReg monitor).InStep := by
  have h := adjustReplicas_resized (blank name nodeReg monitor)
  have hgained : (blank name nodeReg monitor).requiredNumberOfInstances - 0 +
      (0 - (blank name nodeReg monitor).requiredNumberOfInstances) = (Plenum.setF nodeReg name).f + 1 := by
    rw [Nat.zero_sub, Nat.sub_zero]
    rfl
  have hreplicas : (init name nodeReg monitor).replicas.length = (Plenum.setF nodeReg name).f + 1 := h.replicas
  have hmonitor : (init name nodeReg monitor).monitor.instances.count = (Plenum.setF nodeReg name).f + 1 := by
    refine h.count.trans ?_
    change monitor.instances.count + (_ + (0 - _)) = _
    rw [hcount, Nat.zero_add]
    exact hgained
  refine ⟨hreplicas.trans ?_, ?_, hmonitor.trans hreplicas.symm, ?_, ?_, ?_⟩
  · rw [show (init name nodeReg monitor).f = _ from congrArg PoolSize.f h.size]
    rfl
  · exact (h.queues rfl).trans hreplicas.symm
  · rw [hreplicas]
    refine h.ordered.trans ?_
    change monitor.numOrderedRequests.length + (_ + (0 - _)) = _
    rw [hordered, List.length_nil, Nat.zero_add]
    exact hgained
  · rw [hreplicas]
    refine h.clients.trans ?_
    change monitor.clientAvgReqLatencies.length + (_ + (0 - _)) = _
    rw [hclients, List.length_nil, Nat.zero_add]
    exact hgained
  · rw [(init name nodeReg monitor).monitor.instances.sized, hmonitor, hreplicas]

/-! ## Witness -/

/-- the monitor of a new node -/
def newMonitor : Monitor where
  instances := ⟨0, [], rfl⟩
  Delta := 8 / 10
  Lambda := 60
  Omega := 5
  numOrderedRequests := []
  requestOrderingStarted := Dict.empty
  masterReqLatencies := Dict.empty
  masterReqLatencyTooHigh := none
  clientAvgReqLatencies := []
  totalRequests := 0
  orderedRequestsInLast := []
  latenciesByMasterInLast := []
  latenciesByBackupsInLast := Dict.empty
  totalViewChanges := 0
  lastPostedViewChange := 0

/-- nodes of one host -/
def registryOf (names : List NodeName) : Dict NodeName (String × ℤ) :=
  names.foldl (fun d name => d.set name ("10.0.0.1", 9700 + d.size)) Dict.empty

/-- a node of a pool of four -/
def alpha : RoutingNode := init "Alpha" (registryOf ["Alpha", "Beta", "Gamma", "Delta"]) newMonitor

/-- three nodes join: the pool tolerates two failures -/
def seven : Dict NodeName (String × ℤ) :=
  registryOf ["Alpha", "Beta", "Gamma", "Delta", "Epsilon", "Zeta", "Eta"]

/-- and one leaves again -/
def growAndShrink : List Event := [.newNodeJoined seven, .nodeLeft (seven.erase "Eta")]

theorem alpha_inStep : alpha.InStep := init_inStep _ _ rfl rfl rfl

theorem replicas_inStep_joined : (alpha.run ([] ++ [.newNodeJoined seven])).InStep :=
  (replicas_inStep_iff alpha alpha_inStep [.newNodeJoined seven]).2
    (forall_split_cons.2 ⟨by decide +kernel, by simp⟩) [] (.newNodeJoined seven) [] rfl

/-- when the pool is back at six nodes, there are two replicas and the monitor has four instances -/
theorem replicas_not_inStep : ¬ (∀ xs e ys, growAndShrink = xs ++ e :: ys → (alpha.run (xs ++ [e])).InStep) ∧
    (alpha.run growAndShrink).replicas.length = 2 ∧ (alpha.run growAndShrink).monitor.instances.count = 4 := by
  have hreplicas : (alpha.run growAndShrink).replicas.length = 2 := by decide +kernel
  have hcount : (alpha.run growAndShrink).monitor.instances.count = 4 := by decide +kernel
  refine ⟨fun h => ?_, hreplicas, hcount⟩
  have hcounts := (h [.newNodeJoined seven] (.nodeLeft (seven.erase "Eta")) [] rfl).count
  change (alpha.run growAndShrink).monitor.instances.count = (alpha.run growAndShrink).replicas.length at hcounts
  rw [hreplicas, hcount] at hcounts
  exact absurd hcounts (by decide)

end RoutingNode

end Plenum
