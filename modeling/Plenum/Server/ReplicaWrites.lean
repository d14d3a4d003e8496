/-
The single writes of a replica's code, at two levels.

- `Replica.ordering`, `Replica.queues`: the protocol's part of a replica's state, and its queues of waiting messages.
- `Held D`: every waiting message was delivered (is in `D`). A method keeps it, and so what it takes from a queue may
  be taken as delivered.
- `ReplicaStep D`: one write of the code, as a step of the ordering protocol (`ordering_steps`).
- `ReplicaWrite env D`: the same writes with the checkpoints and the water marks, which the protocol leaves open. A
  batch is ordered and added to its checkpoint in one write.
- `ReplicaWrite.steps`: these writes are made of steps of the protocol.
-/
import Mathlib.Tactic
import Plenum.Server.OrderingProtocol
import Plenum.Server.Replica

namespace Plenum.Replica

open Plenum.Core Plenum.Core.Exec
open Relation (ReflTransGen)

variable {ω σ τ : Type}

/-! ## The two parts of the state -/

def cfg (s : Replica ω σ τ) : ReplicaConfig :=
  ⟨s.instId, s.isMaster, s.name, s.primaryName, s.node.viewNo, s.node.f, s.node.isParticipating,
    s.stashingWhileCatchingUp, s.viewEndsAt⟩

/-- the protocol's part of the state -/
def ordering (s : Replica ω σ τ) : OrderingState ω where
  cfg := s.cfg
  requests := s.node.requests
  inBox := s.inBox
  outBox := s.outBox
  sentPrePrepares := s.sentPrePrepares
  prePrepares := s.prePrepares
  prepares := s.prepares
  commits := s.commits
  ordered := s.ordered
  checkpoints := s.checkpoints.values
  lastPrePrepareSeqNo := s.lastPrePrepareSeqNo
  requestQueues := s.requestQueues
  lastOrderedPPSeqNo := s.lastOrderedPPSeqNo
  accepted := s.accepted

/-- the queues of waiting messages -/
structure ReplicaQueues where
  instId : ℕ
  inBox : List InMsg
  postElectionMsgs : List (ThreePhaseMsg × NodeName)
  prePreparesPendingFinReqs : List (PrePrepare × RepName × List ReqKey)
  prePreparesPendingPrevPP : TPCDict (PrePrepare × RepName)
  preparesWaitingForPrePrepare : Dict TPCKey (List (Prepare × RepName))
  commitsWaitingForPrepare : Dict TPCKey (List (Commit × RepName))
  stashingWhileOutsideWaterMarks : List (ThreePhaseMsg × NodeName)
  stashedRecvdCheckpoints : Dict CkKey (Dict NodeName Checkpoint)

def queues (s : Replica ω σ τ) : ReplicaQueues :=
  ⟨s.instId, s.inBox, s.postElectionMsgs, s.prePreparesPendingFinReqs, s.prePreparesPendingPrevPP,
    s.preparesWaitingForPrePrepare, s.commitsWaitingForPrepare, s.stashingWhileOutsideWaterMarks,
    s.stashedRecvdCheckpoints⟩

/-- the message was delivered from the node whose replica of the instance is `sender` -/
def From (D : InMsg → Prop) (instId : ℕ) (m : ThreePhaseMsg) (sender : RepName) : Prop :=
  ∃ n, sender = generateName n instId ∧ D (.threePhase m n)

/-- every waiting message was delivered -/
structure Held (D : InMsg → Prop) (q : ReplicaQueues) : Prop where
  inBox : ∀ m ∈ q.inBox, D m
  postElectionMsgs : ∀ e ∈ q.postElectionMsgs, D (.threePhase e.1 e.2)
  pendingFinReqs : ∀ e ∈ q.prePreparesPendingFinReqs, From D q.instId (.prePrepare e.1) e.2.1
  pendingPrevPP : ∀ e ∈ q.prePreparesPendingPrevPP.entries, From D q.instId (.prePrepare e.2.1) e.2.2
  prepares : ∀ e ∈ q.preparesWaitingForPrePrepare.entries, ∀ x ∈ e.2, From D q.instId (.prepare x.1) x.2
  commits : ∀ e ∈ q.commitsWaitingForPrepare.entries, ∀ x ∈ e.2, From D q.instId (.commit x.1) x.2
  outside : ∀ e ∈ q.stashingWhileOutsideWaterMarks, D (.threePhase e.1 e.2)
  checkpoints : ∀ e ∈ q.stashedRecvdCheckpoints.entries, ∀ x ∈ e.2.entries, D (.checkpoint x.2 x.1)

theorem Held.mono {D D' : InMsg → Prop} {q : ReplicaQueues} (h : Held D q)
    (hD : ∀ m, D m → D' m) : Held D' q := by
  have hFrom : ∀ {instId m sender}, From D instId m sender → From D' instId m sender :=
    fun ⟨n, hn, hm⟩ => ⟨n, hn, hD _ hm⟩
  exact ⟨fun m hm => hD _ (h.inBox m hm), fun e he => hD _ (h.postElectionMsgs e he),
    fun e he => hFrom (h.pendingFinReqs e he), fun e he => hFrom (h.pendingPrevPP e he),
    fun e he x hx => hFrom (h.prepares e he x hx), fun e he x hx => hFrom (h.commits e he x hx),
    fun e he => hD _ (h.outside e he), fun e he x hx => hD _ (h.checkpoints e he x hx)⟩

/-- one write of the code -/
def ReplicaStep (D : InMsg → Prop) (s s' : Replica ω σ τ) : Prop :=
  (s'.ordering = s.ordering ∨ OrderingStep D s.ordering s'.ordering) ∧ (Held D s.queues → Held D s'.queues)

variable {D : InMsg → Prop} {s s' : Replica ω σ τ}

/-- the writes of the code make a run of the protocol -/
theorem ordering_steps (h : ReflTransGen (ReplicaStep D) s s') :
    ReflTransGen (OrderingStep D) s.ordering s'.ordering := by
  induction h with
  | refl => exact ReflTransGen.refl
  | tail _ hstep ih =>
    rcases hstep.1 with he | hs
    · rw [he]; exact ih
    · exact ih.tail hs

theorem cfg_of_steps (h : ReflTransGen (ReplicaStep D) s s') : s'.cfg = s.cfg :=
  stable_of_steps (I := fun c : OrderingState ω => c.cfg = s.cfg) (fun _ _ hc h => hc.cfg_eq.trans h)
    (ordering_steps h) rfl

/-- the replica participates, has not been catching up, and knows of no view that has ended -/
structure ReplicaConfig.InOneView (c : ReplicaConfig) : Prop where
  isParticipating : c.isParticipating = true
  stashingWhileCatchingUp : c.stashingWhileCatchingUp = []
  viewEndsAt : c.viewEndsAt = Dict.empty

/-- the states in which the methods are run here -/
structure Ok (D : InMsg → Prop) (s : Replica ω σ τ) : Prop where
  held : Held D s.queues
  inOneView : ReplicaConfig.InOneView s.cfg

theorem Ok.steps (h : Ok D s) (hs : ReflTransGen (ReplicaStep D) s s') : Ok D s' :=
  ⟨stable_of_steps (I := fun s => Held D s.queues) (fun _ _ hstep hh => hstep.2 hh) hs h.held,
    by rw [cfg_of_steps hs]; exact h.inOneView⟩

theorem From.steps {m : ThreePhaseMsg} {sender : RepName} (h : From D s.instId m sender)
    (hs : ReflTransGen (ReplicaStep D) s s') : From D s'.instId m sender := by
  have : s'.instId = s.instId := congrArg ReplicaConfig.instId (cfg_of_steps hs)
  rwa [this]

/-! ## Writes with the checkpoints -/

/-- the checkpoints and the water marks -/
def marks (s : Replica ω σ τ) := (s.checkpoints, s.h, s.H)

/-- no batch is ordered, and no 3-phase data is removed -/
structure Kept (c c' : OrderingState ω) : Prop where
  ordered : c'.ordered = c.ordered
  sentPrePrepares : ∀ k, c.sentPrePrepares.contains k → c'.sentPrePrepares.contains k
  prePrepares : ∀ k, c.prePrepares.contains k → c'.prePrepares.contains k
  prepares : ∀ k, c.prepares.contains k → c'.prepares.contains k
  commits : ∀ k, c.commits.contains k → c'.commits.contains k

theorem contains_add {l : PrePrepareLog} {k : TPCKey} (pp : PrePrepare) (h : l.contains k) : (l.add pp).contains k := by
  unfold PrePrepareLog.contains Dict.contains at h ⊢
  change ((l.add pp).get? k).isSome
  rw [PrePrepareLog.get?_add]
  split_ifs
  · rfl
  · exact h

theorem contains_addMsg_of_contains {t : TrackedMsgs} {k : TPCKey} (key : TPCKey) (voter : RepName) (h : t.contains k) :
    Dict.contains (t.addMsg key voter) k := by
  unfold TrackedMsgs.addMsg Dict.contains
  rw [Dict.get?_set]
  split_ifs
  · rfl
  · exact h

/-- a write outside the 3-phase data -/
theorem Kept.of_eq {c c' : OrderingState ω}
    (h : (c'.ordered, c'.sentPrePrepares, c'.prePrepares, c'.prepares, c'.commits) =
      (c.ordered, c.sentPrePrepares, c.prePrepares, c.prepares, c.commits)) : Kept c c' := by
  simp only [Prod.mk.injEq] at h
  obtain ⟨h1, h2, h3, h4, h5⟩ := h
  exact ⟨h1, fun _ hk => h2 ▸ hk, fun _ hk => h3 ▸ hk, fun _ hk => h4 ▸ hk, fun _ hk => h5 ▸ hk⟩

/-- what `doOrder` writes before it adds the batch to its checkpoint -/
def orderBatch (key : TPCKey) (pp : PrePrepare) (s : Replica ω σ τ) : Replica ω σ τ :=
  ((s.addToOrdered key).setRequestQueue pp.ledgerId
    (discardKeys (s.requestQueues.get pp.ledgerId) pp.reqIdr)).appendOutBox [.ordered (pp.toOrdered s.instId)]

/-- what `addToCheckpoint` writes before it takes the stashed checkpoints -/
def recordInCheckpoint (env : Env ω σ τ) (ppSeqNo : ℕ) (digest : String) (s : Replica ω σ τ) : Replica ω σ τ :=
  let (key, state) := extendCheckpoint env ppSeqNo digest s
  if state.digests.length = env.CHK_FREQ then
    let ckDigest := env.checkpointHash state.digests
    { s with checkpoints := s.checkpoints.set key { state with digest := some ckDigest, digests := [] },
             outBox := s.outBox ++ [.checkpoint ⟨s.instId, s.node.viewNo, key.1, key.2, ckDigest⟩] }
  else { s with checkpoints := s.checkpoints.set key state }

/-- what `processCheckpoint` writes for a checkpoint of the replica's own digest -/
def receiveDigest (ck : Checkpoint) (sender : NodeName) (state : CheckpointState) (s : Replica ω σ τ) : Replica ω σ τ :=
  { s with checkpoints := s.checkpoints.set (ck.seqNoStart, ck.seqNoEnd)
             { state with receivedDigests := state.receivedDigests.set sender ck.digest } }

/-- what `markCheckPointStable` writes before it releases the requests -/
def makeStable (env : Env ω σ τ) (seqNo : ℕ) (key : CkKey) (state : CheckpointState) (s : Replica ω σ τ) :
    Replica ω σ τ :=
  gcTpc seqNo (stabilise env key state
    ((s.checkpoints.entries.takeWhile fun e => e.1.2 ≠ (seqNo : ℤ)).map Prod.fst) seqNo s)

/-- one write of the code, with the checkpoints -/
inductive ReplicaWrite (env : Env ω σ τ) (D : InMsg → Prop) (s : Replica ω σ τ) : Replica ω σ τ → Prop
  /-- a step of the protocol that leaves the checkpoints and the 3-phase data -/
  | quiet (s' : Replica ω σ τ) (hstep : ReplicaStep D s s') (hmarks : s'.marks = s.marks) (hkept : Kept s.ordering s'.ordering) :
      ReplicaWrite env D s s'
  /-- a batch is ordered and added to its checkpoint -/
  | order (key pp) (hpp : s.ordering.Holds key pp) (hquorum : s.commits.hasEnoughVotes key (2 * s.node.f + 1))
      (hnew : key ∉ s.ordered) (hprev : s.ordering.PrevOrdered key) :
      ReplicaWrite env D s ((s.orderBatch key pp).recordInCheckpoint env pp.ppSeqNo pp.digest)
  /-- another node has the replica's own digest for a checkpoint -/
  | receiveDigest (ck sender state) (hD : D (.checkpoint ck sender))
      (hget : s.checkpoints.get? (ck.seqNoStart, ck.seqNoEnd) = some state) (hown : state.digest = some ck.digest) :
      ReplicaWrite env D s (s.receiveDigest ck sender state)
  /-- enough nodes have the digest of the checkpoint `own` -/
  | makeStable (own ck key state) (hget : s.checkpoints.get? own = some ck)
      (hfull : ck.receivedDigests.size = 2 * s.node.f)
      (hfind : (s.checkpoints.entries.find? fun e => e.1.2 = (ck.seqNo : ℤ)) = some (key, state)) :
      ReplicaWrite env D s (s.makeStable env ck.seqNo key state)

/-- new checkpoints that count no other batches than the old ones -/
theorem checkpoint_step {c : OrderingState ω} {cks : List CheckpointState}
    (h : ∀ ck ∈ cks, ∃ ck' ∈ c.checkpoints, ck.seqNo = ck'.seqNo) :
    OrderingStep D c { c with checkpoints := cks } := by
  have hstep := OrderingStep.checkpoint (D := D) (c := c) cks [] fun ck hck => Or.inl (h ck hck)
  rwa [List.map_nil, List.append_nil] at hstep

theorem extendCheckpoint_seqNo (env : Env ω σ τ) (s : Replica ω σ τ) (ppSeqNo : ℕ) (digest : String) :
    (extendCheckpoint env ppSeqNo digest s).2.seqNo = ppSeqNo := by
  unfold extendCheckpoint
  split <;> rfl

theorem orderBatch_step {key : TPCKey} {pp : PrePrepare} (hpp : s.ordering.Holds key pp)
    (hquorum : s.commits.hasEnoughVotes key (2 * s.node.f + 1)) (hnew : key ∉ s.ordered)
    (hprev : s.ordering.PrevOrdered key) : ReplicaStep D s (s.orderBatch key pp) := by
  have hadd : (s.addToOrdered key).ordered = s.ordered ++ [key] := if_neg hnew
  have hmax : (s.addToOrdered key).lastOrderedPPSeqNo = max s.lastOrderedPPSeqNo key.2 :=
    addToOrdered_lastOrderedPPSeqNo key
  refine ⟨Or.inr ?_, id⟩
  have h := OrderingStep.order (D := D) (c := s.ordering) _ _ hpp hquorum hnew hprev
  change OrderingStep D s.ordering { s.ordering with
    ordered := (s.addToOrdered key).ordered, lastOrderedPPSeqNo := (s.addToOrdered key).lastOrderedPPSeqNo,
    requestQueues := _, outBox := _ }
  rw [hadd, hmax]
  exact h

theorem recordInCheckpoint_step (env : Env ω σ τ) {ppSeqNo : ℕ} (digest : String)
    (ho : ∃ o, .ordered o ∈ s.outBox ∧ ppSeqNo = o.ppSeqNo) :
    ReplicaStep D s (s.recordInCheckpoint env ppSeqNo digest) := by
  have hseqNo := extendCheckpoint_seqNo env s ppSeqNo digest
  unfold recordInCheckpoint
  generalize extendCheckpoint env ppSeqNo digest s = e at hseqNo
  obtain ⟨key, state⟩ := e
  have hcks : ∀ state' : CheckpointState, state'.seqNo = state.seqNo →
      ∀ ck ∈ (s.checkpoints.set key state').values, (∃ ck' ∈ s.ordering.checkpoints, ck.seqNo = ck'.seqNo) ∨
        ∃ o, .ordered o ∈ s.ordering.outBox ∧ ck.seqNo = o.ppSeqNo := by
    intro state' hs' ck hck
    rcases SortedDict.mem_values_set hck with rfl | hck
    · obtain ⟨o, ho1, ho2⟩ := ho
      exact Or.inr ⟨o, ho1, hs'.trans (hseqNo.trans ho2)⟩
    · exact Or.inl ⟨ck, hck, rfl⟩
  dsimp only
  split_ifs
  · exact ⟨Or.inr (.checkpoint (c := s.ordering) _
      [⟨s.instId, s.node.viewNo, key.1, key.2, env.checkpointHash state.digests⟩] (hcks _ rfl)), id⟩
  · refine ⟨Or.inr ?_, id⟩
    have hstep := OrderingStep.checkpoint (D := D) (c := s.ordering) _ [] (hcks state rfl)
    rwa [List.map_nil, List.append_nil] at hstep

theorem receiveDigest_step {ck : Checkpoint} (sender : NodeName) {state : CheckpointState}
    (hget : s.checkpoints.get? (ck.seqNoStart, ck.seqNoEnd) = some state) :
    ReplicaStep D s (s.receiveDigest ck sender state) := by
  have hmem : state ∈ s.checkpoints.values := List.mem_map.2 ⟨_, Dict.get?_eq_some.1 hget, rfl⟩
  refine ⟨Or.inr (checkpoint_step (c := s.ordering) fun ck' hck' => ?_), id⟩
  rcases SortedDict.mem_values_set hck' with rfl | hck'
  · exact ⟨state, hmem, rfl⟩
  · exact ⟨ck', hck', rfl⟩

/-- the water mark and the 3-phase data move together: one step of the protocol -/
theorem makeStable_step (env : Env ω σ τ) {seqNo : ℕ} {key : CkKey} {state : CheckpointState}
    (hseqNo : ∃ ck ∈ s.checkpoints.values, ck.seqNo = seqNo) (hmem : state ∈ s.checkpoints.values) :
    ReplicaStep D s (s.makeStable env seqNo key state) := by
  refine ⟨Or.inr (OrderingStep.stabilise (c := s.ordering) _ seqNo _ hseqNo (fun ck hck => ?_) fun k hk => ?_), id⟩
  · rcases SortedDict.mem_values_set (SortedDict.mem_values_eraseAll hck) with rfl | hck
    · exact ⟨state, hmem, rfl⟩
    · exact ⟨ck, hck, rfl⟩
  · exact of_decide_eq_true (List.mem_filter.1 hk).2

/-- the write is made of steps of the protocol -/
theorem ReplicaWrite.steps {env : Env ω σ τ} (h : ReplicaWrite env D s s') : ReflTransGen (ReplicaStep D) s s' := by
  cases h with
  | quiet _ hstep _ _ => exact ReflTransGen.single hstep
  | order key pp hpp hquorum hnew hprev =>
    refine (ReflTransGen.single (orderBatch_step hpp hquorum hnew hprev)).tail ?_
    exact recordInCheckpoint_step env pp.digest
      ⟨pp.toOrdered s.instId, List.mem_append_right _ (List.mem_singleton.2 rfl), rfl⟩
  | receiveDigest ck sender state _ hget _ => exact ReflTransGen.single (receiveDigest_step sender hget)
  | makeStable own ck key state hget _ hfind =>
    have hown : ck ∈ s.checkpoints.values := List.mem_map.2 ⟨_, Dict.get?_eq_some.1 hget, rfl⟩
    have hmem : state ∈ s.checkpoints.values := List.mem_map.2 ⟨_, List.mem_of_find?_eq_some hfind, rfl⟩
    exact ReflTransGen.single (makeStable_step env ⟨ck, hown, rfl⟩ hmem)

variable {env : Env ω σ τ}

theorem steps_of_writes (h : ReflTransGen (ReplicaWrite env D) s s') : ReflTransGen (ReplicaStep D) s s' := by
  induction h with
  | refl => exact ReflTransGen.refl
  | tail _ hw ih => exact ih.trans hw.steps

theorem cfg_of_writes (h : ReflTransGen (ReplicaWrite env D) s s') : s'.cfg = s.cfg := cfg_of_steps (steps_of_writes h)

theorem ordering_of_writes (h : ReflTransGen (ReplicaWrite env D) s s') :
    ReflTransGen (OrderingStep D) s.ordering s'.ordering := ordering_steps (steps_of_writes h)

/-- the states in which the methods are followed by writes: every waiting message was delivered, and no PRE-PREPARE
if the node does not participate, since such a PRE-PREPARE is taken in unchecked -/
structure Ready (D : InMsg → Prop) (s : Replica ω σ τ) : Prop where
  held : Held D s.queues
  stashingWhileCatchingUp : s.stashingWhileCatchingUp = []
  viewEndsAt : s.viewEndsAt = Dict.empty
  prePrepares : s.node.isParticipating = true ∨ ∀ pp n, ¬ D (.threePhase (.prePrepare pp) n)

theorem Ok.ready (h : Ok D s) : Ready D s :=
  ⟨h.held, h.inOneView.stashingWhileCatchingUp, h.inOneView.viewEndsAt, Or.inl h.inOneView.isParticipating⟩

theorem Ready.steps (h : Ready D s) (hs : ReflTransGen (ReplicaWrite env D) s s') : Ready D s' := by
  have hcfg := cfg_of_writes hs
  have hcatch : s'.stashingWhileCatchingUp = s.stashingWhileCatchingUp :=
    congrArg ReplicaConfig.stashingWhileCatchingUp hcfg
  have hends : s'.viewEndsAt = s.viewEndsAt := congrArg ReplicaConfig.viewEndsAt hcfg
  have hpart : s'.node.isParticipating = s.node.isParticipating := congrArg ReplicaConfig.isParticipating hcfg
  refine ⟨?_, hcatch.trans h.stashingWhileCatchingUp, hends.trans h.viewEndsAt, ?_⟩
  · exact stable_of_steps (I := fun s => Held D s.queues) (fun _ _ hstep hh => hstep.2 hh) (steps_of_writes hs) h.held
  · rw [hpart]
    exact h.prePrepares

theorem From.writes {m : ThreePhaseMsg} {sender : RepName} (h : From D s.instId m sender)
    (hs : ReflTransGen (ReplicaWrite env D) s s') : From D s'.instId m sender := h.steps (steps_of_writes hs)

end Plenum.Replica
