/-
The ordering protocol of one replica as a transition system: what a single write of the replica's code can do to the
part of the state that ordering is about, and under which conditions.

- `OrderingState`: the configuration of the replica (which no step changes), the requests of its node, what it
  received and sent, its PRE-PREPAREs, votes, ordered batches and checkpoints.
- `OrderingStep D`: the steps. `D` is the set of messages that were delivered to the replica; a step that takes a
  PRE-PREPARE or a vote of another replica in says that it was delivered. Every guard that the code checks before a
  write is a premise of the step.
- The file `ReplicaRefinement` proves that the code makes no other steps. What is proved about every step here
  therefore holds of every run of the code, also of one that ends in an exception.
-/
import Mathlib.Tactic
import Plenum.Server.ReplicaState

namespace Plenum

open Plenum.Core

variable {ω : Type}

/-! ## States -/

/-- what no step of a replica changes while it stays in one view -/
structure ReplicaConfig where
  instId : ℕ
  isMaster : Bool
  name : RepName
  primaryName : Option RepName
  viewNo : ℕ
  f : ℕ
  isParticipating : Bool
  stashingWhileCatchingUp : List TPCKey
  viewEndsAt : Dict ℕ ℕ

structure OrderingState (ω : Type) where
  cfg : ReplicaConfig
  requests : Requests ω
  inBox : List InMsg
  outBox : List OutMsg
  sentPrePrepares : PrePrepareLog
  prePrepares : PrePrepareLog
  prepares : TrackedMsgs
  commits : TrackedMsgs
  ordered : List TPCKey
  checkpoints : List CheckpointState
  lastPrePrepareSeqNo : ℕ
  requestQueues : PerLedger (List ReqKey)
  lastOrderedPPSeqNo : ℕ
  accepted : List PrePrepare

namespace OrderingState

variable (c : OrderingState ω)

/-- the replica holds `pp` as the PRE-PREPARE of `key` -/
def Holds (key : TPCKey) (pp : PrePrepare) : Prop :=
  c.sentPrePrepares.get? key = some pp ∨ c.prePrepares.get? key = some pp

/-- a PRE-PREPARE is held under its own key -/
theorem Holds.key_eq {c : OrderingState ω} {key : TPCKey} {pp : PrePrepare} (h : c.Holds key pp) : pp.key = key := by
  rcases h with h | h <;> exact PrePrepareLog.key_of_get? h

/-- `n` follows the last ordered batch and every PRE-PREPARE held -/
def IsNext (n : ℕ) : Prop :=
  ∃ m, n = m + 1 ∧ IsGreatest (insert c.lastOrderedPPSeqNo {p | ∃ key pp, c.Holds key pp ∧ key.2 = p}) m

/-- the batches before `key` are ordered, as far as the replica holds their PRE-PREPAREs -/
def PrevOrdered (key : TPCKey) : Prop :=
  (∃ last, c.ordered.getLast? = some last ∧ last.1 = key.1 ∧ last.2 + 1 = key.2) ∨
    ∀ k pp, c.Holds k pp → (k.1 < key.1 ∨ (k.1 = key.1 ∧ k.2 < key.2)) → k ∈ c.ordered

end OrderingState

/-- a PREPARE votes for a PRE-PREPARE: digest and roots are the same -/
def Prepare.Matches (p : Prepare) (pp : PrePrepare) : Prop :=
  p.key = pp.key ∧ p.digest = pp.digest ∧ p.stateRootHash = pp.stateRootHash ∧ p.txnRootHash = pp.txnRootHash

/-! ## Steps -/

open OrderingState in
/-- the writes of a replica's code, each with the conditions that the code has checked before it -/
inductive OrderingStep (D : InMsg → Prop) : OrderingState ω → OrderingState ω → Prop
  | popInBox {c} (m rest) (hin : c.inBox = m :: rest) : OrderingStep D c { c with inBox := rest }
  /-- a request key from the node joins the queue of its ledger -/
  | readyFor3PC {c} (k rest lid) (hin : c.inBox = .reqKey k :: rest) :
      OrderingStep D c
        { c with inBox := rest, requestQueues := c.requestQueues.set lid (addKey (c.requestQueues.get lid) k) }
  /-- creating a batch raised after it had taken keys from the queue -/
  | dropKeys {c} (lid popped rest) (hq : c.requestQueues.get lid = popped ++ rest) :
      OrderingStep D c { c with requestQueues := c.requestQueues.set lid rest }
  /-- the primary makes a batch of the keys `popped`, whose finalised requests are `reqs` -/
  | sendPrePrepare {c lid popped rest reqs} (pp) (rejects : List Reject) (hprimary : c.cfg.primaryName = some c.cfg.name)
      (hq : c.requestQueues.get lid = popped ++ rest)
      (hreqs : List.Forall₂ (fun k r => c.requests.finalised? k = some r) popped reqs)
      (hidr : pp.reqIdr.Perm (reqs.map Request.key)) (hview : pp.viewNo = c.cfg.viewNo)
      (hno : pp.ppSeqNo = c.lastPrePrepareSeqNo + 1) (hinst : pp.instId = c.cfg.instId) :
      OrderingStep D c
        { c with requestQueues := c.requestQueues.set lid rest, lastPrePrepareSeqNo := pp.ppSeqNo,
                 sentPrePrepares := c.sentPrePrepares.add pp, accepted := c.accepted ++ [pp],
                 outBox := c.outBox ++ rejects.map OutMsg.reject ++ [.threePhase (.prePrepare pp)] }
  /-- a replica that is not the primary takes in the next PRE-PREPARE of the primary -/
  | acceptPrePrepare {c} (pp sender) (hD : D (.threePhase (.prePrepare pp) sender))
      (hfrom : c.cfg.primaryName = some (generateName sender c.cfg.instId))
      (hbackup : c.cfg.primaryName ≠ some c.cfg.name) (hview : pp.viewNo = c.cfg.viewNo)
      (hnext : c.IsNext pp.ppSeqNo) (hfin : ∀ k ∈ pp.reqIdr, c.requests.isFinalised k) :
      OrderingStep D c
        { c with prePrepares := c.prePrepares.add pp, accepted := c.accepted ++ [pp],
                 lastPrePrepareSeqNo := max c.lastPrePrepareSeqNo pp.ppSeqNo }
  | sendRejects {c} (rejects : List Reject) :
      OrderingStep D c { c with outBox := c.outBox ++ rejects.map OutMsg.reject }
  | sendPrepare {c} (pp) (hacc : pp ∈ c.accepted) (hbackup : c.cfg.primaryName ≠ some c.cfg.name) :
      OrderingStep D c { c with outBox := c.outBox ++ [.threePhase (.prepare (pp.prepare c.cfg.instId))] }
  | ownPrepare {c} (p) (hsent : .threePhase (.prepare p) ∈ c.outBox) :
      OrderingStep D c { c with prepares := c.prepares.addMsg p.key c.cfg.name }
  | receivePrepare {c} (p pp sender) (hD : D (.threePhase (.prepare p) sender))
      (hfrom : c.cfg.primaryName ≠ some (generateName sender c.cfg.instId)) (hpp : c.Holds p.key pp)
      (hmatch : p.Matches pp) :
      OrderingStep D c { c with prepares := c.prepares.addMsg p.key (generateName sender c.cfg.instId) }
  | sendCommit {c} (cm) (hquorum : c.prepares.hasEnoughVotes cm.key (2 * c.cfg.f)) :
      OrderingStep D c { c with outBox := c.outBox ++ [.threePhase (.commit cm)] }
  | ownCommit {c} (cm) (hsent : .threePhase (.commit cm) ∈ c.outBox) :
      OrderingStep D c { c with commits := c.commits.addMsg cm.key c.cfg.name }
  | receiveCommit {c} (cm sender) (hD : D (.threePhase (.commit cm) sender)) :
      OrderingStep D c { c with commits := c.commits.addMsg cm.key (generateName sender c.cfg.instId) }
  /-- a batch with a quorum of commits is ordered after the batches before it -/
  | order {c} (key pp) (hpp : c.Holds key pp) (hquorum : c.commits.hasEnoughVotes key (2 * c.cfg.f + 1))
      (hnew : key ∉ c.ordered) (hprev : c.PrevOrdered key) :
      OrderingStep D c
        { c with ordered := c.ordered ++ [key], lastOrderedPPSeqNo := max c.lastOrderedPPSeqNo key.2,
                 requestQueues :=
                   c.requestQueues.set pp.ledgerId (discardKeys (c.requestQueues.get pp.ledgerId) pp.reqIdr),
                 outBox := c.outBox ++ [.ordered (pp.toOrdered c.cfg.instId)] }
  /-- checkpoints count ordered batches only -/
  | checkpoint {c} (cks) (msgs : List Checkpoint) (hcks : ∀ ck ∈ cks, (∃ ck' ∈ c.checkpoints, ck.seqNo = ck'.seqNo) ∨
        ∃ o, .ordered o ∈ c.outBox ∧ ck.seqNo = o.ppSeqNo) :
      OrderingStep D c { c with checkpoints := cks, outBox := c.outBox ++ msgs.map OutMsg.checkpoint }
  /-- a stable checkpoint at `seqNo` removes the 3-phase data up to it -/
  | stabilise {c} (cks) (seqNo keys) (hseqNo : ∃ ck ∈ c.checkpoints, ck.seqNo = seqNo)
      (hcks : ∀ ck ∈ cks, ∃ ck' ∈ c.checkpoints, ck.seqNo = ck'.seqNo) (hkeys : ∀ k ∈ keys, k.2 ≤ seqNo) :
      OrderingStep D c
        { c with checkpoints := cks, sentPrePrepares := c.sentPrePrepares.eraseAll keys,
                 prePrepares := c.prePrepares.eraseAll keys, prepares := Dict.eraseAll c.prepares keys,
                 commits := Dict.eraseAll c.commits keys }
  | releaseRequest {c} (k requests) (hr : c.requests.release k = some requests) :
      OrderingStep D c { c with requests := requests }

namespace OrderingStep

variable {D : InMsg → Prop} {c c' : OrderingState ω}

/-- no step changes the configuration -/
theorem cfg_eq (h : OrderingStep D c c') : c'.cfg = c.cfg := by cases h <;> rfl

/-- the outbox only grows -/
theorem outBox_prefix (h : OrderingStep D c c') : c.outBox <+: c'.outBox := by
  cases h <;> first
    | exact List.prefix_rfl
    | exact List.prefix_append _ _
    | exact (List.prefix_append _ _).trans (List.prefix_append _ _)

theorem accepted_prefix (h : OrderingStep D c c') : c.accepted <+: c'.accepted := by
  cases h <;> first | exact List.prefix_rfl | exact List.prefix_append _ _

theorem ordered_prefix (h : OrderingStep D c c') : c.ordered <+: c'.ordered := by
  cases h <;> first | exact List.prefix_rfl | exact List.prefix_append _ _

/-- more messages delivered allow more steps -/
theorem mono {D' : InMsg → Prop} (hD : ∀ m, D m → D' m) (h : OrderingStep D c c') : OrderingStep D' c c' := by
  cases h with
  | popInBox m r h1 => exact popInBox m r h1
  | readyFor3PC k r l h1 => exact readyFor3PC k r l h1
  | dropKeys l p r h1 => exact dropKeys l p r h1
  | sendPrePrepare pp r h1 h2 h3 h4 h5 h6 h7 => exact sendPrePrepare pp r h1 h2 h3 h4 h5 h6 h7
  | acceptPrePrepare pp n h1 h2 h3 h4 h5 h6 => exact acceptPrePrepare pp n (hD _ h1) h2 h3 h4 h5 h6
  | sendRejects r => exact sendRejects r
  | sendPrepare pp h1 h2 => exact sendPrepare pp h1 h2
  | ownPrepare p h1 => exact ownPrepare p h1
  | receivePrepare p pp n h1 h2 h3 h4 => exact receivePrepare p pp n (hD _ h1) h2 h3 h4
  | sendCommit cm h1 => exact sendCommit cm h1
  | ownCommit cm h1 => exact ownCommit cm h1
  | receiveCommit cm n h1 => exact receiveCommit cm n (hD _ h1)
  | order k pp h1 h2 h3 h4 => exact order k pp h1 h2 h3 h4
  | checkpoint cks ms h1 => exact checkpoint cks ms h1
  | stabilise cks n ks h1 h2 h3 => exact stabilise cks n ks h1 h2 h3
  | releaseRequest k rs h1 => exact releaseRequest k rs h1

end OrderingStep

/-! ## Messages already taken from the outbox -/

/-- the state with the messages that were taken from the outbox before put back in front -/
def OrderingState.after (c : OrderingState ω) (taken : List OutMsg) : OrderingState ω :=
  { c with outBox := taken ++ c.outBox }

/-- a step does not depend on what was taken from the outbox -/
theorem OrderingStep.after {D : InMsg → Prop} {c c' : OrderingState ω} (h : OrderingStep D c c')
    (taken : List OutMsg) : OrderingStep D (c.after taken) (c'.after taken) := by
  cases h with
  | popInBox m r h1 => exact popInBox (c := c.after taken) m r h1
  | readyFor3PC k r l h1 => exact readyFor3PC (c := c.after taken) k r l h1
  | dropKeys l p r h1 => exact dropKeys (c := c.after taken) l p r h1
  | sendPrePrepare pp r h1 h2 h3 h4 h5 h6 h7 =>
    have h := sendPrePrepare (D := D) (c := c.after taken) pp r h1 h2 h3 h4 h5 h6 h7
    simp only [OrderingState.after, List.append_assoc] at h ⊢
    exact h
  | acceptPrePrepare pp n h1 h2 h3 h4 h5 h6 => exact acceptPrePrepare (c := c.after taken) pp n h1 h2 h3 h4 h5 h6
  | sendRejects r =>
    have h := sendRejects (D := D) (c := c.after taken) r
    simp only [OrderingState.after, List.append_assoc] at h ⊢
    exact h
  | sendPrepare pp h1 h2 =>
    have h := sendPrepare (D := D) (c := c.after taken) pp h1 h2
    simp only [OrderingState.after, List.append_assoc] at h ⊢
    exact h
  | ownPrepare p h1 => exact ownPrepare (c := c.after taken) p (List.mem_append_right taken h1)
  | receivePrepare p pp n h1 h2 h3 h4 => exact receivePrepare (c := c.after taken) p pp n h1 h2 h3 h4
  | sendCommit cm h1 =>
    have h := sendCommit (D := D) (c := c.after taken) cm h1
    simp only [OrderingState.after, List.append_assoc] at h ⊢
    exact h
  | ownCommit cm h1 => exact ownCommit (c := c.after taken) cm (List.mem_append_right taken h1)
  | receiveCommit cm n h1 => exact receiveCommit (c := c.after taken) cm n h1
  | order k pp h1 h2 h3 h4 =>
    have h := order (D := D) (c := c.after taken) k pp h1 h2 h3 h4
    simp only [OrderingState.after, List.append_assoc] at h ⊢
    exact h
  | checkpoint cks ms h1 =>
    have h := checkpoint (D := D) (c := c.after taken) cks ms fun ck hck =>
      (h1 ck hck).imp id fun ⟨o, ho, he⟩ => ⟨o, List.mem_append_right taken ho, he⟩
    simp only [OrderingState.after, List.append_assoc] at h ⊢
    exact h
  | stabilise cks n ks h1 h2 h3 => exact stabilise (c := c.after taken) cks n ks h1 h2 h3
  | releaseRequest k rs h1 => exact releaseRequest (c := c.after taken) k rs h1

end Plenum
