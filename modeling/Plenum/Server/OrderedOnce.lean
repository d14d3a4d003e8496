/-
A request is ordered once: the nodes of a pool, all correct, in one view, with their real request stores and all their
replicas.

- `NodePool`, `NodesWorld`, `NodesWorld.step`: the nodes send PROPAGATEs, 3-phase messages and checkpoints; each
  message is delivered at most once to each other node, at any time after it was sent.
- `OrderingState.tokens`: the copies of a request key that the primary's replica still holds: in its inbox, in its
  queues, and in the batches it has made. No step makes a copy (`OrderingStep.tokens_le`), so there are at most as many
  as its node has handed to it (`NodeSound.accounted`).
- `ordered_once`: where the primary's node hands a key out once, no two batches that any node orders share a request.
- `ordered_twice`: garbage collection forgets that a request was forwarded; late PROPAGATEs then make the primary's node
  forward it again, and it is ordered again.
-/
import Mathlib.Tactic
import Plenum.Server.Agreement
import Plenum.Server.Execution

namespace Plenum

open Plenum.Core
open Relation (ReflTransGen)

variable {ω σ τ : Type}

/-! ## Copies of a request key -/

def InMsg.reqKey? : InMsg → Option ReqKey
  | .reqKey k => some k
  | _ => none

/-- the request keys among waiting messages -/
def reqKeys (ms : List InMsg) : List ReqKey := ms.filterMap InMsg.reqKey?

theorem reqKeys_append (ms ms' : List InMsg) : reqKeys (ms ++ ms') = reqKeys ms ++ reqKeys ms' :=
  List.filterMap_append

namespace OrderingState

/-- the copies of a request key: in the inbox, in the queues, and in the batches taken in -/
def tokens (c : OrderingState ω) (k : ReqKey) : ℕ :=
  (reqKeys c.inBox).count k + (c.requestQueues.get .pool).count k + (c.requestQueues.get .domain).count k +
    (c.accepted.flatMap PrePrepare.reqIdr).count k

/-- the copies in the two queues when one of them is replaced -/
theorem count_set (queues : PerLedger (List ReqKey)) (lid : LedgerId) (q : List ReqKey) (k : ReqKey) :
    ((queues.set lid q).get .pool).count k + ((queues.set lid q).get .domain).count k + (queues.get lid).count k =
      (queues.get .pool).count k + (queues.get .domain).count k + q.count k := by
  cases lid with
  | pool =>
    rw [PerLedger.get_set_self, PerLedger.get_set_ne _ _ (by decide)]
    omega
  | domain =>
    rw [PerLedger.get_set_self, PerLedger.get_set_ne _ _ (by decide)]
    omega

end OrderingState

theorem count_addKey_le (q : List ReqKey) (key k : ReqKey) : (addKey q key).count k ≤ q.count k + [key].count k := by
  unfold addKey
  split_ifs
  · exact Nat.le_add_right _ _
  · rw [List.count_append]

/-- **No step of a primary makes a copy of a request key.** -/
theorem OrderingStep.tokens_le {D : InMsg → Prop} {c c' : OrderingState ω} (hkeyed : c.requests.Keyed)
    (hprimary : c.cfg.primaryName = some c.cfg.name) (hs : OrderingStep D c c') (k : ReqKey) :
    c'.tokens k ≤ c.tokens k := by
  unfold OrderingState.tokens
  cases hs with
  | popInBox m rest hin =>
    have hle : (reqKeys rest).count k ≤ (reqKeys c.inBox).count k := by
      rw [hin]
      exact ((List.sublist_cons_self m rest).filterMap InMsg.reqKey?).count_le k
    dsimp only
    omega
  | readyFor3PC key rest lid hin =>
    have hq := OrderingState.count_set c.requestQueues lid (addKey (c.requestQueues.get lid) key) k
    have hadd := count_addKey_le (c.requestQueues.get lid) key k
    have hin' : (reqKeys c.inBox).count k = [key].count k + (reqKeys rest).count k := by
      rw [hin, ← List.count_append]
      rfl
    dsimp only
    omega
  | dropKeys lid popped rest hlid =>
    have hq := OrderingState.count_set c.requestQueues lid rest k
    have hpop : (c.requestQueues.get lid).count k = popped.count k + rest.count k := by
      rw [hlid, List.count_append]
    dsimp only
    omega
  | @sendPrePrepare lid popped rest reqs pp rejects _ hlid hreqs hidr =>
    have hq := OrderingState.count_set c.requestQueues lid rest k
    have hpop : (c.requestQueues.get lid).count k = popped.count k + rest.count k := by
      rw [hlid, List.count_append]
    have hpp : pp.reqIdr.count k = popped.count k := by
      rw [← hkeyed.keys_of_forall₂ hreqs]
      exact hidr.count_eq k
    have hacc : ((c.accepted ++ [pp]).flatMap PrePrepare.reqIdr).count k =
        (c.accepted.flatMap PrePrepare.reqIdr).count k + pp.reqIdr.count k := by
      rw [List.flatMap_append, List.count_append, List.flatMap_singleton]
    dsimp only
    omega
  | acceptPrePrepare pp sender _ _ hbackup => exact absurd hprimary hbackup
  | order key pp =>
    have hq := OrderingState.count_set c.requestQueues pp.ledgerId
      (discardKeys (c.requestQueues.get pp.ledgerId) pp.reqIdr) k
    have hle : (discardKeys (c.requestQueues.get pp.ledgerId) pp.reqIdr).count k ≤
        (c.requestQueues.get pp.ledgerId).count k := List.filter_sublist.count_le k
    dsimp only
    omega
  | _ => exact le_rfl

theorem tokens_le_of_steps {D : InMsg → Prop} {c c' : OrderingState ω} (hkeyed : c.requests.Keyed)
    (hprimary : c.cfg.primaryName = some c.cfg.name) (hs : ReflTransGen (OrderingStep D) c c') (k : ReqKey) :
    c'.tokens k ≤ c.tokens k := by
  induction hs with
  | refl => exact le_rfl
  | tail hs hstep ih =>
    have hcfg := stable_of_steps (I := fun c'' : OrderingState ω => c''.cfg = c.cfg)
      (fun _ _ hstep h => hstep.cfg_eq.trans h) hs rfl
    exact (hstep.tokens_le ((shrinks_of_steps hs).keyed hkeyed) (by rw [hcfg]; exact hprimary) k).trans ih

/-! ## The pool -/

/-- at least four nodes in one view, each with a replica for every instance -/
structure NodePool (ω σ τ : Type) where
  names : Finset NodeName
  four_le : 4 ≤ names.card
  /-- the primary of the master instance, and those of the backup instances -/
  primary : NodeName
  primary_mem : primary ∈ names
  backupPrimaries : List RepName
  length_backupPrimaries : backupPrimaries.length = getMaxFailures names.card
  viewNo : ℕ
  nodes : NodeName → Node ω σ τ
  name_eq : ∀ i ∈ names, (nodes i).name = i
  f_eq : ∀ i ∈ names, (nodes i).f = getMaxFailures names.card
  viewNo_eq : ∀ i ∈ names, (nodes i).viewNo = viewNo
  isParticipating : ∀ i ∈ names, (nodes i).isParticipating = true

/-- the primaries of all instances -/
def NodePool.primaries (P : NodePool ω σ τ) : List (Option RepName) :=
  some (generateName P.primary 0) :: P.backupPrimaries.map some

structure NodesWorld (ω σ τ : Type) where
  nodes : NodeName → RunningNode ω σ τ
  /-- which of the messages sent by which node each node has got -/
  received : NodeName → List (NodeName × ℕ)

/-- the `n`-th message of a sender reaches a receiver, or something happens at one node -/
inductive NodesEvent (ω : Type) where
  | deliver (receiver sender : NodeName) (n : ℕ)
  | request (i : NodeName) (request : Request ω) (client : String)
  | service (i : NodeName) (input : NodeInput ω)

/-- the servicing of a node's queues -/
def NodeInput.isService : NodeInput ω → Bool
  | .nodeMsg _ _ => false
  | .request _ _ => false
  | _ => true

namespace NodesWorld

def init (env : NodeEnv ω σ τ) (P : NodePool ω σ τ) : NodesWorld ω σ τ where
  nodes i := RunningNode.init env (P.nodes i) P.primaries
  received _ := []

variable [DecidableEq ω]

/-- an input to node `i` -/
def inputAt (env : NodeEnv ω σ τ) (w : NodesWorld ω σ τ) (i : NodeName) (x : NodeInput ω) : NodesWorld ω σ τ :=
  { w with nodes := Function.update w.nodes i ((w.nodes i).input env x) }

/-- the message that a delivery brings, if it was sent and has not been delivered yet -/
def inFlight (P : NodePool ω σ τ) (w : NodesWorld ω σ τ) (receiver sender : NodeName) (n : ℕ) : Option (NodeMsg ω) :=
  if receiver ∈ P.names ∧ sender ∈ P.names ∧ receiver ≠ sender ∧ (sender, n) ∉ w.received receiver then
    (w.nodes sender).sent[n]?
  else none

def step (env : NodeEnv ω σ τ) (P : NodePool ω σ τ) (w : NodesWorld ω σ τ) : NodesEvent ω → Option (NodesWorld ω σ τ)
  | .deliver receiver sender n =>
    (w.inFlight P receiver sender n).map fun m =>
      { w.inputAt env receiver (.nodeMsg m sender) with
        received := Function.update w.received receiver (w.received receiver ++ [(sender, n)]) }
  | .request i request client => if i ∈ P.names then some (w.inputAt env i (.request request client)) else none
  | .service i x => if i ∈ P.names ∧ x.isService then some (w.inputAt env i x) else none

/-- the primary's node has handed no request to its replicas twice -/
def ForwardsOnce (P : NodePool ω σ τ) (w : NodesWorld ω σ τ) : Prop := (w.nodes P.primary).forwarded.Nodup

instance (P : NodePool ω σ τ) (w : NodesWorld ω σ τ) : Decidable (w.ForwardsOnce P) :=
  inferInstanceAs (Decidable (List.Nodup _))

end NodesWorld

/-! ## The invariant of one node -/

theorem Queued.mono {D D' : InMsg → Prop} (hD : ∀ m, D m → D' m) {idx : ℕ} {m : InMsg} (h : Queued D idx m) :
    Queued D' idx m := h.imp id (And.imp_left (hD m))

/-- what holds of the replica of instance `idx` at node `i` -/
structure Voter (P : NodePool ω σ τ) (i : NodeName) (D : InMsg → Prop) (idx : ℕ) (r : RunningReplica ω σ τ) : Prop where
  sound : r.Sound (Queued D idx) idx
  votes : Votes i (Queued D idx) r.history
  master : idx = 0 → r.history.cfg.primaryName = some (generateName P.primary 0)

namespace Voter

variable {P : NodePool ω σ τ} {i : NodeName} {D D' : InMsg → Prop} {idx : ℕ} {r : RunningReplica ω σ τ}

theorem input {env : Env ω σ τ} (h : Voter P i D idx r) (x : ReplicaInput ω σ τ)
    (hD : ∀ m, x = .receive m → Queued D idx m) : Voter P i D idx (r.input env x) := by
  obtain ⟨hvotes, hcfg⟩ := RunningReplica.votes_input env h.sound.1 h.votes x hD
  exact ⟨h.sound.input x hD, hvotes, by rw [hcfg]; exact h.master⟩

theorem mono (h : Voter P i D idx r) (hD : ∀ m, D m → D' m) : Voter P i D' idx r where
  sound :=
    ⟨⟨⟨h.sound.1.ok.held.mono fun _ hm => hm.mono hD, h.sound.1.ok.inOneView⟩, h.sound.1.inSequence⟩, h.sound.2⟩
  votes := h.votes.deliver fun _ hm => hm.mono hD
  master := h.master

/-- the master's replica of the primary's node is the primary -/
theorem isPrimary (h : Voter P P.primary D 0 r) : r.history.cfg.primaryName = some r.history.cfg.name := by
  rw [h.master rfl, h.votes.name, h.sound.2.instId]

end Voter

/-- the copies of a request key that wait for the master's replica -/
def NodeCore.waiting (c : NodeCore ω σ τ) (k : ReqKey) : ℕ := (reqKeys (c.msgsToReplicas.getD 0 [])).count k

structure NodeSound (P : NodePool ω σ τ) (i : NodeName) (D : InMsg → Prop) (c : NodeCore ω σ τ) : Prop where
  replicas : ReplicasKeep D (Voter P i D) c
  keyed : c.requests.Keyed
  /-- what a node sends for its replicas they have emitted -/
  sent : ∀ m, .threePhase m ∈ c.sent → ∃ (idx : ℕ) (r : RunningReplica ω σ τ), c.replicas[idx]? = some r ∧
    .threePhase m ∈ r.emitted
  /-- the primary holds no more copies of a request key than its node has handed to it -/
  accounted : i = P.primary → ∀ r, c.replicas[0]? = some r → ∀ k,
    c.waiting k + r.replica.ordering.tokens k ≤ c.forwarded.count k

/-- a message that is received adds the request key it may be -/
theorem tokens_receive (env : Env ω σ τ) (r : RunningReplica ω σ τ) (m : InMsg) (k : ReqKey) :
    (r.input env (.receive m)).replica.ordering.tokens k = r.replica.ordering.tokens k + (reqKeys [m]).count k := by
  have hbox : (reqKeys (r.replica.inBox ++ [m])).count k =
      (reqKeys r.replica.inBox).count k + (reqKeys [m]).count k := by
    rw [reqKeys_append, List.count_append]
  change (reqKeys (r.replica.inBox ++ [m])).count k + (r.replica.requestQueues.get .pool).count k +
    (r.replica.requestQueues.get .domain).count k + (r.replica.accepted.flatMap PrePrepare.reqIdr).count k =
      (reqKeys r.replica.inBox).count k + (r.replica.requestQueues.get .pool).count k +
        (r.replica.requestQueues.get .domain).count k + (r.replica.accepted.flatMap PrePrepare.reqIdr).count k + _
  rw [hbox]
  omega

theorem getD_set (l : List (List InMsg)) (idx j : ℕ) (ms : List InMsg) :
    (l.set idx ms).getD j [] = if idx = j ∧ idx < l.length then ms else l.getD j [] := by
  rw [List.getD_eq_getElem?_getD, List.getElem?_set, List.getD_eq_getElem?_getD]
  by_cases hidx : idx = j
  · subst hidx
    by_cases hlt : idx < l.length
    · simp [hlt]
    · simp [hlt]
  · simp [hidx]

namespace NodeSound

variable {P : NodePool ω σ τ} {i : NodeName} {D D' : InMsg → Prop} {env : Env ω σ τ} {c c' : NodeCore ω σ τ}

theorem voter_input (env : Env ω σ τ) (idx : ℕ) (r : RunningReplica ω σ τ) (x : ReplicaInput ω σ τ)
    (h : Voter P i D idx r) (hD : ∀ m, x = .receive m → Queued D idx m) : Voter P i D idx (r.input env x) :=
  h.input x hD

/-- a message emitted by a replica stays emitted when a replica is replaced by one that has emitted more -/
theorem emitted_set {idx : ℕ} {r r' : RunningReplica ω σ τ} (hr : c.replicas[idx]? = some r)
    (hsub : r.emitted ⊆ r'.emitted) {m : ThreePhaseMsg}
    (h : ∃ (j : ℕ) (q : RunningReplica ω σ τ), c.replicas[j]? = some q ∧ .threePhase m ∈ q.emitted) :
    ∃ (j : ℕ) (q : RunningReplica ω σ τ), (c.replicas.set idx r')[j]? = some q ∧ .threePhase m ∈ q.emitted := by
  obtain ⟨j, q, hq, hm⟩ := h
  by_cases hj : idx = j
  · subst hj
    obtain rfl : q = r := Option.some.inj (hq.symm.trans hr)
    obtain ⟨hlt, -⟩ := List.getElem?_eq_some_iff.1 hr
    exact ⟨idx, r', by rw [List.getElem?_set_self hlt], hsub hm⟩
  · exact ⟨j, q, by rw [List.getElem?_set_ne hj]; exact hq, hm⟩

theorem mono (h : NodeSound P i D c) (hD : ∀ m, D m → D' m) : NodeSound P i D' c :=
  ⟨⟨fun idx r hr => (h.replicas.replicas idx r hr).mono hD,
    fun idx ms hms m hm => (h.replicas.msgs idx ms hms m hm).mono hD⟩, h.keyed, h.sent, h.accounted⟩

theorem arrival (h : NodeSound P i D c) (hs : ArrivalStep env D c c') : NodeSound P i D c' := by
  have hrep := h.replicas.arrival (voter_input env) hs
  cases hs with
  | record requests hgrows => exact ⟨hrep, hgrows.keyed h.keyed, h.sent, h.accounted⟩
  | sendPropagate request client =>
    refine ⟨hrep, h.keyed, fun m hm => ?_, h.accounted⟩
    rcases List.mem_append.1 hm with hm | hm
    · exact h.sent m hm
    · cases List.mem_singleton.1 hm
  | forward k requests hgrows =>
    refine ⟨hrep, hgrows.keyed h.keyed, h.sent, fun hi r hr k' => ?_⟩
    have hacc := h.accounted hi r hr k'
    have hwaiting : (reqKeys ((c.msgsToReplicas.map (· ++ [InMsg.reqKey k])).getD 0 [])).count k' ≤
        (reqKeys (c.msgsToReplicas.getD 0 [])).count k' + [k].count k' := by
      cases c.msgsToReplicas with
      | nil => exact Nat.zero_le _
      | cons q qs =>
        change (reqKeys (q ++ [InMsg.reqKey k])).count k' ≤ (reqKeys q).count k' + _
        rw [reqKeys_append, List.count_append]
        exact le_rfl
    unfold NodeCore.waiting at hacc ⊢
    rw [List.count_append]
    dsimp only
    omega
  | enqueue m hD hkey =>
    refine ⟨hrep, h.keyed, h.sent, fun hi r hr k => ?_⟩
    have hacc := h.accounted hi r hr k
    have hnone : reqKeys [m] = [] := by
      cases m with
      | reqKey k' => exact absurd rfl (hkey k')
      | _ => rfl
    have hwaiting : reqKeys ((c.msgsToReplicas.set m.instId (c.msgsToReplicas.getD m.instId [] ++ [m])).getD 0 []) =
        reqKeys (c.msgsToReplicas.getD 0 []) := by
      rw [getD_set]
      split_ifs with hidx
      · rw [reqKeys_append, hnone, List.append_nil, hidx.1]
      · rfl
    unfold NodeCore.waiting at hacc ⊢
    dsimp only
    rw [hwaiting]
    exact hacc
  | deliver idx m rest r hq hr =>
    have hvoter := h.replicas.replicas idx r hr
    have hqueued := h.replicas.msgs idx _ hq m List.mem_cons_self
    refine ⟨hrep, h.keyed, fun m' hm' => ?_, fun hi r' hr' k => ?_⟩
    · refine emitted_set hr ?_ (h.sent m' hm')
      exact RunningReplica.emitted_subset_input env hvoter.sound.1.ok _ fun x hx => by cases hx; exact hqueued
    · unfold NodeCore.waiting
      dsimp only at hr' ⊢
      rw [List.getElem?_set] at hr'
      rw [getD_set]
      obtain ⟨hlt, -⟩ := List.getElem?_eq_some_iff.1 hq
      by_cases hidx : idx = 0
      · -- the message moves from the queue to the inbox
        subst hidx
        rw [if_pos rfl, if_pos (List.getElem?_eq_some_iff.1 hr).1] at hr'
        cases hr'
        rw [if_pos ⟨rfl, hlt⟩]
        have hacc := h.accounted hi r hr k
        have hhead : c.waiting k = (reqKeys [m]).count k + (reqKeys rest).count k := by
          unfold NodeCore.waiting
          rw [List.getD_eq_getElem?_getD, hq, ← List.count_append, ← reqKeys_append]
          rfl
        rw [tokens_receive]
        omega
      · rw [if_neg hidx] at hr'
        rw [if_neg fun hh => hidx hh.1]
        exact h.accounted hi r' hr' k

theorem take (h : NodeSound P i D c) (hs : TakeStep env c c') : NodeSound P i D c' := by
  have hrep := h.replicas.take (voter_input env) hs
  cases hs with
  | take idx m rest r hr hout sent results hsent hresults =>
    have hvoter := h.replicas.replicas idx r hr
    have hsub := RunningReplica.emitted_subset_input env hvoter.sound.1.ok .takeFromOutBox fun x hx => by cases hx
    refine ⟨hrep, h.keyed, fun m' hm' => ?_, fun hi r' hr' k => ?_⟩
    · refine emitted_set hr hsub ?_
      rcases List.mem_append.1 hm' with hm' | hm'
      · exact h.sent m' hm'
      · cases hsent _ hm'
        refine ⟨idx, r, hr, List.mem_append_right _ ?_⟩
        rw [hout]
        exact List.mem_cons_self
    · dsimp only at hr'
      rw [List.getElem?_set] at hr'
      split_ifs at hr' with hidx hlt
      · subst hidx
        cases hr'
        have htokens : (r.input env .takeFromOutBox).replica.ordering.tokens k = r.replica.ordering.tokens k := by
          unfold RunningReplica.input
          rw [hout]
          rfl
        rw [htokens]
        exact h.accounted hi r hr k
      · exact h.accounted hi r' hr' k

theorem service (h : NodeSound P i D c) (hs : ServiceStep env c c') : NodeSound P i D c' := by
  have hrep := h.replicas.service (voter_input env) hs
  cases hs with
  | service idx r r' hr dbs suspicions fuel limit perfCounter time hr' =>
    have hvoter := h.replicas.replicas idx r hr
    have hshared : Voter P i D idx (r.input env (.nodeChanged c.requests dbs suspicions)) :=
      hvoter.input _ fun x hx => by cases hx
    have hsteps := RunningReplica.serviceQueues_steps env hshared.sound.1.ok fuel limit perfCounter time
    rw [← hr'] at hsteps
    have hshrinks : c.requests.Shrinks r'.replica.ordering.requests := shrinks_of_steps hsteps
    refine ⟨hrep, hshrinks.keyed h.keyed, fun m hm => ?_, fun hi q hq k => ?_⟩
    · refine emitted_set hr ?_ (h.sent m hm)
      rw [hr']
      exact List.Subset.trans (RunningReplica.emitted_subset_input env hvoter.sound.1.ok
        (.nodeChanged c.requests dbs suspicions) fun x hx => by cases hx)
        (RunningReplica.emitted_subset_input env hshared.sound.1.ok _ fun x hx => by cases hx)
    · dsimp only at hq
      rw [List.getElem?_set] at hq
      split_ifs at hq with hidx hlt
      · subst hidx hi
        cases hq
        have hprimary : (r.input env (.nodeChanged c.requests dbs suspicions)).replica.ordering.cfg.primaryName =
            some (r.input env (.nodeChanged c.requests dbs suspicions)).replica.ordering.cfg.name := hshared.isPrimary
        have hle := tokens_le_of_steps (show Requests.Keyed _ from h.keyed) hprimary hsteps k
        have hacc := h.accounted rfl r hr k
        exact (Nat.add_le_add_left hle _).trans hacc
      · exact h.accounted hi q hq k

/-- **Every input keeps the invariant of its node.** -/
theorem input [DecidableEq ω] {env : NodeEnv ω σ τ} {s : RunningNode ω σ τ} (h : NodeSound P i D s.core)
    (x : NodeInput ω) (hD : ∀ m, x.brings m → D m) : NodeSound P i D (s.input env x).core :=
  RunningNode.input_keeps x hD (fun _ _ hs h => h.arrival hs) (fun _ _ hs h => h.take hs)
    (fun _ _ hs h => h.service hs) h

end NodeSound

/-! ## Runs of the pool -/

/-- what was sent to the replicas of the other nodes -/
def NodesWorld.Sent (P : NodePool ω σ τ) (w : NodesWorld ω σ τ) : InMsg → Prop
  | .reqKey _ => False
  | .threePhase m j => j ∈ P.names ∧ .threePhase m ∈ (w.nodes j).sent
  | .checkpoint c j => j ∈ P.names ∧ .checkpoint c ∈ (w.nodes j).sent

/-- the invariant of the pool -/
def NodesSound (P : NodePool ω σ τ) (w : NodesWorld ω σ τ) : Prop :=
  ∀ i ∈ P.names, NodeSound P i (w.Sent P) (w.nodes i).core

theorem RunningNode.sent_subset_input [DecidableEq ω] (env : NodeEnv ω σ τ) (s : RunningNode ω σ τ)
    (x : NodeInput ω) : s.sent ⊆ (s.input env x).sent := by
  refine RunningNode.input_keeps (D := fun _ => True) (I := fun c => s.sent ⊆ c.sent) x (fun _ _ => trivial) ?_ ?_ ?_
    (List.Subset.refl _)
  · intro c c' hs h
    cases hs with
    | sendPropagate request client => exact List.Subset.trans h (List.subset_append_left _ _)
    | _ => exact h
  · intro c c' hs h
    cases hs with
    | take => exact List.Subset.trans h (List.subset_append_left _ _)
  · intro c c' hs h
    cases hs with
    | service => exact h

namespace NodesSound

variable [DecidableEq ω] {env : NodeEnv ω σ τ} {P : NodePool ω σ τ} {w w' : NodesWorld ω σ τ}

/-- an input to one node keeps the invariant of every node -/
theorem inputAt (h : NodesSound P w) (n : NodeName) (x : NodeInput ω) (hD : ∀ m, x.brings m → w.Sent P m) :
    NodesSound P (w.inputAt env n x) := by
  have hsent : ∀ j, (w.nodes j).sent ⊆ ((w.inputAt env n x).nodes j).sent := by
    intro j
    unfold NodesWorld.inputAt
    by_cases hj : j = n
    · subst hj
      dsimp only
      rw [Function.update_self]
      exact RunningNode.sent_subset_input env _ x
    · dsimp only
      rw [Function.update_of_ne hj]
      exact List.Subset.refl _
  have hmono : ∀ m, w.Sent P m → (w.inputAt env n x).Sent P m := by
    intro m hm
    cases m with
    | reqKey k => exact hm
    | threePhase m j => exact ⟨hm.1, hsent j hm.2⟩
    | checkpoint c j => exact ⟨hm.1, hsent j hm.2⟩
  intro i hi
  have hnode : NodeSound P i (w.Sent P) ((w.inputAt env n x).nodes i).core := by
    unfold NodesWorld.inputAt
    by_cases hin : i = n
    · subst hin
      dsimp only
      rw [Function.update_self]
      exact (h i hi).input x hD
    · dsimp only
      rw [Function.update_of_ne hin]
      exact h i hi
  exact hnode.mono hmono

/-- **Every step of the pool keeps the invariant.** -/
theorem step (h : NodesSound P w) {e : NodesEvent ω} (hs : w.step env P e = some w') : NodesSound P w' := by
  cases e with
  | deliver receiver sender n =>
    obtain ⟨m, hm, rfl⟩ := Option.map_eq_some_iff.1 hs
    unfold NodesWorld.inFlight at hm
    split_ifs at hm with hen
    have hmem : m ∈ (w.nodes sender).sent := List.mem_of_getElem? hm
    refine h.inputAt receiver (.nodeMsg m sender) fun x hx => ?_
    cases m with
    | propagate request client => exact False.elim hx
    | threePhase m => cases hx; exact ⟨hen.2.1, hmem⟩
    | checkpoint c => cases hx; exact ⟨hen.2.1, hmem⟩
  | request i request client =>
    dsimp only [NodesWorld.step] at hs
    split_ifs at hs
    cases hs
    exact h.inputAt i _ fun x hx => False.elim hx
  | service i x =>
    dsimp only [NodesWorld.step] at hs
    split_ifs at hs with hen
    cases hs
    refine h.inputAt i x fun m hm => ?_
    cases x with
    | nodeMsg => cases hen.2
    | _ => exact False.elim hm

omit [DecidableEq ω] in
theorem init (env : NodeEnv ω σ τ) (P : NodePool ω σ τ) : NodesSound P (NodesWorld.init env P) := by
  intro i hi
  refine ⟨⟨fun idx r hr => ?_, fun idx ms hms m hm => ?_⟩, fun e he => absurd he List.not_mem_nil,
    fun m hm => absurd hm List.not_mem_nil, fun _ r hr k => ?_⟩
  · obtain ⟨p, hp, rfl⟩ := RunningNode.replicas_init env (P.nodes i) P.primaries hr
    refine ⟨⟨RunningReplica.inv_init _ env.toEnv { P.nodes i with requests := Dict.empty } (P.isParticipating i hi) idx
        _ p, rfl, fun o ho => absurd ho List.not_mem_nil, fun pp hpp => absurd hpp List.not_mem_nil⟩,
      RunningReplica.votes_init _ env.toEnv { P.nodes i with requests := Dict.empty } (P.name_eq i hi) idx _ p, ?_⟩
    rintro rfl
    exact Option.some.inj hp.symm
  · obtain ⟨p, -, rfl⟩ := Option.map_eq_some_iff.1 ((List.getElem?_map).symm.trans hms)
    exact absurd hm List.not_mem_nil
  · obtain ⟨p, -, rfl⟩ := RunningNode.replicas_init env (P.nodes i) P.primaries hr
    exact le_rfl

end NodesSound

/-! ## Ordered once -/

section OrderedOnce

variable {P : NodePool ω σ τ} {w : NodesWorld ω σ τ}

/-- what a node takes in as the master's batch the primary has made -/
theorem NodesSound.accepted_by_primary (h : NodesSound P w) {i : NodeName} (hi : i ∈ P.names)
    {r : RunningReplica ω σ τ} (hr : (w.nodes i).replicas[0]? = some r) {pp : PrePrepare}
    (hpp : pp ∈ r.replica.accepted) : ∃ p, (w.nodes P.primary).replicas[0]? = some p ∧ pp ∈ p.replica.accepted := by
  by_cases hprimary : i = P.primary
  · subst hprimary
    exact ⟨r, hr, hpp⟩
  · have hvoter := (h i hi).replicas.replicas 0 r hr
    have hbackup : r.history.cfg.primaryName ≠ some r.history.cfg.name := by
      rw [hvoter.master rfl, hvoter.votes.name, hvoter.sound.2.instId]
      intro he
      exact hprimary (congrArg RepName.node (Option.some.inj he)).symm
    obtain ⟨j, hj, hqueued⟩ := hvoter.votes.received hbackup pp hpp
    rw [hvoter.master rfl, Option.some.injEq] at hj
    obtain rfl : P.primary = j := congrArg RepName.node hj
    rcases hqueued with ⟨k, hk⟩ | ⟨⟨-, hsent⟩, hinst⟩
    · cases hk
    · -- the node of the primary sent it for its replica of this instance
      obtain ⟨idx, q, hq, hemitted⟩ := (h _ P.primary_mem).sent _ hsent
      have hqvoter := (h _ P.primary_mem).replicas.replicas idx q hq
      have hidx : idx = 0 := (hqvoter.sound.2.prePrepares pp hemitted).symm.trans hinst
      subst hidx
      exact ⟨q, hq, hqvoter.votes.prePrepares pp hemitted⟩

/-- where the primary's node forwards each request once, the batches of the primary share no request -/
theorem NodesSound.disjoint_of_forwardsOnce (h : NodesSound P w) (honce : w.ForwardsOnce P) {p : RunningReplica ω σ τ}
    (hp : (w.nodes P.primary).replicas[0]? = some p) {pp pp' : PrePrepare} (hpp : pp ∈ p.replica.accepted)
    (hpp' : pp' ∈ p.replica.accepted) (hne : pp ≠ pp') : pp.reqIdr.Disjoint pp'.reqIdr := by
  have hnodup : (p.replica.accepted.flatMap PrePrepare.reqIdr).Nodup := by
    rw [List.nodup_iff_count_le_one]
    intro k
    have hacc := (h _ P.primary_mem).accounted rfl p hp k
    have hforwarded : (w.nodes P.primary).core.forwarded.count k ≤ 1 := List.nodup_iff_count_le_one.1 honce k
    have htokens : (p.replica.accepted.flatMap PrePrepare.reqIdr).count k ≤ p.replica.ordering.tokens k :=
      Nat.le_add_left _ _
    omega
  have hpairwise := (List.nodup_flatMap.1 hnodup).2
  have hsymm : Std.Symm fun a b : PrePrepare => a.reqIdr.Disjoint b.reqIdr := ⟨fun _ _ hd => hd.symm⟩
  exact List.Pairwise.forall hpairwise hpp hpp' hne

end OrderedOnce

/-- **A request is ordered once.** In every run in which the primary's node hands each request to its replicas once,
no two `Ordered` messages of a node's master replica share a request. -/
theorem ordered_once [DecidableEq ω] (env : NodeEnv ω σ τ) (P : NodePool ω σ τ) {w : NodesWorld ω σ τ}
    (hr : Reach (NodesWorld.step env P) (fun _ _ w' => w'.ForwardsOnce P) (NodesWorld.init env P) w) {i : NodeName}
    (hi : i ∈ P.names) {r : RunningReplica ω σ τ} (hm : (w.nodes i).replicas[0]? = some r) :
    (r.emitted.filterMap OutMsg.ordered?).Pairwise fun o o' => o.reqIdr.Disjoint o'.reqIdr := by
  have hinv : NodesSound P w :=
    hr.inv (I := NodesSound P) (NodesSound.init env P) fun _ _ _ h hs _ => h.step hs
  cases hr with
  | refl =>
    obtain ⟨p, -, rfl⟩ := RunningNode.replicas_init env (P.nodes i) P.primaries hm
    exact List.Pairwise.nil
  | step _ _ honce =>
    have hvoter := (hinv i hi).replicas.replicas 0 r hm
    have hnodup : ((r.emitted.filterMap OutMsg.ordered?).map Ordered.ppSeqNo).Nodup := by
      have hseq := hvoter.sound.1.inSequence.emitted
      unfold orderedSeqNos at hseq
      rw [show r.emitted = r.history.outBox from rfl, hseq]
      exact List.nodup_range'
    -- an `Ordered` message is one of a batch that the primary has made
    have hbatch : ∀ o ∈ r.emitted.filterMap OutMsg.ordered?, ∃ pp p, o = pp.toOrdered 0 ∧
        (w.nodes P.primary).replicas[0]? = some p ∧ pp ∈ p.replica.accepted := by
      intro o ho
      obtain ⟨m, hmem, he⟩ := List.mem_filterMap.1 ho
      cases m with
      | ordered o' =>
        cases he
        obtain ⟨pp, hpp, hoe, -⟩ := hvoter.votes.ordered _ hmem
        rw [hvoter.sound.2.instId] at hoe
        obtain ⟨p, hp, hpp'⟩ := hinv.accepted_by_primary hi hm hpp
        exact ⟨pp, p, hoe, hp, hpp'⟩
      | _ => cases he
    refine List.Pairwise.imp_of_mem (fun {o o'} ho ho' hne => ?_) (List.pairwise_map.1 hnodup)
    obtain ⟨pp, p, rfl, hp, hpp⟩ := hbatch o ho
    obtain ⟨pp', p', rfl, hp', hpp'⟩ := hbatch o' ho'
    obtain rfl : p = p' := Option.some.inj (hp.symm.trans hp')
    have hdisjoint := hinv.disjoint_of_forwardsOnce honce hp hpp hpp' fun he => hne (by rw [he])
    intro k hk hk'
    exact hdisjoint (List.mem_of_mem_take hk) (List.mem_of_mem_take hk')

/-! ## Witnesses -/

namespace FourNodes

/-- four correct nodes; Alpha has the primary of the master, Gamma that of the backup -/
def correctPool : NodePool Bool ℕ ReqKey where
  names := {"Alpha", "Beta", "Gamma", "Delta"}
  four_le := by decide
  primary := "Alpha"
  primary_mem := alpha_mem
  backupPrimaries := [generateName "Gamma" 1]
  length_backupPrimaries := by decide
  viewNo := 0
  nodes n := node n Dict.empty
  name_eq _ _ := rfl
  f_eq _ _ := show 1 = getMaxFailures _ by decide
  viewNo_eq _ _ := rfl
  isParticipating _ _ := rfl

/-- the nodes that get messages in the traces; Delta only sends its PROPAGATE -/
def three : List NodeName := ["Alpha", "Beta", "Gamma"]

/-- the given messages of each sender reach the other two nodes, which then service their queues -/
def exchange (ms : List (NodeName × List ℕ)) : List (NodesEvent Bool) :=
  (ms.flatMap fun e => (three.filter (· ≠ e.1)).flatMap fun i => e.2.map fun n => .deliver i e.1 n) ++
    three.flatMap fun i => serviceReplicas.map fun x => .service i x

/-- the messages `ns` of each of the three nodes -/
def everyone (ns : List ℕ) : List (NodeName × List ℕ) := three.map fun i => (i, ns)

/-- from the PROPAGATEs, message `n` of each node, to the COMMITs of both instances -/
def orderBatch (n : ℕ) : List (NodesEvent Bool) :=
  exchange (everyone [n]) ++ exchange [("Alpha", [n + 1]), ("Gamma", [n + 1])] ++
    exchange [("Alpha", [n + 2]), ("Beta", [n + 1, n + 2]), ("Gamma", [n + 2])] ++ exchange (everyone [n + 3, n + 4])

/-- every node gets the request from its client -/
def requestAll (req : Request Bool) : List (NodesEvent Bool) :=
  ["Alpha", "Beta", "Gamma", "Delta"].map fun i => .request i req "client"

/-- after the first batch and its checkpoint the PROPAGATE of Delta arrives, and the request starts again -/
def latePropagate : List (NodesEvent Bool) :=
  requestAll (request 1 "a") ++ orderBatch 0 ++ exchange (everyone [5, 6]) ++
    (three.map fun i => .deliver i "Delta" 0) ++ orderBatch 7

/-- two requests, one after the other -/
def twoBatches : List (NodesEvent Bool) :=
  requestAll (request 1 "a") ++ orderBatch 0 ++ requestAll (request 2 "b") ++ orderBatch 5

end FourNodes

/-- the `Ordered` messages that the master's replica of a node has emitted -/
def NodesWorld.masterOrdered (w : NodesWorld ω σ τ) (i : NodeName) : Option (List Ordered) :=
  ((w.nodes i).replicas[0]?).map fun r => r.emitted.filterMap OutMsg.ordered?

open FourNodes in
/-- **A late PROPAGATE has a request ordered twice**: Alpha orders the same request as its first and its second batch. -/
theorem ordered_twice :
    ∃ w r o o', Reach (NodesWorld.step (nodeEnv 1) correctPool) (fun _ _ _ => True)
        (NodesWorld.init (nodeEnv 1) correctPool) w ∧ "Alpha" ∈ correctPool.names ∧
      (w.nodes "Alpha").replicas[0]? = some r ∧ r.emitted.filterMap OutMsg.ordered? = [o, o'] ∧ o ≠ o' ∧
      ("client", 1) ∈ o.reqIdr ∧ ("client", 1) ∈ o'.reqIdr := by
  have hrun : ((runAll (NodesWorld.step (nodeEnv 1) correctPool) (fun _ _ _ => True)
      (NodesWorld.init (nodeEnv 1) correctPool) latePropagate).bind fun w => w.masterOrdered "Alpha") =
      some [(prePrepare 1 (request 1 "a")).toOrdered 0, (prePrepare 2 (request 1 "a")).toOrdered 0] := by decide +kernel
  obtain ⟨w, hw, hordered⟩ := Option.bind_eq_some_iff.1 hrun
  obtain ⟨r, hr, he⟩ := Option.map_eq_some_iff.1 hordered
  exact ⟨w, r, _, _, reach_of_runAll hw, by decide, hr, he, by decide, by decide, by decide⟩

open FourNodes in
theorem ordered_once_twoBatches :
    ∃ (w : NodesWorld Bool ℕ ReqKey) (r : RunningReplica Bool ℕ ReqKey), (w.nodes "Beta").replicas[0]? = some r ∧
      (r.emitted.filterMap OutMsg.ordered?).map Ordered.reqIdr = [[("client", 1)], [("client", 2)]] ∧
      (r.emitted.filterMap OutMsg.ordered?).Pairwise fun o o' => o.reqIdr.Disjoint o'.reqIdr := by
  have hrun : ((runAll (NodesWorld.step (nodeEnv 10) correctPool) (fun _ _ w' => w'.ForwardsOnce correctPool)
      (NodesWorld.init (nodeEnv 10) correctPool) twoBatches).bind fun w => w.masterOrdered "Beta") =
      some [(prePrepare 1 (request 1 "a")).toOrdered 0, (prePrepare 2 (request 2 "b")).toOrdered 0] := by decide +kernel
  obtain ⟨w, hw, hordered⟩ := Option.bind_eq_some_iff.1 hrun
  obtain ⟨r, hr, he⟩ := Option.map_eq_some_iff.1 hordered
  exact ⟨w, r, hr, by rw [he]; rfl, ordered_once (nodeEnv 10) correctPool (reach_of_runAll hw) (by decide) hr⟩

end Plenum
