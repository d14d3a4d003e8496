/-
What the code of a replica does to the rest of its node: to the requests and databases that they share, and with the
messages it puts in its outbox.

- `SharedStep`: a finalised request is applied, a ledger and its state are reverted, a replica releases a request.
- `OutwardStep idx`: one of these, or messages of the instance `idx` join the outbox.
- `Replica.Since`: what the node sees of a replica was reached by these steps. Every method keeps it, also one that
  raises (`Since.serviceQueues`).
- `SharedStep.committed`: no replica touches a committed transaction.
-/
import Mathlib.Tactic
import Plenum.Server.ReplicaFrame
import Plenum.Server.InSequence

namespace Plenum

open Plenum.Core Plenum.Core.Exec
open Relation (ReflTransGen)

variable {ω σ τ : Type}

/-- what a node shares with its replicas -/
structure Shared (ω σ τ : Type) where
  requests : Requests ω
  dbs : Dbs σ τ

def Node.shared (n : Node ω σ τ) : Shared ω σ τ := ⟨n.requests, n.dbs⟩

inductive SharedStep (env : Env ω σ τ) : Shared ω σ τ → Shared ω σ τ → Prop
  | apply {requests dbs} (key req) (h : requests.finalised? key = some req) :
      SharedStep env ⟨requests, dbs⟩ ⟨requests, dbs.applyReq env req⟩
  | revert {requests dbs} (lid root count) : SharedStep env ⟨requests, dbs⟩ ⟨requests, dbs.revert env lid root count⟩
  | release {requests requests' dbs} (key) (h : requests.release key = some requests') :
      SharedStep env ⟨requests, dbs⟩ ⟨requests', dbs⟩

/-- a replica touches no committed transaction -/
theorem SharedStep.committed {env : Env ω σ τ} {sh sh' : Shared ω σ τ} (hs : SharedStep env sh sh') (lid : LedgerId) :
    (sh'.dbs.ledgers.get lid).txns = (sh.dbs.ledgers.get lid).txns := by
  cases hs with
  | @apply requests dbs key req h =>
    change ((dbs.ledgers.set (env.ledgerIdForRequest req) _).get lid).txns = _
    rw [PerLedger.get_set]
    split_ifs with hl
    · rw [hl]; rfl
    · rfl
  | @revert requests dbs lid' root count =>
    change ((dbs.ledgers.set lid' _).get lid).txns = _
    rw [PerLedger.get_set]
    split_ifs with hl
    · rw [hl]; exact Ledger.discardTxns_txns count
    · rfl
  | release key h => rfl

/-- a message of the instance `idx` -/
def OutMsg.IsOf (idx : ℕ) : OutMsg → Prop
  | .threePhase (.prePrepare pp) => pp.instId = idx
  | .threePhase (.prepare p) => p.instId = idx
  | .threePhase (.commit c) => c.instId = idx
  | .checkpoint c => c.instId = idx
  | .ordered o => o.instId = idx
  | .reject _ => True

/-- what a node sees of a replica -/
structure Outward (ω σ τ : Type) where
  shared : Shared ω σ τ
  outBox : List OutMsg

inductive OutwardStep (env : Env ω σ τ) (idx : ℕ) : Outward ω σ τ → Outward ω σ τ → Prop
  | share {o sh} (h : SharedStep env o.shared sh) : OutwardStep env idx o { o with shared := sh }
  | emit {o} (ms) (h : ∀ m ∈ ms, OutMsg.IsOf idx m) : OutwardStep env idx o { o with outBox := o.outBox ++ ms }

/-- the shared state is reached by the steps on it -/
theorem shared_of_outward {env : Env ω σ τ} {idx : ℕ} {o o' : Outward ω σ τ}
    (h : ReflTransGen (OutwardStep env idx) o o') : ReflTransGen (SharedStep env) o.shared o'.shared := by
  induction h with
  | refl => exact ReflTransGen.refl
  | tail _ hstep ih =>
    cases hstep with
    | share hs => exact ih.tail hs
    | emit ms => exact ih

/-- the outbox only grows -/
theorem outBox_prefix_of_outward {env : Env ω σ τ} {idx : ℕ} {o o' : Outward ω σ τ}
    (h : ReflTransGen (OutwardStep env idx) o o') : o.outBox <+: o'.outBox := by
  refine stable_of_steps (I := fun o' : Outward ω σ τ => o.outBox <+: o'.outBox) (fun _ _ hstep h => ?_) h
    (List.prefix_refl _)
  cases hstep with
  | share => exact h
  | emit ms => exact h.trans (List.prefix_append _ _)

/-- only messages of the instance join the outbox -/
theorem outBox_of_outward {env : Env ω σ τ} {idx : ℕ} {o o' : Outward ω σ τ}
    (h : ReflTransGen (OutwardStep env idx) o o') (ho : ∀ m ∈ o.outBox, OutMsg.IsOf idx m) :
    ∀ m ∈ o'.outBox, OutMsg.IsOf idx m := by
  refine stable_of_steps (I := fun o : Outward ω σ τ => ∀ m ∈ o.outBox, OutMsg.IsOf idx m) (fun _ _ hstep h => ?_) h ho
  cases hstep with
  | share => exact h
  | emit ms hms => exact fun m hm => (List.mem_append.1 hm).elim (h m) (hms m)

namespace Replica

def outward (s : Replica ω σ τ) : Outward ω σ τ := ⟨s.node.shared, s.outBox⟩

/-- what the node sees of the replica of the instance `idx` was reached from `o` -/
structure Since (env : Env ω σ τ) (idx : ℕ) (o : Outward ω σ τ) (s : Replica ω σ τ) : Prop where
  instId : s.instId = idx
  steps : ReflTransGen (OutwardStep env idx) o s.outward

namespace Since

variable {env : Env ω σ τ} {idx : ℕ} {o : Outward ω σ τ} {fuel : ℕ}
  {dispatch : ThreePhaseMsg → NodeName → ReplicaM ω σ τ Unit}

/-- a write that the node does not see -/
theorem write {g : Replica ω σ τ → Replica ω σ τ} (h : ∀ s, (g s).instId = s.instId ∧ (g s).outward = s.outward) :
    Keeps (Since env idx o) (modify g : ReplicaM ω σ τ PUnit) :=
  fun s hs => ⟨(h s).1.trans hs.instId, by rw [exec_modify, (h s).2]; exact hs.steps⟩

theorem quiet {s s' : Replica ω σ τ} (hs : Since env idx o s) (hinst : s'.instId = s.instId)
    (ho : s'.outward = s.outward) : Since env idx o s' := ⟨hinst.trans hs.instId, by rw [ho]; exact hs.steps⟩

/-- messages of the instance join the outbox -/
theorem emit {s : Replica ω σ τ} (hs : Since env idx o s) {ms : List OutMsg} (hms : ∀ m ∈ ms, OutMsg.IsOf idx m) :
    Since env idx o (s.appendOutBox ms) := ⟨hs.instId, hs.steps.tail (.emit ms hms)⟩

theorem emitting {ms : List OutMsg} (hms : ∀ m ∈ ms, OutMsg.IsOf idx m) :
    Keeps (Since env idx o) (modify fun s => s.appendOutBox ms : ReplicaM ω σ τ Unit) := fun _ hs => hs.emit hms

theorem send {m : OutMsg} (hm : OutMsg.IsOf idx m) : Keeps (Since env idx o) (send m : ReplicaM ω σ τ Unit) :=
  emitting fun m' hm' => by rw [List.mem_singleton.1 hm']; exact hm

/-- a program that starts by reading the state may use its instance -/
theorem read {α : Type} {f : Replica ω σ τ → ReplicaM ω σ τ α}
    (hf : ∀ s, s.instId = idx → Keeps (Since env idx o) (f s)) : Keeps (Since env idx o) (get >>= f) :=
  Keeps.read fun s hs => hf s hs.instId s hs

theorem isOf_rejects (rejects : List Reject) : ∀ m ∈ rejects.map OutMsg.reject, OutMsg.IsOf idx m := by
  intro m hm
  obtain ⟨r, -, rfl⟩ := List.mem_map.1 hm
  trivial

theorem reportingSuspicions {m : ReplicaM ω σ τ Unit} (hm : Keeps (Since env idx o) m) :
    Keeps (Since env idx o) (reportingSuspicions m) := by
  refine hm.catching fun e => ?_
  cases e with
  | suspiciousNode node suspicion msg => exact write fun _ => ⟨rfl, rfl⟩
  | _ => exact Keeps.raise _

/-! ## Batches -/

/-- what follows `finalisedReq` may use that the request is finalised -/
theorem finalisedReq_seq {α : Type} {key : ReqKey} {f : Request ω → ReplicaM ω σ τ α}
    (hf : ∀ req s, Since env idx o s → s.node.requests.finalised? key = some req → Since env idx o (exec (f req) s).2) :
    Keeps (Since env idx o) (finalisedReq key >>= f) := by
  intro s hs
  rw [exec_bind, Replica.finalisedReq, exec_bind, exec_get]
  dsimp only
  cases hget : s.node.requests.get? key with
  | none => exact hs
  | some state =>
    dsimp only
    cases hfin : state.finalised with
    | none => exact hs
    | some req => exact hf req s hs (by rw [Requests.finalised?, hget]; exact hfin)

theorem apply {s : Replica ω σ τ} (hs : Since env idx o s) {key : ReqKey} {req : Request ω}
    (h : s.node.requests.finalised? key = some req) : Since env idx o (s.setDbs (s.node.dbs.applyReq env req)) :=
  ⟨hs.instId, hs.steps.tail (.share (.apply key req h))⟩

theorem processReqDuringBatch {s : Replica ω σ τ} (hs : Since env idx o s) {key : ReqKey} {req : Request ω}
    (h : s.node.requests.finalised? key = some req) (acc : ReqLists ω) :
    Since env idx o (exec (processReqDuringBatch env req acc) s).2 := by
  unfold Replica.processReqDuringBatch
  rw [exec_bind, exec_get]
  dsimp only
  split
  · split
    · exact hs
    · exact hs.apply h
  · exact hs

theorem processReqs (keys : List ReqKey) (acc : ReqLists ω) : Keeps (Since env idx o) (processReqs env keys acc) := by
  induction keys generalizing acc with
  | nil => exact Keeps.ret _
  | cons key keys ih => exact finalisedReq_seq fun req s hs hreq => Keeps.after (hs.processReqDuringBatch hreq acc) ih

theorem fillBatch (lid : LedgerId) (n : ℕ) (acc : ReqLists ω) : Keeps (Since env idx o) (fillBatch env lid n acc) := by
  induction n generalizing acc with
  | zero => exact Keeps.ret _
  | succ n ih =>
    apply Keeps.get_seq
    intro s
    split
    · exact Keeps.ret _
    · refine Keeps.seq (write fun _ => ⟨rfl, rfl⟩) fun _ => ?_
      exact finalisedReq_seq fun req s hs hreq => Keeps.after (hs.processReqDuringBatch hreq acc) ih

theorem create3PCBatch (lid : LedgerId) : Keeps (Since env idx o) (create3PCBatch env lid) := by
  apply Keeps.get_seq
  intro s
  refine Keeps.seq (fillBatch _ _ _) fun acc => Keeps.get_seq fun s => ?_
  refine Keeps.seq (write fun _ => ⟨rfl, rfl⟩) fun _ => ?_
  refine Keeps.seq (fun s hs => hs.emit fun m hm => ?_) fun _ => Keeps.ret _
  split_ifs at hm
  · exact isOf_rejects _ m hm
  · cases hm

/-- a batch made is of the instance -/
theorem instId_create3PCBatch {lid : LedgerId} {s : Replica ω σ τ} (hs : Since env idx o s) {pp : PrePrepare}
    (h : (exec (Replica.create3PCBatch env lid) s).1 = .ok pp) : pp.instId = idx := by
  have hfill : Since env idx o (exec (Replica.fillBatch env lid env.max3PCBatchSize ⟨[], [], []⟩) s).2 :=
    fillBatch _ _ _ s hs
  unfold Replica.create3PCBatch at h
  rw [exec_bind, exec_get] at h
  dsimp only at h
  rw [exec_bind] at h
  rcases he : exec (Replica.fillBatch env lid env.max3PCBatchSize ⟨[], [], []⟩) s with ⟨e | acc, s'⟩
  · rw [he] at h
    cases h
  · rw [he] at h hfill
    obtain rfl : mkPrePrepare env s' lid (s.lastPrePrepareSeqNo + 1) acc = pp := Except.ok.inj h
    exact hfill.instId

theorem send3PCBatchFor (lid : LedgerId) : Keeps (Since env idx o) (send3PCBatchFor env lid) := by
  refine Keeps.get_seq fun s0 => Keeps.cond (fun s hs => ?_) (Keeps.ret _)
  have hcreate := create3PCBatch lid s hs
  have hinst : ∀ pp, (exec (Replica.create3PCBatch env lid) s).1 = .ok pp → pp.instId = idx :=
    fun _ => hs.instId_create3PCBatch
  rw [exec_bind]
  rcases he : exec (Replica.create3PCBatch env lid) s with ⟨e | pp, s'⟩
  · rw [he] at hcreate
    exact hcreate
  · rw [he] at hcreate hinst
    have hpp : OutMsg.IsOf idx (.threePhase (.prePrepare pp)) := hinst pp rfl
    have hsend : Keeps (Since env idx o) (sendPrePrepare pp : ReplicaM ω σ τ Unit) :=
      Keeps.seq (write fun _ => ⟨rfl, rfl⟩) fun _ => send hpp
    have hrest : Keeps (Since env idx o) (sendPrePrepare pp >>= fun _ =>
        modify (fun s' => s'.trackBatches pp (s0.stateHead lid)) >>= fun _ => pure 1 : ReplicaM ω σ τ ℕ) :=
      Keeps.seq hsend fun _ => Keeps.seq (write fun _ => ⟨rfl, rfl⟩) fun _ => Keeps.ret _
    exact hrest s' hcreate

theorem send3PCBatch : Keeps (Since env idx o) (send3PCBatch env) := by
  refine Keeps.seq (send3PCBatchFor _) fun r => Keeps.seq (send3PCBatchFor _) fun r' => ?_
  exact Keeps.cond (Keeps.seq (write fun _ => ⟨rfl, rfl⟩) fun _ => Keeps.ret _) (Keeps.ret _)

theorem readyFor3PC (key : ReqKey) : Keeps (Since env idx o) (readyFor3PC env key) :=
  finalisedReq_seq fun _ _ hs _ => hs.quiet rfl rfl

/-! ## Checkpoints -/

theorem releaseReqs (keys : List ReqKey) : Keeps (Since env idx o) (releaseReqs keys : ReplicaM ω σ τ Unit) := by
  induction keys with
  | nil => exact Keeps.ret _
  | cons key keys ih =>
    refine Keeps.read fun s hs => ?_
    cases hrel : s.node.requests.release key with
    | none => exact hs
    | some requests => exact Keeps.after ⟨hs.instId, hs.steps.tail (.share (.release key hrel))⟩ fun _ => ih

theorem gc (tillSeqNo : ℕ) : Keeps (Since env idx o) (gc tillSeqNo : ReplicaM ω σ τ Unit) := by
  apply Keeps.get_seq
  intro s
  exact Keeps.seq (write fun _ => ⟨rfl, rfl⟩) fun _ => releaseReqs _

theorem applyReqs (keys : List ReqKey) : Keeps (Since env idx o) (applyReqs env keys) := by
  induction keys with
  | nil => exact Keeps.ret _
  | cons key keys ih => exact finalisedReq_seq fun req s hs hreq => Keeps.after (hs.apply hreq) fun _ => ih

theorem unstashCaughtUp (key : TPCKey) (pp : PrePrepare) : Keeps (Since env idx o) (unstashCaughtUp env key pp) := by
  apply Keeps.get_seq
  intro s
  refine Keeps.cond ?_ (Keeps.ret _)
  exact Keeps.cond (Keeps.seq (applyReqs _) fun _ => write fun _ => ⟨rfl, rfl⟩) (write fun _ => ⟨rfl, rfl⟩)

section Dispatch

variable (hdispatch : ∀ m sender, Keeps (Since env idx o) (dispatch m sender))

include hdispatch

theorem consumeStashedMsgs (n : ℕ) : Keeps (Since env idx o) (consumeStashedMsgs dispatch n) := by
  induction n with
  | zero => exact Keeps.ret _
  | succ n ih =>
    apply Keeps.get_seq
    intro s
    split
    · exact Keeps.raise _
    · exact Keeps.seq (write fun _ => ⟨rfl, rfl⟩) fun _ => Keeps.seq (hdispatch _ _) fun _ => ih

theorem markCheckPointStable (seqNo : ℕ) : Keeps (Since env idx o) (markCheckPointStable env dispatch seqNo) := by
  apply Keeps.get_seq
  intro s
  dsimp only
  split
  · exact Keeps.ret _
  · refine Keeps.seq (write fun _ => ⟨rfl, rfl⟩) fun _ => Keeps.seq (gc _) fun _ => ?_
    exact Keeps.get_seq fun s => consumeStashedMsgs hdispatch _

theorem processCheckpoint (ck : Checkpoint) (sender : NodeName) :
    Keeps (Since env idx o) (processCheckpoint env dispatch ck sender) := by
  apply Keeps.get_seq
  intro s
  refine Keeps.cond (Keeps.ret _) ?_
  dsimp only
  split
  · exact write fun _ => ⟨rfl, rfl⟩
  · split
    · exact write fun _ => ⟨rfl, rfl⟩
    · refine Keeps.cond (Keeps.seq (write fun _ => ⟨rfl, rfl⟩) fun _ => Keeps.get_seq fun s => ?_) (Keeps.ret _)
      split
      · exact Keeps.raise _
      · exact Keeps.cond (markCheckPointStable hdispatch _) (Keeps.ret _)

theorem addToCheckpoint (ppSeqNo : ℕ) (digest : String) :
    Keeps (Since env idx o) (addToCheckpoint env dispatch ppSeqNo digest) := by
  apply Keeps.get_seq
  intro s0
  dsimp only
  refine Keeps.cond (Keeps.seq (fun s hs => ?_) fun _ => Keeps.get_seq fun s => ?_) (write fun _ => ⟨rfl, rfl⟩)
  · have hmsg : ∀ d a b, ∀ m ∈ [OutMsg.checkpoint ⟨s.instId, s.node.viewNo, a, b, d⟩], OutMsg.IsOf idx m := by
      intro d a b m hm
      rw [List.mem_singleton.1 hm]
      exact hs.instId
    exact (hs.emit (hmsg _ _ _)).quiet rfl rfl
  · split
    · exact Keeps.ret _
    · exact Keeps.each fun e _ => processCheckpoint hdispatch _ _

/-! ## Ordering and votes -/

theorem doOrder (c : Commit) : Keeps (Since env idx o) (doOrder env dispatch c) := by
  apply Keeps.get_seq
  intro s0
  split
  · exact Keeps.raise _
  · refine Keeps.seq (write fun _ => ⟨rfl, rfl⟩) fun _ => Keeps.seq (unstashCaughtUp _ _) fun _ => ?_
    refine Keeps.seq (write fun _ => ⟨rfl, rfl⟩) fun _ => Keeps.seq (fun s hs => hs.emit fun m hm => ?_) fun _ => ?_
    · rw [List.mem_singleton.1 hm]
      exact hs.instId
    · exact addToCheckpoint hdispatch _ _

theorem tryOrder (c : Commit) : Keeps (Since env idx o) (tryOrder env dispatch c) := by
  refine Keeps.seq (Keeps.get_seq fun s => ?_) fun can => Keeps.cond ?_ (Keeps.ret _)
  · refine Keeps.cond (Keeps.ret _) (Keeps.cond (Keeps.ret _) (Keeps.cond ?_ (Keeps.ret _)))
    exact Keeps.seq (write fun _ => ⟨rfl, rfl⟩) fun _ => Keeps.ret _
  · exact Keeps.seq (doOrder hdispatch c) fun _ => Keeps.ret _

theorem addToCommits (c : Commit) (sender : RepName) :
    Keeps (Since env idx o) (addToCommits env dispatch c sender) := by
  refine Keeps.seq (write fun _ => ⟨rfl, rfl⟩) fun _ => ?_
  exact Keeps.seq (tryOrder hdispatch c) fun _ => Keeps.ret _

theorem doCommit (p : Prepare) : Keeps (Since env idx o) (doCommit env dispatch p) := by
  refine read fun s hinst => ?_
  have hcommit : OutMsg.IsOf idx (.threePhase (.commit ⟨s.instId, p.viewNo, p.ppSeqNo⟩)) := hinst
  exact Keeps.seq (send hcommit) fun _ => addToCommits hdispatch _ _

theorem addToPrepares (p : Prepare) (sender : RepName) :
    Keeps (Since env idx o) (addToPrepares env dispatch p sender) := by
  refine Keeps.seq (write fun _ => ⟨rfl, rfl⟩) fun _ => Keeps.get_seq fun s => ?_
  exact Keeps.cond (doCommit hdispatch p) (Keeps.ret _)

theorem doPrepare (pp : PrePrepare) : Keeps (Since env idx o) (doPrepare env dispatch pp) := by
  refine read fun s hinst => ?_
  have hprepare : OutMsg.IsOf idx (.threePhase (.prepare (pp.prepare s.instId))) := hinst
  exact Keeps.seq (send hprepare) fun _ => addToPrepares hdispatch _ _

theorem tryPrepare (pp : PrePrepare) : Keeps (Since env idx o) (tryPrepare env dispatch pp) := by
  apply Keeps.get_seq
  intro s
  exact Keeps.cond (doPrepare hdispatch pp) (Keeps.ret _)

/-! ## Processing -/

omit hdispatch in
theorem isPrimaryForMsg (viewNo : ℕ) :
    Keeps (Since env idx o) (isPrimaryForMsg viewNo : ReplicaM ω σ τ (Option Bool)) := by
  apply Keeps.get_seq
  intro s
  refine Keeps.cond (Keeps.ret _) ?_
  split
  · exact Keeps.ret _
  · exact Keeps.raise _

omit hdispatch in
theorem validatePrepare (p : Prepare) (sender : RepName) :
    Keeps (Since env idx o) (validatePrepare p sender : ReplicaM ω σ τ Bool) := by
  refine Keeps.seq (isPrimaryForMsg _) fun status => Keeps.get_seq fun s => ?_
  refine Keeps.cond (Keeps.raise _) (Keeps.cond (Keeps.raise _) ?_)
  split
  · exact Keeps.cond (Keeps.raise _) (Keeps.seq (write fun _ => ⟨rfl, rfl⟩) fun _ => Keeps.ret _)
  · exact Keeps.cond (Keeps.raise _) (Keeps.cond (Keeps.raise _) (Keeps.cond (Keeps.raise _) (Keeps.ret _)))

omit hdispatch in
theorem validateCommit (c : Commit) (sender : RepName) :
    Keeps (Since env idx o) (validateCommit c sender : ReplicaM ω σ τ Bool) := by
  apply Keeps.get_seq
  intro s
  split
  · exact Keeps.seq (write fun _ => ⟨rfl, rfl⟩) fun _ => Keeps.ret _
  · exact Keeps.cond (Keeps.ret _) (Keeps.cond (Keeps.raise _) (Keeps.ret _))

theorem processPrepare (p : Prepare) (sender : RepName) :
    Keeps (Since env idx o) (processPrepare env dispatch p sender) := by
  apply Keeps.get_seq
  intro s
  refine Keeps.cond (Keeps.ret _) (reportingSuspicions ?_)
  exact Keeps.seq (validatePrepare p sender) fun valid =>
    Keeps.cond (addToPrepares hdispatch p sender) (Keeps.ret _)

theorem processCommit (c : Commit) (sender : RepName) :
    Keeps (Since env idx o) (processCommit env dispatch c sender) := by
  apply Keeps.get_seq
  intro s
  refine Keeps.cond (Keeps.ret _) ?_
  exact Keeps.seq (validateCommit c sender) fun valid =>
    Keeps.cond (addToCommits hdispatch c sender) (Keeps.ret _)

theorem drainPrepares (key : TPCKey) (n : ℕ) : Keeps (Since env idx o) (drainPrepares env dispatch key n) := by
  induction n with
  | zero => exact Keeps.raise _
  | succ n ih =>
    apply Keeps.get_seq
    intro s
    split
    · exact Keeps.raise _
    · exact Keeps.ret _
    · exact Keeps.seq (write fun _ => ⟨rfl, rfl⟩) fun _ => Keeps.seq (processPrepare hdispatch _ _) fun _ => ih

theorem drainCommits (key : TPCKey) (n : ℕ) : Keeps (Since env idx o) (drainCommits env dispatch key n) := by
  induction n with
  | zero => exact Keeps.raise _
  | succ n ih =>
    apply Keeps.get_seq
    intro s
    split
    · exact Keeps.raise _
    · exact Keeps.ret _
    · exact Keeps.seq (write fun _ => ⟨rfl, rfl⟩) fun _ => Keeps.seq (processCommit hdispatch _ _) fun _ => ih

theorem addToPrePrepares (pp : PrePrepare) : Keeps (Since env idx o) (addToPrePrepares env fuel dispatch pp) := by
  refine Keeps.seq (write fun _ => ⟨rfl, rfl⟩) fun _ => Keeps.seq (write fun _ => ⟨rfl, rfl⟩) fun _ => ?_
  refine Keeps.seq (Keeps.get_seq fun s => ?_) fun _ => Keeps.seq (Keeps.get_seq fun s => ?_) fun _ => ?_
  · exact Keeps.cond (Keeps.seq (drainPrepares hdispatch _ _) fun _ => write fun _ => ⟨rfl, rfl⟩) (Keeps.ret _)
  · exact Keeps.cond (Keeps.seq (drainCommits hdispatch _ _) fun _ => write fun _ => ⟨rfl, rfl⟩) (Keeps.ret _)
  · exact tryPrepare hdispatch pp

omit hdispatch in
theorem rejectPrePrepare (pp : PrePrepare) (sender : RepName) (oldStateRoot : Option σ) (validCount : ℕ)
    (suspicion : Suspicion) :
    Keeps (Since env idx o) (rejectPrePrepare env pp sender oldStateRoot validCount suspicion) := by
  refine Keeps.seq ?_ fun _ => Keeps.raise _
  cases oldStateRoot with
  | none => exact Keeps.ret _
  | some root => exact fun s hs => ⟨hs.instId, hs.steps.tail (.share (.revert pp.ledgerId root validCount))⟩

omit hdispatch in
theorem validatePrePrepare (pp : PrePrepare) (sender : RepName) :
    Keeps (Since env idx o) (validatePrePrepare env pp sender) := by
  refine Keeps.get_seq fun s => Keeps.seq (processReqs _ _) fun acc => ?_
  refine Keeps.cond (rejectPrePrepare _ _ _ _ _) (Keeps.cond (rejectPrePrepare _ _ _ _ _) ?_)
  refine Keeps.get_seq fun s => Keeps.cond ?_ (Keeps.ret _)
  refine Keeps.cond (rejectPrePrepare _ _ _ _ _) (Keeps.cond (rejectPrePrepare _ _ _ _ _) ?_)
  exact emitting (isOf_rejects _)

omit hdispatch in
theorem canProcessPrePrepare (pp : PrePrepare) (sender : RepName) :
    Keeps (Since env idx o) (canProcessPrePrepare env pp sender) := by
  have henqueue : ∀ nonFinReqs,
      Keeps (Since env idx o) (enqueuePrePrepare pp sender nonFinReqs : ReplicaM ω σ τ Unit) :=
    fun nonFinReqs => write fun s => by split_ifs <;> exact ⟨rfl, rfl⟩
  refine Keeps.get_seq fun s => Keeps.cond (Keeps.raise _) ?_
  refine Keeps.seq (isPrimaryForMsg _) fun status => ?_
  refine Keeps.cond (Keeps.raise _) (Keeps.cond (Keeps.raise _) (Keeps.cond (Keeps.ret _) ?_))
  refine Keeps.cond (Keeps.seq (henqueue _) fun _ => Keeps.ret _) ?_
  refine Keeps.cond (Keeps.seq (henqueue _) fun _ => Keeps.ret _) ?_
  exact Keeps.seq (validatePrePrepare pp sender) fun _ => Keeps.ret _

theorem processPrePrepare (pp : PrePrepare) (sender : RepName) :
    Keeps (Since env idx o) (processPrePrepare env fuel dispatch pp sender) := by
  refine Keeps.get_seq fun s => Keeps.seq (canProcessPrePrepare pp sender) fun can => Keeps.cond ?_ (Keeps.ret _)
  refine Keeps.seq (addToPrePrepares hdispatch pp) fun _ => Keeps.get_seq fun s => ?_
  exact Keeps.cond (write fun _ => ⟨rfl, rfl⟩) (write fun _ => ⟨rfl, rfl⟩)

omit hdispatch in
theorem canPpSeqNoBeInView (viewNo ppSeqNo : ℕ) :
    Keeps (Since env idx o) (canPpSeqNoBeInView viewNo ppSeqNo : ReplicaM ω σ τ Bool) :=
  fun s hs => by rw [canPpSeqNoBeInView_state]; exact hs

theorem dispatchOnce (m : ThreePhaseMsg) (sender : NodeName) :
    Keeps (Since env idx o) (dispatchOnce env fuel dispatch m sender) := by
  apply Keeps.get_seq
  intro s
  refine Keeps.cond (Keeps.ret _) (Keeps.cond (reportingSuspicions ?_) (write fun _ => ⟨rfl, rfl⟩))
  refine Keeps.seq (canPpSeqNoBeInView _ _) fun inView => Keeps.cond ?_ (Keeps.ret _)
  cases m with
  | prePrepare pp => exact processPrePrepare hdispatch pp _
  | prepare p => exact processPrepare hdispatch p _
  | commit c => exact processCommit hdispatch c _

end Dispatch

theorem dispatchThreePhaseMsg (depth : ℕ) (m : ThreePhaseMsg) (sender : NodeName) :
    Keeps (Since env idx o) (dispatchThreePhaseMsg env fuel depth m sender) := by
  induction depth generalizing m sender with
  | zero => exact Keeps.raise _
  | succ depth ih => exact dispatchOnce (fun m sender => ih m sender) m sender

/-! ## Servicing the queues -/

theorem inBoxRouter (m : InMsg) : Keeps (Since env idx o) (inBoxRouter env fuel m) := by
  cases m with
  | reqKey key => exact readyFor3PC key
  | threePhase m sender =>
    apply Keeps.get_seq
    intro s
    exact Keeps.cond (write fun _ => ⟨rfl, rfl⟩) (dispatchThreePhaseMsg _ _ _)
  | checkpoint ck sender => exact processCheckpoint (dispatchThreePhaseMsg _) _ _

theorem handleInBox (n : ℕ) : Keeps (Since env idx o) (handleInBox env fuel n) := by
  induction n with
  | zero => exact Keeps.ret _
  | succ n ih =>
    apply Keeps.get_seq
    intro s
    split
    · exact Keeps.ret _
    · refine Keeps.seq (write fun _ => ⟨rfl, rfl⟩) fun _ => Keeps.seq (inBoxRouter _) fun _ => ?_
      exact Keeps.seq ih fun _ => Keeps.ret _

theorem drainPrePrepares (n : ℕ) : Keeps (Since env idx o) (drainPrePrepares env fuel n) := by
  induction n with
  | zero => exact Keeps.raise _
  | succ n ih =>
    apply Keeps.get_seq
    intro s
    split
    · exact Keeps.ret _
    · refine Keeps.cond (Keeps.seq (write fun _ => ⟨rfl, rfl⟩) fun _ => ?_) (Keeps.ret _)
      refine Keeps.seq (canPpSeqNoBeInView _ _) fun inView => Keeps.cond ?_ ih
      exact Keeps.seq (processPrePrepare (dispatchThreePhaseMsg fuel) _ _) fun _ => Keeps.seq ih fun _ => Keeps.ret _

theorem orderStashedInView (v size : ℕ) (ps : List ℕ) (lastOrdered : TPCKey) :
    Keeps (Since env idx o) (orderStashedInView env fuel v size ps lastOrdered) := by
  induction ps generalizing lastOrdered with
  | nil => exact Keeps.ret _
  | cons p ps ih =>
    refine Keeps.seq (Keeps.get_seq fun s => ?_) fun r => Keeps.get_seq fun s => ?_
    · split
      · exact Keeps.raise _
      · refine Keeps.cond (Keeps.ret _) (Keeps.cond ?_ (Keeps.ret _))
        exact Keeps.seq (tryOrder (dispatchThreePhaseMsg fuel) _) fun _ => Keeps.ret _
    · exact Keeps.cond (Keeps.raise _) (Keeps.seq (ih _) fun _ => Keeps.ret _)

theorem orderStashedInViews (size : ℕ) (vs : List ℕ) (lastOrdered : TPCKey) :
    Keeps (Since env idx o) (orderStashedInViews env fuel size vs lastOrdered) := by
  induction vs generalizing lastOrdered with
  | nil => exact Keeps.ret _
  | cons v vs ih =>
    apply Keeps.get_seq
    intro s
    refine Keeps.cond (Keeps.raise _) (Keeps.seq (orderStashedInView _ _ _ _) fun r => Keeps.get_seq fun s => ?_)
    refine Keeps.seq (write fun _ => ⟨rfl, rfl⟩) fun _ => Keeps.cond (Keeps.raise _) ?_
    exact Keeps.seq (ih _) fun _ => Keeps.ret _

theorem processStashedOutOfOrderCommits : Keeps (Since env idx o) (processStashedOutOfOrderCommits env fuel) := by
  apply Keeps.get_seq
  intro s
  split
  · exact Keeps.ret _
  · refine Keeps.seq (orderStashedInViews _ _ _) fun vToRemove => Keeps.seq (write fun _ => ⟨rfl, rfl⟩) fun _ => ?_
    refine Keeps.get_seq fun s => Keeps.cond ?_ (Keeps.ret _)
    split
    · exact Keeps.raise _
    · exact write fun _ => ⟨rfl, rfl⟩

theorem runActions (n : ℕ) : Keeps (Since env idx o) (runActions env fuel n) := by
  induction n with
  | zero => exact Keeps.ret _
  | succ n ih =>
    apply Keeps.get_seq
    intro s
    split
    · exact Keeps.ret _
    · refine Keeps.seq (write fun _ => ⟨rfl, rfl⟩) fun _ => Keeps.seq (Keeps.get_seq fun s => ?_) fun _ => ih
      refine Keeps.cond ?_ (Keeps.ret _)
      exact Keeps.seq processStashedOutOfOrderCommits fun _ => write fun _ => ⟨rfl, rfl⟩

/-- **Servicing its queues, a replica makes these steps only.** -/
theorem serviceQueues (limit : Option ℕ) : Keeps (Since env idx o) (serviceQueues env fuel limit) := by
  apply Keeps.get_seq
  intro s
  refine Keeps.seq ?_ fun r => Keeps.seq ?_ fun r1 => Keeps.get_seq fun s => Keeps.seq ?_ fun r2 => ?_
  · refine Keeps.cond (Keeps.seq (write fun _ => ⟨rfl, rfl⟩) fun _ => drainPrePrepares _) (Keeps.ret _)
  · exact Keeps.get_seq fun s => handleInBox _
  · exact Keeps.cond send3PCBatch (Keeps.ret _)
  · refine Keeps.seq (Keeps.seq (write fun _ => ⟨rfl, rfl⟩) fun _ => Keeps.get_seq fun s => ?_) fun _ => Keeps.ret _
    exact Keeps.seq (runActions _) fun _ => Keeps.ret _

end Since

end Replica

/-- a replica that has its instance, and messages of it in its outbox -/
structure RunningReplica.IsOf (idx : ℕ) (r : RunningReplica ω σ τ) : Prop where
  instId : r.replica.instId = idx
  emitted : ∀ m ∈ r.emitted, OutMsg.IsOf idx m

namespace RunningReplica

/-- servicing a replica that has got the shared state of its node -/
theorem outward_steps (env : Env ω σ τ) (r : RunningReplica ω σ τ) (node : Node ω σ τ) (fuel : ℕ) (limit : Option ℕ)
    (perfCounter time : ℕ) : Replica.Since env r.replica.instId ⟨node.shared, r.replica.outBox⟩
      (((r.input env (.nodeChanged node.requests node.dbs node.suspicions)).input env
        (.serviceQueues fuel limit perfCounter time)).replica) :=
  Replica.Since.serviceQueues limit _ ⟨rfl, ReflTransGen.refl⟩

/-- the shared state after servicing a replica -/
theorem shared_steps (env : Env ω σ τ) (r : RunningReplica ω σ τ) (node : Node ω σ τ) (fuel : ℕ) (limit : Option ℕ)
    (perfCounter time : ℕ) : ReflTransGen (SharedStep env) node.shared
      (((r.input env (.nodeChanged node.requests node.dbs node.suspicions)).input env
        (.serviceQueues fuel limit perfCounter time)).replica.node.shared) :=
  shared_of_outward (r.outward_steps env node fuel limit perfCounter time).steps

/-- the replica after a method that it ran -/
theorem IsOf.ran {env : Env ω σ τ} {idx : ℕ} {r : RunningReplica ω σ τ} {s : Replica ω σ τ} (h : r.IsOf idx)
    (hs : s.Since env idx r.replica.outward) : ({ r with replica := s } : RunningReplica ω σ τ).IsOf idx ∧
      r.emitted ⊆ ({ r with replica := s } : RunningReplica ω σ τ).emitted := by
  have hout : ∀ m ∈ r.replica.outBox, OutMsg.IsOf idx m := fun m hm => h.emitted m (List.mem_append_right _ hm)
  refine ⟨⟨hs.instId, fun m hm => ?_⟩, fun m hm => ?_⟩
  · rcases List.mem_append.1 hm with hm | hm
    · exact h.emitted m (List.mem_append_left _ hm)
    · exact outBox_of_outward hs.steps hout m hm
  · rcases List.mem_append.1 hm with hm | hm
    · exact List.mem_append_left _ hm
    · exact List.mem_append_right _ ((outBox_prefix_of_outward hs.steps).subset hm)

/-- **Every input keeps the instance of a replica and of its messages, and what it has emitted.** -/
theorem IsOf.input (env : Env ω σ τ) {idx : ℕ} {r : RunningReplica ω σ τ} (h : r.IsOf idx) (x : ReplicaInput ω σ τ) :
    (r.input env x).IsOf idx ∧ r.emitted ⊆ (r.input env x).emitted := by
  cases x with
  | receive m => exact ⟨⟨h.instId, h.emitted⟩, List.Subset.refl _⟩
  | serviceQueues fuel limit perfCounter time =>
    exact h.ran (Replica.Since.serviceQueues limit _ ⟨h.instId, ReflTransGen.refl⟩)
  | processStashedOutOfOrderCommits fuel =>
    exact h.ran (Replica.Since.processStashedOutOfOrderCommits _ ⟨h.instId, ReflTransGen.refl⟩)
  | nodeChanged requests dbs suspicions => exact ⟨⟨h.instId, h.emitted⟩, List.Subset.refl _⟩
  | takeFromOutBox =>
    unfold RunningReplica.input
    cases hout : r.replica.outBox with
    | nil => exact ⟨h, List.Subset.refl _⟩
    | cons m rest =>
      have he : ({ replica := { r.replica with outBox := rest }, taken := r.taken ++ [m] } :
          RunningReplica ω σ τ).emitted = r.emitted := by
        unfold RunningReplica.emitted
        rw [hout, List.append_assoc]
        rfl
      exact ⟨⟨h.instId, fun m' hm' => h.emitted m' (he ▸ hm')⟩, he.symm ▸ List.Subset.refl _⟩

end RunningReplica

end Plenum
