/-
Which methods of a replica touch the PRE-PREPAREs that wait.

- `Replica.waiting`: the two queues of waiting PRE-PREPAREs, and what decides whether one can belong to the view.
- `WaitingFramed I P`: the invariant `I` depends on nothing else, and survives that a PRE-PREPARE joins a queue or leaves
  it, if `P` says of it that it can belong to the view.
- `WaitingFramed.serviceQueues`, …: so every method keeps `I`. A PRE-PREPARE joins a queue only after
  `canPpSeqNoBeInView` has let it through.
-/
import Mathlib.Tactic
import Plenum.Server.Replica

namespace Plenum

open Plenum.Core Plenum.Core.Exec

namespace Core

/-- a handler keeps the invariant from wherever the exception left the state -/
theorem Keeps.catching {ε σ α : Type} {I : σ → Prop} {m : Exec ε σ α} {h : ε → Exec ε σ α} (hm : Keeps I m)
    (hh : ∀ e, Keeps I (h e)) : Keeps I (tryCatch m h) := by
  intro s hs
  have hm' := hm s hs
  rw [exec_tryCatch]
  rcases he : exec m s with ⟨e | a, s'⟩ <;> rw [he] at hm'
  · exact hh e s' hm'
  · exact hm'

end Core

namespace Replica

variable {ω σ τ : Type} {env : Env ω σ τ} {fuel : ℕ} {dispatch : ThreePhaseMsg → NodeName → ReplicaM ω σ τ Unit}
  {I : Replica ω σ τ → Prop} {P : PrePrepare → Prop}

/-- the PRE-PREPAREs that wait, and what decides on their views -/
def waiting (s : Replica ω σ τ) :=
  (s.prePreparesPendingFinReqs, s.prePreparesPendingPrevPP, s.node.viewNo, s.viewEndsAt)

structure WaitingFramed (I : Replica ω σ τ → Prop) (P : PrePrepare → Prop) : Prop where
  quiet : ∀ s s' : Replica ω σ τ, s'.waiting = s.waiting → I s → I s'
  inView : ∀ (s : Replica ω σ τ) pp, I s → (exec (canPpSeqNoBeInView pp.viewNo pp.ppSeqNo) s).1 = .ok true → P pp
  enqueue : ∀ (s : Replica ω σ τ) pp sender nonFinReqs, P pp → I s → I (exec (enqueuePrePrepare pp sender nonFinReqs) s).2
  ready : ∀ s : Replica ω σ τ, I s → I s.movePrePreparesReady
  leave : ∀ (s : Replica ω σ τ) key, I s → I { s with prePreparesPendingPrevPP := s.prePreparesPendingPrevPP.erase key }

/-- the question whether a batch can belong to the view changes nothing -/
theorem canPpSeqNoBeInView_state (viewNo ppSeqNo : ℕ) (s : Replica ω σ τ) :
    (exec (canPpSeqNoBeInView viewNo ppSeqNo) s).2 = s := by
  unfold canPpSeqNoBeInView
  rw [exec_bind, exec_get]
  dsimp only
  split_ifs <;> rfl

namespace WaitingFramed

variable (hI : WaitingFramed I P)

include hI

theorem write {g : Replica ω σ τ → Replica ω σ τ} (h : ∀ s, (g s).waiting = s.waiting) :
    Keeps I (modify g : ReplicaM ω σ τ PUnit) := Keeps.write fun s hs => hI.quiet s (g s) (h s) hs

theorem send (m : OutMsg) : Keeps I (send m : ReplicaM ω σ τ Unit) := hI.write fun _ => rfl

theorem reportingSuspicions {m : ReplicaM ω σ τ Unit} (hm : Keeps I m) : Keeps I (reportingSuspicions m) := by
  refine hm.catching fun e => ?_
  cases e with
  | suspiciousNode node suspicion msg => exact hI.write fun _ => rfl
  | _ => exact Keeps.raise _

/-! ## Batches -/

omit hI in
theorem finalisedReq (key : ReqKey) : Keeps I (finalisedReq key : ReplicaM ω σ τ (Request ω)) := by
  apply Keeps.get_seq
  intro s
  split
  · exact Keeps.raise _
  · split
    · exact Keeps.raise _
    · exact Keeps.ret _

theorem processReqDuringBatch (req : Request ω) (acc : ReqLists ω) : Keeps I (processReqDuringBatch env req acc) := by
  apply Keeps.get_seq
  intro s
  refine Keeps.cond ?_ (Keeps.ret _)
  split
  · exact Keeps.ret _
  · exact Keeps.seq (hI.write fun _ => rfl) fun _ => Keeps.ret _

theorem processReqs (keys : List ReqKey) (acc : ReqLists ω) : Keeps I (processReqs env keys acc) := by
  induction keys generalizing acc with
  | nil => exact Keeps.ret _
  | cons key keys ih =>
    exact Keeps.seq (WaitingFramed.finalisedReq key) fun req => Keeps.seq (hI.processReqDuringBatch req acc) ih

theorem fillBatch (lid : LedgerId) (n : ℕ) (acc : ReqLists ω) : Keeps I (fillBatch env lid n acc) := by
  induction n generalizing acc with
  | zero => exact Keeps.ret _
  | succ n ih =>
    apply Keeps.get_seq
    intro s
    split
    · exact Keeps.ret _
    · refine Keeps.seq (hI.write fun _ => rfl) fun _ => ?_
      exact Keeps.seq (WaitingFramed.finalisedReq _) fun req => Keeps.seq (hI.processReqDuringBatch req acc) ih

theorem send3PCBatchFor (lid : LedgerId) : Keeps I (send3PCBatchFor env lid) := by
  apply Keeps.get_seq
  intro s
  refine Keeps.cond (Keeps.seq (Keeps.get_seq fun s => ?_) fun pp => ?_) (Keeps.ret _)
  · refine Keeps.seq (hI.fillBatch _ _ _) fun acc => Keeps.get_seq fun s => ?_
    refine Keeps.seq (hI.write fun _ => rfl) fun _ => ?_
    exact Keeps.seq (hI.write fun _ => rfl) fun _ => Keeps.ret _
  · refine Keeps.seq (Keeps.seq (hI.write fun _ => rfl) fun _ => hI.send _) fun _ => ?_
    exact Keeps.seq (hI.write fun _ => rfl) fun _ => Keeps.ret _

theorem send3PCBatch : Keeps I (send3PCBatch env) := by
  refine Keeps.seq (hI.send3PCBatchFor _) fun r => Keeps.seq (hI.send3PCBatchFor _) fun r' => ?_
  exact Keeps.cond (Keeps.seq (hI.write fun _ => rfl) fun _ => Keeps.ret _) (Keeps.ret _)

theorem readyFor3PC (key : ReqKey) : Keeps I (readyFor3PC env key) :=
  Keeps.seq (WaitingFramed.finalisedReq key) fun _ => hI.write fun _ => rfl

/-! ## Checkpoints -/

section Dispatch

variable (hdispatch : ∀ m sender, Keeps I (dispatch m sender))

theorem releaseReqs (keys : List ReqKey) : Keeps I (releaseReqs keys : ReplicaM ω σ τ Unit) := by
  induction keys with
  | nil => exact Keeps.ret _
  | cons key keys ih =>
    apply Keeps.get_seq
    intro s
    split
    · exact Keeps.raise _
    · exact Keeps.seq (hI.write fun _ => rfl) fun _ => ih

theorem gc (tillSeqNo : ℕ) : Keeps I (gc tillSeqNo : ReplicaM ω σ τ Unit) := by
  apply Keeps.get_seq
  intro s
  exact Keeps.seq (hI.write fun _ => rfl) fun _ => hI.releaseReqs _

theorem applyReqs (keys : List ReqKey) : Keeps I (applyReqs env keys) := by
  induction keys with
  | nil => exact Keeps.ret _
  | cons key keys ih =>
    refine Keeps.seq (WaitingFramed.finalisedReq key) fun req => ?_
    exact Keeps.seq (hI.write fun _ => rfl) fun _ => ih

theorem unstashCaughtUp (key : TPCKey) (pp : PrePrepare) : Keeps I (unstashCaughtUp env key pp) := by
  apply Keeps.get_seq
  intro s
  refine Keeps.cond ?_ (Keeps.ret _)
  exact Keeps.cond (Keeps.seq (hI.applyReqs _) fun _ => hI.write fun _ => rfl) (hI.write fun _ => rfl)

include hdispatch

theorem consumeStashedMsgs (n : ℕ) : Keeps I (consumeStashedMsgs dispatch n) := by
  induction n with
  | zero => exact Keeps.ret _
  | succ n ih =>
    apply Keeps.get_seq
    intro s
    split
    · exact Keeps.raise _
    · refine Keeps.seq (hI.write fun _ => rfl) fun _ => ?_
      exact Keeps.seq (hdispatch _ _) fun _ => ih

theorem markCheckPointStable (seqNo : ℕ) : Keeps I (markCheckPointStable env dispatch seqNo) := by
  apply Keeps.get_seq
  intro s
  dsimp only
  split
  · exact Keeps.ret _
  · refine Keeps.seq (hI.write fun _ => rfl) fun _ => Keeps.seq (hI.gc _) fun _ => ?_
    exact Keeps.get_seq fun s => hI.consumeStashedMsgs hdispatch _

theorem checkIfCheckpointStable (key : CkKey) : Keeps I (checkIfCheckpointStable env dispatch key) := by
  apply Keeps.get_seq
  intro s
  split
  · exact Keeps.raise _
  · exact Keeps.cond (hI.markCheckPointStable hdispatch _) (Keeps.ret _)

theorem processCheckpoint (ck : Checkpoint) (sender : NodeName) :
    Keeps I (processCheckpoint env dispatch ck sender) := by
  apply Keeps.get_seq
  intro s
  refine Keeps.cond (Keeps.ret _) ?_
  dsimp only
  split
  · exact hI.write fun _ => rfl
  · split
    · exact hI.write fun _ => rfl
    · refine Keeps.cond ?_ (Keeps.ret _)
      exact Keeps.seq (hI.write fun _ => rfl) fun _ => hI.checkIfCheckpointStable hdispatch _

theorem processStashedCheckpoints (key : CkKey) : Keeps I (processStashedCheckpoints env dispatch key) := by
  apply Keeps.get_seq
  intro s
  split
  · exact Keeps.ret _
  · exact Keeps.each fun e _ => hI.processCheckpoint hdispatch _ _

theorem addToCheckpoint (ppSeqNo : ℕ) (digest : String) : Keeps I (addToCheckpoint env dispatch ppSeqNo digest) := by
  apply Keeps.get_seq
  intro s
  dsimp only
  refine Keeps.cond (Keeps.seq (hI.write fun _ => rfl) fun _ => ?_) (hI.write fun _ => rfl)
  exact hI.processStashedCheckpoints hdispatch _

/-! ## Ordering and votes -/

theorem doOrder (c : Commit) : Keeps I (doOrder env dispatch c) := by
  apply Keeps.get_seq
  intro s
  split
  · exact Keeps.raise _
  · refine Keeps.seq (hI.write fun _ => rfl) fun _ => Keeps.seq (hI.unstashCaughtUp _ _) fun _ => ?_
    refine Keeps.seq (hI.write fun _ => rfl) fun _ => Keeps.seq (hI.write fun _ => rfl) fun _ => ?_
    exact hI.addToCheckpoint hdispatch _ _

omit hdispatch in
theorem canOrder (c : Commit) : Keeps I (canOrder env c) := by
  apply Keeps.get_seq
  intro s
  refine Keeps.cond (Keeps.ret _) (Keeps.cond (Keeps.ret _) (Keeps.cond ?_ (Keeps.ret _)))
  exact Keeps.seq (hI.write fun _ => rfl) fun _ => Keeps.ret _

theorem tryOrder (c : Commit) : Keeps I (tryOrder env dispatch c) := by
  refine Keeps.seq (hI.canOrder c) fun can => Keeps.cond ?_ (Keeps.ret _)
  exact Keeps.seq (hI.doOrder hdispatch c) fun _ => Keeps.ret _

theorem addToCommits (c : Commit) (sender : RepName) : Keeps I (addToCommits env dispatch c sender) := by
  refine Keeps.seq (hI.write fun _ => rfl) fun _ => ?_
  exact Keeps.seq (hI.tryOrder hdispatch c) fun _ => Keeps.ret _

theorem tryCommit (p : Prepare) : Keeps I (tryCommit env dispatch p) := by
  apply Keeps.get_seq
  intro s
  refine Keeps.cond (Keeps.get_seq fun s => ?_) (Keeps.ret _)
  exact Keeps.seq (hI.send _) fun _ => hI.addToCommits hdispatch _ _

theorem addToPrepares (p : Prepare) (sender : RepName) : Keeps I (addToPrepares env dispatch p sender) :=
  Keeps.seq (hI.write fun _ => rfl) fun _ => hI.tryCommit hdispatch p

theorem tryPrepare (pp : PrePrepare) : Keeps I (tryPrepare env dispatch pp) := by
  apply Keeps.get_seq
  intro s
  refine Keeps.cond (Keeps.get_seq fun s => ?_) (Keeps.ret _)
  exact Keeps.seq (hI.send _) fun _ => hI.addToPrepares hdispatch _ _

/-! ## Processing -/

omit hI hdispatch in
theorem isPrimaryForMsg (viewNo : ℕ) : Keeps I (isPrimaryForMsg viewNo : ReplicaM ω σ τ (Option Bool)) := by
  apply Keeps.get_seq
  intro s
  refine Keeps.cond (Keeps.ret _) ?_
  split
  · exact Keeps.ret _
  · exact Keeps.raise _

omit hdispatch in
theorem validatePrepare (p : Prepare) (sender : RepName) :
    Keeps I (validatePrepare p sender : ReplicaM ω σ τ Bool) := by
  refine Keeps.seq (WaitingFramed.isPrimaryForMsg _) fun status => Keeps.get_seq fun s => ?_
  refine Keeps.cond (Keeps.raise _) (Keeps.cond (Keeps.raise _) ?_)
  split
  · exact Keeps.cond (Keeps.raise _) (Keeps.seq (hI.write fun _ => rfl) fun _ => Keeps.ret _)
  · exact Keeps.cond (Keeps.raise _) (Keeps.cond (Keeps.raise _) (Keeps.cond (Keeps.raise _) (Keeps.ret _)))

omit hdispatch in
theorem validateCommit (c : Commit) (sender : RepName) :
    Keeps I (validateCommit c sender : ReplicaM ω σ τ Bool) := by
  apply Keeps.get_seq
  intro s
  split
  · exact Keeps.seq (hI.write fun _ => rfl) fun _ => Keeps.ret _
  · exact Keeps.cond (Keeps.ret _) (Keeps.cond (Keeps.raise _) (Keeps.ret _))

theorem processPrepare (p : Prepare) (sender : RepName) : Keeps I (processPrepare env dispatch p sender) := by
  apply Keeps.get_seq
  intro s
  refine Keeps.cond (Keeps.ret _) (hI.reportingSuspicions ?_)
  exact Keeps.seq (hI.validatePrepare p sender) fun valid =>
    Keeps.cond (hI.addToPrepares hdispatch p sender) (Keeps.ret _)

theorem processCommit (c : Commit) (sender : RepName) : Keeps I (processCommit env dispatch c sender) := by
  apply Keeps.get_seq
  intro s
  refine Keeps.cond (Keeps.ret _) ?_
  exact Keeps.seq (hI.validateCommit c sender) fun valid =>
    Keeps.cond (hI.addToCommits hdispatch c sender) (Keeps.ret _)

theorem drainPrepares (key : TPCKey) (n : ℕ) : Keeps I (drainPrepares env dispatch key n) := by
  induction n with
  | zero => exact Keeps.raise _
  | succ n ih =>
    apply Keeps.get_seq
    intro s
    split
    · exact Keeps.raise _
    · exact Keeps.ret _
    · refine Keeps.seq (hI.write fun _ => rfl) fun _ => ?_
      exact Keeps.seq (hI.processPrepare hdispatch _ _) fun _ => ih

theorem drainCommits (key : TPCKey) (n : ℕ) : Keeps I (drainCommits env dispatch key n) := by
  induction n with
  | zero => exact Keeps.raise _
  | succ n ih =>
    apply Keeps.get_seq
    intro s
    split
    · exact Keeps.raise _
    · exact Keeps.ret _
    · refine Keeps.seq (hI.write fun _ => rfl) fun _ => ?_
      exact Keeps.seq (hI.processCommit hdispatch _ _) fun _ => ih

theorem addToPrePrepares (pp : PrePrepare) : Keeps I (addToPrePrepares env fuel dispatch pp) := by
  refine Keeps.seq (hI.write fun _ => rfl) fun _ => Keeps.seq (hI.write fun _ => rfl) fun _ => ?_
  refine Keeps.seq (Keeps.get_seq fun s => ?_) fun _ => Keeps.seq (Keeps.get_seq fun s => ?_) fun _ => ?_
  · exact Keeps.cond (Keeps.seq (hI.drainPrepares hdispatch _ _) fun _ => hI.write fun _ => rfl) (Keeps.ret _)
  · exact Keeps.cond (Keeps.seq (hI.drainCommits hdispatch _ _) fun _ => hI.write fun _ => rfl) (Keeps.ret _)
  · exact hI.tryPrepare hdispatch pp

omit hdispatch in
theorem rejectPrePrepare (pp : PrePrepare) (sender : RepName) (oldStateRoot : Option σ) (validCount : ℕ)
    (suspicion : Suspicion) : Keeps I (rejectPrePrepare env pp sender oldStateRoot validCount suspicion) := by
  refine Keeps.seq ?_ fun _ => Keeps.raise _
  cases oldStateRoot with
  | none => exact Keeps.ret _
  | some root => exact hI.write fun _ => rfl

omit hdispatch in
theorem validatePrePrepare (pp : PrePrepare) (sender : RepName) : Keeps I (validatePrePrepare env pp sender) := by
  refine Keeps.get_seq fun s => Keeps.seq (hI.processReqs _ _) fun acc => ?_
  refine Keeps.cond (hI.rejectPrePrepare _ _ _ _ _) (Keeps.cond (hI.rejectPrePrepare _ _ _ _ _) ?_)
  refine Keeps.get_seq fun s => Keeps.cond ?_ (Keeps.ret _)
  refine Keeps.cond (hI.rejectPrePrepare _ _ _ _ _) (Keeps.cond (hI.rejectPrePrepare _ _ _ _ _) ?_)
  exact hI.write fun _ => rfl

section InView

variable {pp : PrePrepare} (hpp : P pp)

include hpp

omit hdispatch in
theorem canProcessPrePrepare (sender : RepName) : Keeps I (canProcessPrePrepare env pp sender) := by
  have henqueue : ∀ nonFinReqs, Keeps I (enqueuePrePrepare pp sender nonFinReqs : ReplicaM ω σ τ Unit) :=
    fun nonFinReqs s hs => hI.enqueue s pp sender nonFinReqs hpp hs
  refine Keeps.get_seq fun s => Keeps.cond (Keeps.raise _) ?_
  refine Keeps.seq (WaitingFramed.isPrimaryForMsg _) fun status => ?_
  refine Keeps.cond (Keeps.raise _) (Keeps.cond (Keeps.raise _) (Keeps.cond (Keeps.ret _) ?_))
  refine Keeps.cond (Keeps.seq (henqueue _) fun _ => Keeps.ret _) ?_
  refine Keeps.cond (Keeps.seq (henqueue _) fun _ => Keeps.ret _) ?_
  exact Keeps.seq (hI.validatePrePrepare pp sender) fun _ => Keeps.ret _

theorem processPrePrepare (sender : RepName) : Keeps I (processPrePrepare env fuel dispatch pp sender) := by
  refine Keeps.get_seq fun s => Keeps.seq (hI.canProcessPrePrepare hpp sender) fun can => Keeps.cond ?_ (Keeps.ret _)
  refine Keeps.seq (hI.addToPrePrepares hdispatch pp) fun _ => Keeps.get_seq fun s => ?_
  exact Keeps.cond (hI.write fun _ => rfl) (hI.write fun _ => rfl)

end InView

/-- what is dispatched to a method has been let through -/
theorem dispatchOnce (m : ThreePhaseMsg) (sender : NodeName) : Keeps I (dispatchOnce env fuel dispatch m sender) := by
  apply Keeps.get_seq
  intro s
  refine Keeps.cond (Keeps.ret _) (Keeps.cond (hI.reportingSuspicions ?_) (hI.write fun _ => rfl))
  intro s hs
  have hstate := canPpSeqNoBeInView_state m.viewNo m.ppSeqNo s
  have hview := fun pp => hI.inView s pp hs
  rw [exec_bind]
  rcases he : exec (canPpSeqNoBeInView m.viewNo m.ppSeqNo) s with ⟨e | inView, s'⟩
  · rw [he] at hstate
    subst hstate
    exact hs
  · rw [he] at hstate
    subst hstate
    dsimp only
    cases inView with
    | false => exact hs
    | true =>
      rw [if_pos rfl]
      cases m with
      | prePrepare pp =>
        have hpp : P pp := hview pp (congrArg Prod.fst he)
        exact hI.processPrePrepare hdispatch hpp _ s' hs
      | prepare p => exact hI.processPrepare hdispatch p _ s' hs
      | commit c => exact hI.processCommit hdispatch c _ s' hs

end Dispatch

theorem dispatchThreePhaseMsg (depth : ℕ) (m : ThreePhaseMsg) (sender : NodeName) :
    Keeps I (dispatchThreePhaseMsg env fuel depth m sender) := by
  induction depth generalizing m sender with
  | zero => exact Keeps.raise _
  | succ depth ih => exact hI.dispatchOnce (fun m sender => ih m sender) m sender

/-! ## Servicing the queues -/

theorem inBoxRouter (m : InMsg) : Keeps I (inBoxRouter env fuel m) := by
  cases m with
  | reqKey key => exact hI.readyFor3PC key
  | threePhase m sender =>
    apply Keeps.get_seq
    intro s
    exact Keeps.cond (hI.write fun _ => rfl) (hI.dispatchThreePhaseMsg _ _ _)
  | checkpoint ck sender => exact hI.processCheckpoint (hI.dispatchThreePhaseMsg _) _ _

theorem handleInBox (n : ℕ) : Keeps I (handleInBox env fuel n) := by
  induction n with
  | zero => exact Keeps.ret _
  | succ n ih =>
    apply Keeps.get_seq
    intro s
    split
    · exact Keeps.ret _
    · refine Keeps.seq (hI.write fun _ => rfl) fun _ => Keeps.seq (hI.inBoxRouter _) fun _ => ?_
      exact Keeps.seq ih fun _ => Keeps.ret _

theorem drainPrePrepares (n : ℕ) : Keeps I (drainPrePrepares env fuel n) := by
  induction n with
  | zero => exact Keeps.raise _
  | succ n ih =>
    apply Keeps.get_seq
    intro s
    split
    · exact Keeps.ret _
    · rename_i key pp sender _
      refine Keeps.cond (Keeps.seq (Keeps.write fun s hs => hI.leave s _ hs) fun _ => ?_) (Keeps.ret _)
      intro s hs
      have hstate := canPpSeqNoBeInView_state pp.viewNo pp.ppSeqNo s
      have hview := hI.inView s pp hs
      rw [exec_bind]
      rcases he : exec (canPpSeqNoBeInView pp.viewNo pp.ppSeqNo) s with ⟨e | inView, s'⟩
      · rw [he] at hstate
        subst hstate
        exact hs
      · rw [he] at hstate
        subst hstate
        dsimp only
        cases inView with
        | false => exact ih s' hs
        | true =>
          have hpp : P pp := hview (congrArg Prod.fst he)
          have hprocess : Keeps I (Replica.processPrePrepare env fuel (Replica.dispatchThreePhaseMsg env fuel fuel) pp
              sender) := hI.processPrePrepare (hI.dispatchThreePhaseMsg fuel) hpp sender
          exact Keeps.seq hprocess (fun _ => Keeps.seq ih fun _ => Keeps.ret _) s' hs

theorem orderStashedCommit (v p : ℕ) (lastOrdered : TPCKey) : Keeps I (orderStashedCommit env fuel v p lastOrdered) := by
  apply Keeps.get_seq
  intro s
  split
  · exact Keeps.raise _
  · refine Keeps.cond (Keeps.ret _) (Keeps.cond ?_ (Keeps.ret _))
    exact Keeps.seq (hI.tryOrder (hI.dispatchThreePhaseMsg fuel) _) fun _ => Keeps.ret _

theorem orderStashedInView (v size : ℕ) (ps : List ℕ) (lastOrdered : TPCKey) :
    Keeps I (orderStashedInView env fuel v size ps lastOrdered) := by
  induction ps generalizing lastOrdered with
  | nil => exact Keeps.ret _
  | cons p ps ih =>
    refine Keeps.seq (hI.orderStashedCommit _ _ _) fun r => Keeps.get_seq fun s => ?_
    exact Keeps.cond (Keeps.raise _) (Keeps.seq (ih _) fun _ => Keeps.ret _)

theorem orderStashedInViews (size : ℕ) (vs : List ℕ) (lastOrdered : TPCKey) :
    Keeps I (orderStashedInViews env fuel size vs lastOrdered) := by
  induction vs generalizing lastOrdered with
  | nil => exact Keeps.ret _
  | cons v vs ih =>
    apply Keeps.get_seq
    intro s
    refine Keeps.cond (Keeps.raise _) (Keeps.seq (hI.orderStashedInView _ _ _ _) fun r => Keeps.get_seq fun s => ?_)
    refine Keeps.seq (hI.write fun _ => rfl) fun _ => Keeps.cond (Keeps.raise _) ?_
    exact Keeps.seq (ih _) fun _ => Keeps.ret _

theorem processStashedOutOfOrderCommits : Keeps I (processStashedOutOfOrderCommits env fuel) := by
  apply Keeps.get_seq
  intro s
  split
  · exact Keeps.ret _
  · refine Keeps.seq (hI.orderStashedInViews _ _ _) fun vToRemove => Keeps.seq (hI.write fun _ => rfl) fun _ => ?_
    refine Keeps.get_seq fun s => Keeps.cond ?_ (Keeps.ret _)
    split
    · exact Keeps.raise _
    · exact hI.write fun _ => rfl

theorem runActions (n : ℕ) : Keeps I (runActions env fuel n) := by
  induction n with
  | zero => exact Keeps.ret _
  | succ n ih =>
    apply Keeps.get_seq
    intro s
    split
    · exact Keeps.ret _
    · refine Keeps.seq (hI.write fun _ => rfl) fun _ => Keeps.seq (Keeps.get_seq fun s => ?_) fun _ => ih
      refine Keeps.cond ?_ (Keeps.ret _)
      exact Keeps.seq hI.processStashedOutOfOrderCommits fun _ => hI.write fun _ => rfl

/-- **Servicing the queues keeps the invariant.** -/
theorem serviceQueues (limit : Option ℕ) : Keeps I (serviceQueues env fuel limit) := by
  apply Keeps.get_seq
  intro s
  refine Keeps.seq ?_ fun r => Keeps.seq ?_ fun r1 => Keeps.get_seq fun s => Keeps.seq ?_ fun r2 => ?_
  · refine Keeps.cond (Keeps.seq (Keeps.write hI.ready) fun _ => hI.drainPrePrepares _) (Keeps.ret _)
  · exact Keeps.get_seq fun s => hI.handleInBox _
  · exact Keeps.cond hI.send3PCBatch (Keeps.ret _)
  · refine Keeps.seq (Keeps.seq (hI.write fun _ => rfl) fun _ => Keeps.get_seq fun s => ?_) fun _ => Keeps.ret _
    exact Keeps.seq (hI.runActions _) fun _ => Keeps.ret _

end WaitingFramed

end Replica

end Plenum
