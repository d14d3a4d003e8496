/-
What the methods of a ledger manager leave alone.

- `QuietWrite`, `StatusWrite`: writes to the information of a ledger that bring in no consistency proof and no catch-up
  reply; the second kind neither starts a catch-up nor changes its target.
- `Framed own I`: the invariant `I` survives such writes, and whatever happens once all ledgers are caught up.
- `Framed.processLedgerStatus`, `Framed.catchupCompleted`, …: every method that only does such writes keeps `I`.
- `Framed.startCatchUpProcess`: so does starting a catch-up, if `I` does not look at it (`CatchupFramed`).
- `RepliesFramed own I`: `I` looks at neither the ledgers nor the replies held, so that taking a catch-up reply keeps it
  (`RepliesFramed.mergeCatchupRep`).
-/
import Mathlib.Tactic
import Plenum.Common.LedgerManager

namespace Plenum

open Plenum.Core Plenum.Core.Exec

namespace LedgerManager

variable {O τ : Type} {env : LedgerEnv τ} {own : LedgerOwner O τ} {fuel : ℕ} {I : LedgerManager O τ → Prop}

/-! ## Writes -/

/-- a write that brings in no proof and no reply -/
structure QuietWrite (old new : LedgerInfo τ) : Prop where
  proofs : ∀ i p, new.recvdConsistencyProofs.get? i = some (some p) → old.recvdConsistencyProofs.get? i = some (some p)
  replies : new.receivedCatchUpReplies = old.receivedCatchUpReplies
  repliesFrm : new.recvdCatchupRepliesFrm = old.recvdCatchupRepliesFrm ∨ new.recvdCatchupRepliesFrm = Dict.empty

/-- nor starts a catch-up -/
structure StatusWrite (old new : LedgerInfo τ) : Prop extends QuietWrite old new where
  state : new.state = old.state ∨ new.state ≠ .syncing
  catchUpTill : new.catchUpTill = old.catchUpTill

/-- a write that keeps the proofs and the replies -/
theorem StatusWrite.ofSame {old new : LedgerInfo τ} (proofs : new.recvdConsistencyProofs = old.recvdConsistencyProofs)
    (replies : new.receivedCatchUpReplies = old.receivedCatchUpReplies)
    (repliesFrm : new.recvdCatchupRepliesFrm = old.recvdCatchupRepliesFrm)
    (state : new.state = old.state ∨ new.state ≠ .syncing) (catchUpTill : new.catchUpTill = old.catchUpTill) :
    StatusWrite old new := by
  refine ⟨⟨?_, replies, Or.inl repliesFrm⟩, state, catchUpTill⟩
  intro i p hp
  rwa [proofs] at hp

/-- an invariant that does not depend on what the methods below write -/
structure Framed (own : LedgerOwner O τ) (I : LedgerManager O τ → Prop) : Prop where
  quiet : ∀ s s' : LedgerManager O τ, s'.ledgerRegistry = s.ledgerRegistry → s'.verdicts = s.verdicts →
    own.ledgers s'.owner = own.ledgers s.owner → I s → I s'
  info : ∀ (s : LedgerManager O τ) lid info, StatusWrite (s.ledgerInfo lid) info → I s → I (s.setLedgerInfo lid info)
  caughtUp : ∀ (s : LedgerManager O τ) o, (s.ledgerInfo .pool).state = .synced → (s.ledgerInfo .domain).state = .synced →
    I s → I (s.setOwner o)

/-- and not on whether a ledger is being caught up -/
structure CatchupFramed (own : LedgerOwner O τ) (I : LedgerManager O τ → Prop) : Prop extends Framed own I where
  start : ∀ (s : LedgerManager O τ) lid info, QuietWrite (s.ledgerInfo lid) info → I s → I (s.setLedgerInfo lid info)

theorem keeps_buildConsistencyProof (lid : LedgerId) (seqNoStart seqNoEnd : ℕ) :
    Keeps I (buildConsistencyProof env own lid seqNoStart seqNoEnd) := by
  apply Keeps.get_seq
  intro s
  exact Keeps.cond (Keeps.ret _) (Keeps.cond (Keeps.ret _) (Keeps.cond (Keeps.raise _) (Keeps.ret _)))

/-- a method of the owner, seen from the manager -/
theorem keeps_callOwner {m : Exec Exn O Unit} (hm : ∀ s : LedgerManager O τ, I s → I (s.setOwner (exec m s.owner).2)) :
    Keeps I (callOwner m : LedgerManagerM O τ Unit) := by
  apply Keeps.read
  intro s hs
  have howner : I (exec (modify fun s => s.setOwner (exec m s.owner).2 : LedgerManagerM O τ PUnit) s).2 := hm s hs
  refine Keeps.after howner fun _ => ?_
  cases (exec m s.owner).1 with
  | ok a => exact Keeps.ret _
  | error e => exact Keeps.raise e

namespace Framed

variable (hI : Framed own I)

include hI

theorem modifyLedgerInfo (lid : LedgerId) {g : LedgerInfo τ → LedgerInfo τ} (h : ∀ info, StatusWrite info (g info)) :
    Keeps I (modifyLedgerInfo lid g : LedgerManagerM O τ Unit) := by
  apply Keeps.write
  intro s hs
  exact hI.info s lid _ (h _) hs

theorem write {g : LedgerManager O τ → LedgerManager O τ}
    (h : ∀ s, (g s).ledgerRegistry = s.ledgerRegistry ∧ (g s).verdicts = s.verdicts ∧
      own.ledgers (g s).owner = own.ledgers s.owner) : Keeps I (modify g : LedgerManagerM O τ PUnit) := by
  apply Keeps.write
  intro s hs
  obtain ⟨hreg, hver, hledgers⟩ := h s
  exact hI.quiet s (g s) hreg hver hledgers hs

/-! ## Methods -/

theorem sendTo (msg : LedgerMsg) (receiver : Option NodeName) :
    Keeps I (sendTo msg receiver : LedgerManagerM O τ Unit) := hI.write fun _ => ⟨rfl, rfl, rfl⟩

theorem schedule (action : LedgerAction) (ticks : ℕ) : Keeps I (schedule action ticks : LedgerManagerM O τ Unit) :=
  hI.write fun _ => ⟨rfl, rfl, rfl⟩

theorem setLedgerCanSync (lid : LedgerId) (canSync : Bool) :
    Keeps I (setLedgerCanSync lid canSync : LedgerManagerM O τ Unit) :=
  hI.modifyLedgerInfo lid fun _ => .ofSame rfl rfl rfl (Or.inl rfl) rfl

/-- a method of the owner that does not touch the ledgers -/
theorem callOwner {m : Exec Exn O Unit} (hm : ∀ o, own.ledgers (exec m o).2 = own.ledgers o) :
    Keeps I (callOwner m : LedgerManagerM O τ Unit) :=
  keeps_callOwner fun s hs => hI.quiet s _ rfl rfl (hm s.owner) hs

/-- what the node does when all its ledgers are caught up -/
theorem callCaughtUp (m : ℤ → Exec Exn O Unit) :
    Keeps I (do
      let s ← get
      if (s.ledgerInfo .pool).state = .synced ∧ (s.ledgerInfo .domain).state = .synced then
        LedgerManager.callOwner (m s.lastCaughtUpPpSeqNo)
      else pure () : LedgerManagerM O τ Unit) := by
  apply Keeps.read
  intro s hs
  by_cases hsynced : (s.ledgerInfo .pool).state = .synced ∧ (s.ledgerInfo .domain).state = .synced
  · rw [if_pos hsynced]
    have howner := hI.caughtUp s (exec (m s.lastCaughtUpPpSeqNo) s.owner).2 hsynced.1 hsynced.2 hs
    unfold LedgerManager.callOwner
    rw [exec_bind, exec_get]
    dsimp only
    rw [exec_bind, exec_modify]
    cases (exec (m s.lastCaughtUpPpSeqNo) s.owner).1 <;> exact howner
  · rw [if_neg hsynced]
    exact hs

theorem completeCatchup {clbk : LedgerManagerM O τ Unit} (hclbk : Keeps I clbk) (lid : LedgerId) (lastPpSeqNo : ℤ) :
    Keeps I (completeCatchup own clbk lid lastPpSeqNo) := by
  refine Keeps.seq (hI.write fun _ => ⟨rfl, rfl, rfl⟩) fun _ => ?_
  refine Keeps.seq (hI.modifyLedgerInfo lid fun info => ⟨⟨?_, rfl, Or.inl rfl⟩, Or.inr (by simp), rfl⟩) fun _ => ?_
  · intro i p hp
    cases hp
  · exact Keeps.seq hclbk fun _ => hI.callCaughtUp _

theorem confirmToClient (status : LedgerStatus) (frm : NodeName) : Keeps I (confirmToClient env own status frm) := by
  apply Keeps.get_seq
  intro s
  exact Keeps.cond (hI.sendTo _ _) (Keeps.ret _)

section Status

variable {completed : LedgerId → LedgerManagerM O τ Unit} (hcompleted : ∀ lid, Keeps I (completed lid))

include hcompleted

theorem recordUnlessClient (lid : LedgerId) (frm : NodeName) : Keeps I (recordUnlessClient own completed lid frm) := by
  refine Keeps.cond (Keeps.ret _) ?_
  refine Keeps.seq (hI.modifyLedgerInfo lid fun info => ⟨⟨?_, rfl, Or.inl rfl⟩, Or.inl rfl, rfl⟩) fun _ => ?_
  · intro i p hp
    simp only [Dict.get?_set] at hp
    split_ifs at hp with hi
    · cases hp
    · exact hp
  · apply Keeps.get_seq
    intro s
    exact Keeps.cond (hcompleted lid) (Keeps.ret _)

theorem processLedgerStatusWith (status : LedgerStatus) (frm : NodeName) :
    Keeps I (processLedgerStatusWith env own completed status frm) := by
  apply Keeps.get_seq
  intro s
  refine Keeps.cond (Keeps.ret _) (Keeps.seq (hI.confirmToClient _ _) fun _ => ?_)
  refine Keeps.cond ?_ (Keeps.cond ?_ (Keeps.cond ?_ ?_))
  · exact hI.modifyLedgerInfo _ fun _ => .ofSame rfl rfl rfl (Or.inl rfl) rfl
  · refine Keeps.seq (keeps_buildConsistencyProof _ _ _) fun proof => ?_
    cases proof with
    | none => exact Keeps.ret _
    | some proof => exact Keeps.seq (hI.sendTo _ _) fun _ => hI.recordUnlessClient hcompleted _ _
  · exact Keeps.cond (Keeps.seq (hI.setLedgerCanSync _ _) fun _ => hI.sendTo _ _) (Keeps.ret _)
  · exact hI.recordUnlessClient hcompleted _ _

theorem drainLedgerStatuses (lid : LedgerId) (n : ℕ) : Keeps I (drainLedgerStatuses env own completed lid n) := by
  induction n with
  | zero => exact Keeps.raise _
  | succ n ih =>
    apply Keeps.get_seq
    intro s
    split
    · exact Keeps.ret _
    · refine Keeps.seq (hI.modifyLedgerInfo _ fun _ => .ofSame rfl rfl rfl (Or.inl rfl) rfl) fun _ => ?_
      exact Keeps.seq (hI.processLedgerStatusWith hcompleted _ _) fun _ => ih

end Status

theorem domainCatchupCompleted (lid : LedgerId) :
    Keeps I (domainCatchupCompleted own lid : LedgerManagerM O τ Unit) := by
  cases lid with
  | pool => exact Keeps.raise _
  | domain => exact hI.completeCatchup (Keeps.ret _) _ _

theorem postPoolLedgerCaughtUp : Keeps I (postPoolLedgerCaughtUp env own fuel) := by
  refine Keeps.seq (hI.callOwner own.ledgers_poolLedgerCaughtUp) fun _ => ?_
  refine Keeps.seq (hI.setLedgerCanSync _ _) fun _ => ?_
  apply Keeps.get_seq
  intro s
  refine Keeps.seq (Keeps.each fun nm _ => hI.sendTo _ _) fun _ => ?_
  exact hI.drainLedgerStatuses hI.domainCatchupCompleted _ _

theorem catchupCompleted (lid : LedgerId) (lastPpSeqNo : ℤ) :
    Keeps I (catchupCompleted env own fuel lid lastPpSeqNo) := by
  cases lid with
  | pool => exact hI.completeCatchup hI.postPoolLedgerCaughtUp _ _
  | domain => exact hI.completeCatchup (Keeps.ret _) _ _

theorem processLedgerStatus (status : LedgerStatus) (frm : NodeName) :
    Keeps I (processLedgerStatus env own fuel status frm) :=
  hI.processLedgerStatusWith (fun lid => hI.catchupCompleted lid _) status frm

theorem checkIfCPsNeeded (lid : LedgerId) : Keeps I (checkIfCPsNeeded own lid) := by
  apply Keeps.get_seq
  intro s
  refine Keeps.cond (Keeps.ret _) (Keeps.cond (Keeps.ret _) (Keeps.seq ?_ fun _ => ?_))
  · apply Keeps.get_seq
    intro s'
    split
    · exact Keeps.ret _
    · exact Keeps.raise _
    · exact hI.sendTo _ _
  · refine hI.modifyLedgerInfo lid fun info => ⟨⟨?_, rfl, Or.inr rfl⟩, Or.inl rfl, rfl⟩
    intro i p hp
    cases hp

theorem startConsistencyProofsTimer (lid : LedgerId) : Keeps I (startConsistencyProofsTimer env own lid) := by
  apply Keeps.get_seq
  intro s
  refine Keeps.cond (Keeps.seq ?_ fun _ => hI.schedule _ _) (Keeps.ret _)
  exact hI.modifyLedgerInfo lid fun _ => .ofSame rfl rfl rfl (Or.inl rfl) rfl

theorem canProcessConsistencyProof (proof : ConsistencyProof) : Keeps I (canProcessConsistencyProof own proof) := by
  apply Keeps.get_seq
  intro s
  refine Keeps.cond (Keeps.ret _) ?_
  split
  · exact Keeps.ret _
  · refine Keeps.cond (Keeps.seq ?_ fun _ => Keeps.seq ?_ fun _ => ?_) (Keeps.ret _)
    · exact hI.modifyLedgerInfo _ fun _ => .ofSame rfl rfl rfl (Or.inr (by simp)) rfl
    · refine Keeps.cond (hI.write fun s => ⟨rfl, rfl, ?_⟩) (Keeps.ret _)
      exact own.ledgers_preDomainLedgerCatchUp s.owner
    · exact Keeps.get_seq fun s => Keeps.ret _
  · exact Keeps.ret _

end Framed

/-- starting a catch-up -/
theorem CatchupFramed.startCatchUpProcess (hI : CatchupFramed own I) (lid : LedgerId) (proof : Option ConsistencyProof) :
    Keeps I (startCatchUpProcess env own fuel lid proof) := by
  cases proof with
  | none => exact hI.catchupCompleted lid _
  | some p =>
    refine Keeps.seq (Keeps.write fun s hs => hI.start s lid _ ⟨?_, rfl, Or.inl rfl⟩ hs) fun _ => ?_
    · intro i p hp
      cases hp
    · apply Keeps.get_seq
      intro s
      split
      · exact Keeps.raise _
      · refine Keeps.seq (Keeps.each fun e _ => hI.sendTo _ _) fun _ => ?_
        refine Keeps.seq (Keeps.write fun s hs => hI.start s lid _ ⟨fun _ _ hp => hp, rfl, Or.inl rfl⟩ hs) fun _ => ?_
        split
        · exact Keeps.ret _
        · refine Keeps.seq ?_ fun _ => hI.schedule _ _
          exact hI.modifyLedgerInfo lid fun _ => .ofSame rfl rfl rfl (Or.inl rfl) rfl

section Proofs

variable (hI : CatchupFramed own I)
  (hverdict : ∀ (s s' : LedgerManager O τ) lid, I s → I s' →
    I { s' with verdicts := s'.verdicts ++ [(lid, catchUpVerdict own s lid)] })

include hI hverdict

/-- the verdict is about the proofs held when the method starts -/
theorem CatchupFramed.canStartCatchUpProcess (lid : LedgerId) : Keeps I (canStartCatchUpProcess env own lid) := by
  apply Keeps.read
  intro s hs
  refine Keeps.seq (hI.startConsistencyProofsTimer lid) (fun _ => ?_) s hs
  exact Keeps.seq (Keeps.write fun s' hs' => hverdict s s' lid hs hs') fun _ => Keeps.ret _

/-- a consistency proof that may be recorded -/
theorem CatchupFramed.processConsistencyProof {proof : ConsistencyProof} {frm : NodeName}
    (hrecord : ∀ s, I s → I (s.setLedgerInfo proof.ledgerId { s.ledgerInfo proof.ledgerId with
      recvdConsistencyProofs := (s.ledgerInfo proof.ledgerId).recvdConsistencyProofs.set frm (some proof) })) :
    Keeps I (processConsistencyProof env own fuel proof frm) := by
  refine Keeps.seq (Keeps.write hrecord) fun _ => ?_
  refine Keeps.seq (hI.canProcessConsistencyProof proof) fun _ => Keeps.cond ?_ (Keeps.ret _)
  refine Keeps.seq (hI.canStartCatchUpProcess hverdict _) fun verdict => ?_
  exact Keeps.cond (hI.startCatchUpProcess _ _) (Keeps.ret _)

end Proofs

/-! ## Catch-up replies -/

/-- an invariant that the transactions added to the ledgers and the replies held do not matter for -/
structure RepliesFramed (own : LedgerOwner O τ) (I : LedgerManager O τ → Prop) : Prop where
  setLedgers : ∀ s ledgers, I s → I (s.setOwner (own.setLedgers s.owner ledgers))
  postTxn : ∀ s lid txn, I s → I (s.setOwner (exec (own.postTxnFromCatchupAddedToLedger lid txn) s.owner).2)
  blacklistNode : ∀ s i, I s → I (s.setOwner (own.blacklistNode s.owner i))
  replies : ∀ (s : LedgerManager O τ) lid held frm, I s → I (s.setLedgerInfo lid
    { s.ledgerInfo lid with receivedCatchUpReplies := held, recvdCatchupRepliesFrm := frm })

namespace RepliesFramed

variable (hI : RepliesFramed own I)

include hI

theorem addCatchupTxns (lid : LedgerId) (replies : List (CatchupTxn τ)) :
    Keeps I (addCatchupTxns env own lid replies) := by
  induction replies with
  | nil => exact Keeps.ret _
  | cons reply replies ih =>
    refine Keeps.seq (Keeps.write fun s hs => hI.setLedgers s _ hs) fun _ => ?_
    apply Keeps.get_seq
    intro s
    exact Keeps.seq (keeps_callOwner fun s hs => hI.postTxn s _ _ hs) fun _ => ih

theorem removePrcdCatchupReply (lid : LedgerId) (nodeName : NodeName) (seqNo : ℤ) :
    Keeps I (removePrcdCatchupReply lid nodeName seqNo : LedgerManagerM O τ Unit) := by
  apply Keeps.get_seq
  intro s
  split
  · exact Keeps.raise _
  · exact Keeps.raise _
  · exact Keeps.write fun s hs => hI.replies s lid _ _ hs

omit hI in
theorem hasValidCatchupReplies (lid : LedgerId) (seqNo : ℤ) (replies : List (CatchupTxn τ)) :
    Keeps I (hasValidCatchupReplies env own lid seqNo replies) := by
  apply Keeps.get_seq
  intro s
  split
  · exact Keeps.raise _
  · split
    · exact Keeps.raise _
    · exact Keeps.ret _

theorem processCatchupReplies (lid : LedgerId) (n : ℕ) (replies : List (CatchupTxn τ)) :
    Keeps I (processCatchupReplies env own lid n replies) := by
  induction n generalizing replies with
  | zero => exact Keeps.raise _
  | succ n ih =>
    apply Keeps.get_seq
    intro s
    dsimp only
    split
    · exact Keeps.ret _
    · refine Keeps.cond (Keeps.seq (hasValidCatchupReplies _ _ _) fun r => ?_) (Keeps.ret _)
      refine Keeps.cond ?_ ?_
      · refine Keeps.seq (hI.addCatchupTxns _ _) fun _ => ?_
        refine Keeps.seq (hI.removePrcdCatchupReply _ _ _) fun _ => ?_
        exact Keeps.seq (ih _) fun _ => Keeps.ret _
      · refine Keeps.seq (Keeps.write fun s hs => hI.blacklistNode s _ hs) fun _ => ?_
        exact Keeps.seq (hI.removePrcdCatchupReply _ _ _) fun _ => Keeps.ret _

omit hI in
theorem canProcessCatchupReply (rep : CatchupRep τ) : Keeps I (canProcessCatchupReply env own rep) := by
  apply Keeps.get_seq
  intro s
  refine Keeps.cond (Keeps.ret _) ?_
  split
  · exact Keeps.raise _
  · dsimp only
    split
    · exact Keeps.cond (Keeps.ret _) (Keeps.ret _)
    · exact Keeps.ret _

theorem mergeCatchupRep (rep : CatchupRep τ) (frm : NodeName) : Keeps I (mergeCatchupRep env own rep frm) := by
  refine Keeps.seq (canProcessCatchupReply rep) fun txns => Keeps.cond (Keeps.ret _) ?_
  refine Keeps.seq (Keeps.write fun s hs => hI.replies s _ _ _ hs) fun _ => ?_
  apply Keeps.get_seq
  intro s
  refine Keeps.seq (hI.processCatchupReplies _ _ _) fun _ => ?_
  exact Keeps.seq (Keeps.write fun s hs => hI.replies s _ _ _ hs) fun _ => Keeps.ret _

end RepliesFramed

end LedgerManager

end Plenum
