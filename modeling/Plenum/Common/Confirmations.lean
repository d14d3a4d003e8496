/-
When the statuses of its peers let a ledger manager declare a ledger synced.

- `Tracks own Q`: a property `Q` of the state of a ledger and of the peers that have confirmed it, which survives one
  more confirmation unless that one completes the catch-up, survives completing it, and starting it.
- `SyncFramed I`: the methods that touch neither keep `I`; `Tracks.syncInput`: every input keeps a tracked property, if
  it does not matter that the node sets the state.
- `syncInput_confirmed`: what a confirmation does to a ledger that waits for them.
- `sync_completes_iff`: from a state in which a ledger waits, enough confirmations always complete the catch-up exactly if
  one of them makes `2f` of them. With `f = 0` none does, and confirmations that came in while the ledger was synced
  count, so that the number can be passed over.
-/
import Mathlib.Tactic
import Plenum.Common.SyncRuns

namespace Plenum

open Plenum.Core Plenum.Core.Exec

namespace LedgerManager

variable {O τ : Type} {env : LedgerEnv τ} {own : LedgerOwner O τ} {fuel : ℕ} {I : LedgerManager O τ → Prop}

/-! ## Methods that neither change the state of a ledger nor confirm it -/

/-- an invariant about the states of the ledgers and the peers that have confirmed them -/
structure SyncFramed (I : LedgerManager O τ → Prop) : Prop where
  quiet : ∀ s s' : LedgerManager O τ, s'.ledgerRegistry = s.ledgerRegistry → I s → I s'
  info : ∀ (s : LedgerManager O τ) lid info, info.state = (s.ledgerInfo lid).state →
    info.ledgerStatusOk = (s.ledgerInfo lid).ledgerStatusOk → I s → I (s.setLedgerInfo lid info)

section Status

variable {completed : LedgerId → LedgerManagerM O τ Unit}
  (hrecord : ∀ lid frm, own.isClient frm = false → Keeps I (recordLedgerStatusOk own completed lid frm))

include hrecord

theorem keeps_recordUnlessClient (lid : LedgerId) (frm : NodeName) : Keeps I (recordUnlessClient own completed lid frm) := by
  unfold LedgerManager.recordUnlessClient
  split_ifs with hclient
  · exact Keeps.ret _
  · exact hrecord lid frm (Bool.eq_false_of_not_eq_true hclient)

end Status

namespace SyncFramed

theorem and {J : LedgerManager O τ → Prop} (hI : SyncFramed I) (hJ : SyncFramed J) : SyncFramed fun s => I s ∧ J s :=
  ⟨fun s s' h hs => ⟨hI.quiet s s' h hs.1, hJ.quiet s s' h hs.2⟩,
    fun s lid info h h' hs => ⟨hI.info s lid info h h' hs.1, hJ.info s lid info h h' hs.2⟩⟩

variable (hI : SyncFramed I)

include hI

theorem write {g : LedgerManager O τ → LedgerManager O τ} (h : ∀ s, (g s).ledgerRegistry = s.ledgerRegistry) :
    Keeps I (modify g : LedgerManagerM O τ PUnit) :=
  Keeps.write fun s hs => hI.quiet s (g s) (h s) hs

theorem modifyLedgerInfo (lid : LedgerId) {g : LedgerInfo τ → LedgerInfo τ}
    (h : ∀ info, (g info).state = info.state ∧ (g info).ledgerStatusOk = info.ledgerStatusOk) :
    Keeps I (modifyLedgerInfo lid g : LedgerManagerM O τ Unit) :=
  Keeps.write fun s hs => hI.info s lid _ (h _).1 (h _).2 hs

theorem sendTo (msg : LedgerMsg) (receiver : Option NodeName) :
    Keeps I (sendTo msg receiver : LedgerManagerM O τ Unit) := hI.write fun _ => rfl

theorem schedule (action : LedgerAction) (ticks : ℕ) : Keeps I (schedule action ticks : LedgerManagerM O τ Unit) :=
  hI.write fun _ => rfl

theorem setLedgerCanSync (lid : LedgerId) (canSync : Bool) :
    Keeps I (setLedgerCanSync lid canSync : LedgerManagerM O τ Unit) := hI.modifyLedgerInfo lid fun _ => ⟨rfl, rfl⟩

theorem callOwner (m : Exec Exn O Unit) : Keeps I (callOwner m : LedgerManagerM O τ Unit) :=
  keeps_callOwner fun s hs => hI.quiet s _ rfl hs

/-- taking a catch-up reply does neither -/
theorem repliesFramed : RepliesFramed own I :=
  ⟨fun s _ hs => hI.quiet s _ rfl hs, fun s _ _ hs => hI.quiet s _ rfl hs, fun s _ hs => hI.quiet s _ rfl hs,
    fun s lid _ _ hs => hI.info s lid _ rfl rfl hs⟩

theorem confirmToClient (status : LedgerStatus) (frm : NodeName) : Keeps I (confirmToClient env own status frm) := by
  apply Keeps.get_seq
  intro s
  exact Keeps.cond (hI.sendTo _ _) (Keeps.ret _)

section Status

variable {completed : LedgerId → LedgerManagerM O τ Unit}
  (hrecord : ∀ lid frm, own.isClient frm = false → Keeps I (recordLedgerStatusOk own completed lid frm))

include hrecord

theorem processLedgerStatusWith (status : LedgerStatus) (frm : NodeName) :
    Keeps I (processLedgerStatusWith env own completed status frm) := by
  apply Keeps.get_seq
  intro s
  refine Keeps.cond (Keeps.ret _) (Keeps.seq (hI.confirmToClient _ _) fun _ => ?_)
  refine Keeps.cond ?_ (Keeps.cond ?_ (Keeps.cond ?_ ?_))
  · exact hI.modifyLedgerInfo _ fun _ => ⟨rfl, rfl⟩
  · refine Keeps.seq (keeps_buildConsistencyProof _ _ _) fun proof => ?_
    cases proof with
    | none => exact Keeps.ret _
    | some proof => exact Keeps.seq (hI.sendTo _ _) fun _ => keeps_recordUnlessClient hrecord _ _
  · exact Keeps.cond (Keeps.seq (hI.setLedgerCanSync _ _) fun _ => hI.sendTo _ _) (Keeps.ret _)
  · exact keeps_recordUnlessClient hrecord _ _

theorem drainLedgerStatuses (lid : LedgerId) (n : ℕ) : Keeps I (drainLedgerStatuses env own completed lid n) := by
  induction n with
  | zero => exact Keeps.raise _
  | succ n ih =>
    apply Keeps.get_seq
    intro s
    split
    · exact Keeps.ret _
    · refine Keeps.seq (hI.modifyLedgerInfo _ fun _ => ⟨rfl, rfl⟩) fun _ => ?_
      exact Keeps.seq (hI.processLedgerStatusWith hrecord _ _) fun _ => ih

end Status

/-- completing the catch-up of a ledger, from a state that is right once the ledger is synced -/
theorem completeCatchup {clbk : LedgerManagerM O τ Unit} (hclbk : Keeps I clbk) (lid : LedgerId) (lastPpSeqNo : ℤ)
    {s : LedgerManager O τ}
    (h : ∀ info : LedgerInfo τ, info.state = .synced → info.ledgerStatusOk = ∅ → I (s.setLedgerInfo lid info)) :
    I (exec (completeCatchup own clbk lid lastPpSeqNo) s).2 := by
  unfold LedgerManager.completeCatchup LedgerManager.modifyLedgerInfo
  rw [exec_bind, exec_modify]
  dsimp only
  rw [exec_bind, exec_modify]
  dsimp only
  refine Keeps.seq hclbk (fun _ => Keeps.get_seq fun s' => Keeps.cond (hI.callOwner _) (Keeps.ret _)) _ ?_
  have hsynced := h { s.ledgerInfo lid with
    catchupReplyTimer := none, canSync := false, state := .synced, ledgerStatusOk := ∅,
    recvdConsistencyProofs := Dict.empty } rfl rfl
  exact hI.quiet (s.setLedgerInfo lid _) _ rfl hsynced

theorem startConsistencyProofsTimer (lid : LedgerId) : Keeps I (startConsistencyProofsTimer env own lid) := by
  apply Keeps.get_seq
  intro s
  refine Keeps.cond (Keeps.seq ?_ fun _ => hI.schedule _ _) (Keeps.ret _)
  exact hI.modifyLedgerInfo lid fun _ => ⟨rfl, rfl⟩

theorem canStartCatchUpProcess (lid : LedgerId) : Keeps I (canStartCatchUpProcess env own lid) := by
  apply Keeps.get_seq
  intro s
  refine Keeps.seq (hI.startConsistencyProofsTimer lid) fun _ => ?_
  exact Keeps.seq (hI.write fun _ => rfl) fun _ => Keeps.ret _

theorem checkIfCPsNeeded (lid : LedgerId) : Keeps I (checkIfCPsNeeded own lid) := by
  apply Keeps.get_seq
  intro s
  refine Keeps.cond (Keeps.ret _) (Keeps.cond (Keeps.ret _) (Keeps.seq ?_ fun _ => ?_))
  · apply Keeps.get_seq
    intro s'
    split
    · exact Keeps.ret _
    · exact Keeps.raise _
    · exact hI.sendTo _ _
  · exact hI.modifyLedgerInfo lid fun _ => ⟨rfl, rfl⟩

theorem checkIfTxnsNeeded (lid : LedgerId) (eligibleNodes : List NodeName) :
    Keeps I (checkIfTxnsNeeded env own lid eligibleNodes) := by
  apply Keeps.get_seq
  intro s
  refine Keeps.cond (Keeps.ret _) ?_
  split
  · exact Keeps.raise _
  · refine Keeps.cond (hI.modifyLedgerInfo lid fun _ => ⟨rfl, rfl⟩) (Keeps.cond (Keeps.ret _) ?_)
    dsimp only
    split
    · exact Keeps.raise _
    · refine Keeps.seq (Keeps.each fun e _ => hI.sendTo _ _) fun _ => ?_
      exact Keeps.seq (hI.modifyLedgerInfo lid fun _ => ⟨rfl, rfl⟩) fun _ => hI.schedule _ _

end SyncFramed

/-! ## Tracked properties -/

/-- `Q` holds of the state of the ledger and of the peers that have confirmed it -/
def Holds (Q : LedgerState → Finset NodeName → Prop) (lid : LedgerId) (s : LedgerManager O τ) : Prop :=
  Q (s.ledgerInfo lid).state (s.ledgerInfo lid).ledgerStatusOk

/-- a property that outlives what happens to a ledger -/
structure Tracks (own : LedgerOwner O τ) (Q : LedgerState → Finset NodeName → Prop) : Prop where
  record : ∀ state ok i, own.isClient i = false → Q state ok →
    ((insert i ok).card = 2 * own.f ∧ state ≠ .synced) ∨ Q state (insert i ok)
  completed : Q .synced ∅

section Tracked

variable {Q : LedgerState → Finset NodeName → Prop} {lid : LedgerId} {s : LedgerManager O τ}

theorem holds_framed (Q : LedgerState → Finset NodeName → Prop) (lid : LedgerId) :
    SyncFramed (Holds Q lid : LedgerManager O τ → Prop) := by
  refine ⟨?_, ?_⟩
  · intro s s' hreg hs
    unfold Holds ledgerInfo at hs ⊢
    rwa [hreg]
  · intro s lid' info hstate hok hs
    unfold Holds at hs ⊢
    rw [ledgerInfo_setLedgerInfo]
    split_ifs with hl
    · subst hl
      rwa [hstate, hok]
    · exact hs

theorem holds_setLedgerInfo_self {info : LedgerInfo τ} :
    Holds Q lid (s.setLedgerInfo lid info) ↔ Q info.state info.ledgerStatusOk := by
  unfold Holds
  rw [ledgerInfo_setLedgerInfo, if_pos rfl]

theorem holds_setLedgerInfo_ne {lid' : LedgerId} (h : lid ≠ lid') {info : LedgerInfo τ} :
    Holds Q lid (s.setLedgerInfo lid' info) ↔ Holds Q lid s := by
  unfold Holds
  rw [ledgerInfo_setLedgerInfo, if_neg h]

variable (own) in
/-- one more confirmation, after which the catch-up may be completed -/
theorem exec_recordLedgerStatusOk (completed : LedgerId → LedgerManagerM O τ Unit) (s : LedgerManager O τ)
    (lid : LedgerId) (frm : NodeName) :
    ∃ info : LedgerInfo τ, info.state = (s.ledgerInfo lid).state ∧ info.canSync = (s.ledgerInfo lid).canSync ∧
      info.ledgerStatusOk = insert frm (s.ledgerInfo lid).ledgerStatusOk ∧
      exec (recordLedgerStatusOk own completed lid frm) s =
        if (insert frm (s.ledgerInfo lid).ledgerStatusOk).card = 2 * own.f ∧ (s.ledgerInfo lid).state ≠ .synced then
          exec (completed lid) (s.setLedgerInfo lid info)
        else (.ok (), s.setLedgerInfo lid info) := by
  refine ⟨{ s.ledgerInfo lid with
    recvdConsistencyProofs := (s.ledgerInfo lid).recvdConsistencyProofs.set frm none,
    ledgerStatusOk := insert frm (s.ledgerInfo lid).ledgerStatusOk }, rfl, rfl, rfl, ?_⟩
  unfold recordLedgerStatusOk LedgerManager.modifyLedgerInfo
  rw [exec_bind, exec_modify]
  dsimp only
  rw [exec_bind, exec_get]
  simp only [ledgerInfo_setLedgerInfo, if_pos]
  split_ifs
  · rfl
  · rfl

/-- a confirmation that does not complete the catch-up -/
theorem Tracks.recorded (hQ : Tracks own Q) {lid' : LedgerId} {frm : NodeName} (hclient : own.isClient frm = false)
    (hs : Holds Q lid s) {info : LedgerInfo τ} (hstate : info.state = (s.ledgerInfo lid').state)
    (hok : info.ledgerStatusOk = insert frm (s.ledgerInfo lid').ledgerStatusOk)
    (hfew : ¬((insert frm (s.ledgerInfo lid').ledgerStatusOk).card = 2 * own.f ∧ (s.ledgerInfo lid').state ≠ .synced)) :
    Holds Q lid (s.setLedgerInfo lid' info) := by
  by_cases hl : lid = lid'
  · subst hl
    rw [holds_setLedgerInfo_self, hstate, hok]
    exact (hQ.record _ _ _ hclient hs).resolve_left hfew
  · exact (holds_setLedgerInfo_ne hl).2 hs

/-- a catch-up that is completed -/
theorem Tracks.finished (hQ : Tracks own Q) {lid' : LedgerId} (hs : lid ≠ lid' → Holds Q lid s) {info : LedgerInfo τ}
    (hstate : info.state = .synced) (hok : info.ledgerStatusOk = ∅) : Holds Q lid (s.setLedgerInfo lid' info) := by
  by_cases hl : lid = lid'
  · subst hl
    rw [holds_setLedgerInfo_self, hstate, hok]
    exact hQ.completed
  · exact (holds_setLedgerInfo_ne hl).2 (hs hl)

def IsSynced (state : LedgerState) (_ : Finset NodeName) : Prop := state = .synced

theorem isSynced_tracks : Tracks own IsSynced := ⟨fun _ _ _ _ h => Or.inr h, rfl⟩

/-- while the pool ledger is synced, the statuses stashed for the domain ledger keep what is tracked -/
theorem Tracks.recordDomain (hQ : Tracks own Q) (lid' : LedgerId) (frm : NodeName) (hclient : own.isClient frm = false) :
    Keeps (fun s : LedgerManager O τ => Holds IsSynced .pool s ∧ Holds Q lid s)
      (recordLedgerStatusOk own (domainCatchupCompleted own) lid' frm) := by
  rintro s ⟨hpool, hs⟩
  obtain ⟨info, hstate, -, hok, hexec⟩ := exec_recordLedgerStatusOk own (domainCatchupCompleted own) s lid' frm
  rw [hexec]
  split_ifs with hfull
  · cases lid' with
    | pool => exact absurd hpool hfull.2
    | domain =>
      have hne : LedgerId.pool ≠ .domain := by decide
      refine ((holds_framed _ _).and (holds_framed _ _)).completeCatchup (Keeps.ret _) .domain _ ?_
      intro info' hstate' hok'
      refine ⟨(holds_setLedgerInfo_ne hne).2 ((holds_setLedgerInfo_ne hne).2 hpool), hQ.finished ?_ hstate' hok'⟩
      intro hl
      exact (holds_setLedgerInfo_ne hl).2 hs
  · exact ⟨isSynced_tracks.recorded hclient hpool hstate hok hfull, hQ.recorded hclient hs hstate hok hfull⟩

theorem Tracks.postPoolLedgerCaughtUp (hQ : Tracks own Q) :
    Keeps (fun s : LedgerManager O τ => Holds IsSynced .pool s ∧ Holds Q lid s) (postPoolLedgerCaughtUp env own fuel) := by
  have hI : SyncFramed fun s : LedgerManager O τ => Holds IsSynced .pool s ∧ Holds Q lid s :=
    (holds_framed _ _).and (holds_framed _ _)
  refine Keeps.seq (hI.callOwner _) fun _ => ?_
  refine Keeps.seq (hI.setLedgerCanSync _ _) fun _ => ?_
  apply Keeps.get_seq
  intro s
  refine Keeps.seq (Keeps.each fun nm _ => hI.sendTo _ _) fun _ => ?_
  exact hI.drainLedgerStatuses hQ.recordDomain _ _

/-- **Completing a catch-up** establishes what is tracked of its ledger, and keeps it of the other one. -/
theorem Tracks.catchupCompleted (hQ : Tracks own Q) {lid' : LedgerId} (lastPpSeqNo : ℤ) (hs : lid ≠ lid' → Holds Q lid s) :
    Holds Q lid (exec (catchupCompleted env own fuel lid' lastPpSeqNo) s).2 := by
  cases lid' with
  | pool =>
    refine (((holds_framed _ _).and (holds_framed _ _)).completeCatchup hQ.postPoolLedgerCaughtUp .pool _ ?_).2
    intro info hstate hok
    exact ⟨holds_setLedgerInfo_self.2 hstate, hQ.finished hs hstate hok⟩
  | domain =>
    refine (holds_framed _ _).completeCatchup (Keeps.ret _) .domain _ ?_
    intro info hstate hok
    exact hQ.finished hs hstate hok

theorem Tracks.recordLedgerStatusOk (hQ : Tracks own Q) (lid' : LedgerId) (frm : NodeName)
    (hclient : own.isClient frm = false) :
    Keeps (Holds Q lid : LedgerManager O τ → Prop)
      (recordLedgerStatusOk own (fun lid => LedgerManager.catchupCompleted env own fuel lid (-1)) lid' frm) := by
  intro s hs
  obtain ⟨info, hstate, -, hok, hexec⟩ := exec_recordLedgerStatusOk own
    (fun lid => LedgerManager.catchupCompleted env own fuel lid (-1)) s lid' frm
  rw [hexec]
  split_ifs with hfull
  · exact hQ.catchupCompleted _ fun hl => (holds_setLedgerInfo_ne hl).2 hs
  · exact hQ.recorded hclient hs hstate hok hfull

theorem Tracks.processLedgerStatus (hQ : Tracks own Q) (status : LedgerStatus) (frm : NodeName) :
    Keeps (Holds Q lid : LedgerManager O τ → Prop) (processLedgerStatus env own fuel status frm) :=
  (holds_framed Q lid).processLedgerStatusWith hQ.recordLedgerStatusOk status frm

theorem Tracks.processCatchupRep (hQ : Tracks own Q) (rep : CatchupRep τ) (frm : NodeName) :
    Keeps (Holds Q lid : LedgerManager O τ → Prop) (processCatchupRep env own fuel rep frm) := by
  have hI : SyncFramed (Holds Q lid : LedgerManager O τ → Prop) := holds_framed Q lid
  refine Keeps.seq (hI.repliesFramed.mergeCatchupRep rep frm) fun merged => Keeps.cond ?_ (Keeps.ret _)
  apply Keeps.get_seq
  intro s
  split
  · exact Keeps.raise _
  · refine Keeps.cond (Keeps.seq (hI.modifyLedgerInfo _ fun _ => ⟨rfl, rfl⟩) fun _ => ?_) (Keeps.ret _)
    intro s hs
    exact hQ.catchupCompleted _ fun _ => hs

/-! ## Properties of the confirmations alone -/

/-- whatever the state of the ledger -/
def Always (Q : LedgerState → Finset NodeName → Prop) (_ : LedgerState) (ok : Finset NodeName) : Prop := ∀ state, Q state ok

theorem holds_of_always (h : Holds (Always Q) lid s) : Holds Q lid s := h _

theorem keeps_modify_state (lid' : LedgerId) {g : LedgerInfo τ → LedgerInfo τ}
    (h : ∀ info, (g info).ledgerStatusOk = info.ledgerStatusOk) :
    Keeps (Holds (Always Q) lid : LedgerManager O τ → Prop) (modifyLedgerInfo lid' g) := by
  apply Keeps.write
  intro s hs
  by_cases hl : lid = lid'
  · subst hl
    rw [holds_setLedgerInfo_self]
    unfold Always
    rw [h]
    exact hs
  · exact (holds_setLedgerInfo_ne hl).2 hs

theorem keeps_canProcessConsistencyProof (proof : ConsistencyProof) :
    Keeps (Holds (Always Q) lid : LedgerManager O τ → Prop) (canProcessConsistencyProof own proof) := by
  apply Keeps.get_seq
  intro s
  refine Keeps.cond (Keeps.ret _) ?_
  split
  · exact Keeps.ret _
  · refine Keeps.cond (Keeps.seq ?_ fun _ => Keeps.seq ?_ fun _ => ?_) (Keeps.ret _)
    · exact keeps_modify_state _ fun _ => rfl
    · exact Keeps.cond ((holds_framed _ _).write fun s => rfl) (Keeps.ret _)
    · exact Keeps.get_seq fun s => Keeps.ret _
  · exact Keeps.ret _

theorem Tracks.startCatchUpProcess (hQ : Tracks own Q) (lid' : LedgerId) (proof : Option ConsistencyProof)
    (hs : Holds (Always Q) lid s) : Holds Q lid (exec (startCatchUpProcess env own fuel lid' proof) s).2 := by
  cases proof with
  | none => exact hQ.catchupCompleted _ fun _ => holds_of_always hs
  | some p =>
    have hI : SyncFramed (Holds (Always Q) lid : LedgerManager O τ → Prop) := holds_framed _ _
    refine holds_of_always ((?_ : Keeps (Holds (Always Q) lid) _) s hs)
    refine Keeps.seq (keeps_modify_state lid' fun _ => rfl) fun _ => ?_
    apply Keeps.get_seq
    intro s
    split
    · exact Keeps.raise _
    · refine Keeps.seq (Keeps.each fun e _ => hI.sendTo _ _) fun _ => ?_
      refine Keeps.seq (hI.modifyLedgerInfo lid' fun _ => ⟨rfl, rfl⟩) fun _ => ?_
      split
      · exact Keeps.ret _
      · exact Keeps.seq (hI.modifyLedgerInfo lid' fun _ => ⟨rfl, rfl⟩) fun _ => hI.schedule _ _

theorem Tracks.processConsistencyProof (hQ : Tracks own Q) (proof : ConsistencyProof) (frm : NodeName)
    (hs : Holds (Always Q) lid s) : Holds Q lid (exec (processConsistencyProof env own fuel proof frm) s).2 := by
  have hI : SyncFramed (Holds (Always Q) lid : LedgerManager O τ → Prop) := holds_framed _ _
  have hall : ∀ s : LedgerManager O τ, Holds (Always Q) lid s → Holds Q lid s := fun _ => holds_of_always
  refine Keeps.andThen (hI.modifyLedgerInfo _ fun _ => ⟨rfl, rfl⟩) hall (fun _ s hs => ?_) hs
  refine Keeps.andThen (keeps_canProcessConsistencyProof proof) hall (fun canProcess s hs => ?_) hs
  split_ifs
  · refine Keeps.andThen (hI.canStartCatchUpProcess _) hall (fun verdict s hs => ?_) hs
    split_ifs
    · exact hQ.startCatchUpProcess _ _ hs
    · exact hall s hs
  · exact hall s hs

/-- **Inputs keep what is tracked**, where the state of the ledger does not matter for it. -/
theorem Tracks.syncInput (hQ : Tracks own Q) (hs : Holds (Always Q) lid s) (x : SyncInput τ) :
    Holds Q lid (syncInput env own fuel s x) := by
  have hI : SyncFramed (Holds Q lid : LedgerManager O τ → Prop) := holds_framed Q lid
  have hall := holds_of_always hs
  cases x with
  | receive x =>
    cases x with
    | ledgerStatus m frm => exact hQ.processLedgerStatus m frm s hall
    | consistencyProof m frm => exact hQ.processConsistencyProof m frm hs
    | catchupRep m frm => exact hQ.processCatchupRep m frm s hall
    | setLedgerCanSync lid canSync => exact hI.setLedgerCanSync lid canSync s hall
    | checkIfCPsNeeded lid => exact hI.checkIfCPsNeeded lid s hall
    | tick perfCounter => exact hI.quiet s _ rfl hall
  | setLedgerState lid' state =>
    exact holds_of_always (keeps_modify_state lid' (g := fun info => { info with state := state }) (fun _ => rfl) s hs)
  | checkIfTxnsNeeded lid' eligibleNodes => exact hI.checkIfTxnsNeeded lid' eligibleNodes s hall

end Tracked

/-! ## Waiting for confirmations -/

section Waiting

variable {lid : LedgerId} {s : LedgerManager O τ}

/-- the ledger can sync, and neither is it synced nor does a catch-up run -/
def Waiting (s : LedgerManager O τ) (lid : LedgerId) : Prop :=
  (s.ledgerInfo lid).canSync = true ∧ (s.ledgerInfo lid).state = .notSynced

instance (s : LedgerManager O τ) (lid : LedgerId) : Decidable (Waiting s lid) := by unfold Waiting; infer_instance

/-- the peer whose status the input is, if the status is not ahead of the own ledger -/
def confirmedBy (own : LedgerOwner O τ) (s : LedgerManager O τ) (lid : LedgerId) : SyncInput τ → Option NodeName
  | .receive (.ledgerStatus m frm) =>
    if m.ledgerId = lid ∧ own.isClient frm = false ∧ m.txnSeqNo ≤ s.ledgerSize own lid then some frm else none
  | _ => none

theorem confirmedBy_eq_some {x : SyncInput τ} {i : NodeName} (h : confirmedBy own s lid x = some i) :
    ∃ m, x = .receive (.ledgerStatus m i) ∧ m.ledgerId = lid ∧ own.isClient i = false ∧
      m.txnSeqNo ≤ s.ledgerSize own lid := by
  unfold confirmedBy at h
  split at h
  · split_ifs at h with hm
    obtain rfl := Option.some.inj h
    exact ⟨_, rfl, hm⟩
  · cases h

variable (env fuel) in
/-- a status that is not ahead gets as far as the confirmation -/
theorem exec_confirmation {m : LedgerStatus} {frm : NodeName} (hw : Waiting s m.ledgerId)
    (hclient : own.isClient frm = false) (hle : m.txnSeqNo ≤ s.ledgerSize own m.ledgerId) :
    ∃ s' : LedgerManager O τ, s'.ledgerRegistry = s.ledgerRegistry ∧
      exec (processLedgerStatus env own fuel m frm) s =
        exec (recordLedgerStatusOk own (fun lid => catchupCompleted env own fuel lid (-1)) m.ledgerId frm) s' := by
  obtain ⟨hcan, hstate⟩ := hw
  have hrecord : recordUnlessClient own (fun lid => catchupCompleted env own fuel lid (-1)) m.ledgerId frm =
      recordLedgerStatusOk own (fun lid => catchupCompleted env own fuel lid (-1)) m.ledgerId frm := by
    unfold recordUnlessClient
    rw [if_neg (by rw [hclient]; exact Bool.false_ne_true)]
  have hconfirm : exec (confirmToClient env own m frm) s = (.ok (), s) := by
    unfold confirmToClient
    rw [exec_bind, exec_get]
    dsimp only
    rw [if_neg (fun h => by rw [hclient] at h; exact Bool.false_ne_true h.1)]
    rfl
  unfold processLedgerStatus processLedgerStatusWith
  rw [exec_bind, exec_get]
  dsimp only
  rw [if_neg (fun h => by rw [hclient] at h; exact Bool.false_ne_true h.1), exec_bind, hconfirm]
  dsimp only
  rw [if_neg (fun h => by rw [hcan] at h; exact Bool.false_ne_true h.2.symm)]
  rcases Nat.lt_or_eq_of_le hle with hlt | heq
  · rw [if_pos hlt, exec_bind]
    unfold buildConsistencyProof
    rw [exec_bind, exec_get]
    dsimp only
    have hlength : (s.ledger own m.ledgerId).txns.length = s.ledgerSize own m.ledgerId := rfl
    rw [if_neg (by omega), if_neg (by omega), if_neg (by omega), exec_pure]
    dsimp only
    rw [exec_bind, sendTo, exec_modify, hrecord]
    refine ⟨_, ?_, rfl⟩
    rfl
  · rw [if_neg (by omega), if_neg (by omega), hrecord]
    exact ⟨s, rfl, rfl⟩

variable (env fuel) in
/-- one confirmation more: it completes the catch-up, or it is added to the others -/
theorem syncInput_confirmed {x : SyncInput τ} {i : NodeName} (hw : Waiting s lid) (hx : confirmedBy own s lid x = some i) :
    ((insert i (s.ledgerInfo lid).ledgerStatusOk).card = 2 * own.f →
      ((syncInput env own fuel s x).ledgerInfo lid).state = .synced) ∧
    ((insert i (s.ledgerInfo lid).ledgerStatusOk).card ≠ 2 * own.f → Waiting (syncInput env own fuel s x) lid ∧
      ((syncInput env own fuel s x).ledgerInfo lid).ledgerStatusOk = insert i (s.ledgerInfo lid).ledgerStatusOk) := by
  obtain ⟨m, rfl, rfl, hclient, hle⟩ := confirmedBy_eq_some hx
  obtain ⟨s', hreg, hexec⟩ := exec_confirmation env fuel hw hclient hle
  obtain ⟨info, hstate, hcan, hok, hrecord⟩ := exec_recordLedgerStatusOk own
    (fun lid => catchupCompleted env own fuel lid (-1)) s' m.ledgerId i
  have hsame : s'.ledgerInfo m.ledgerId = s.ledgerInfo m.ledgerId := by
    unfold ledgerInfo
    rw [hreg]
  have hafter : syncInput env own fuel s (.receive (.ledgerStatus m i)) =
      (exec (processLedgerStatus env own fuel m i) s).2 := rfl
  rw [hsame] at hstate hcan hok hrecord
  rw [hafter, hexec, hrecord]
  obtain ⟨hcanSync, hnotSynced⟩ := hw
  constructor
  · intro hfull
    rw [if_pos ⟨hfull, by rw [hnotSynced]; decide⟩]
    exact isSynced_tracks.catchupCompleted _ fun h => absurd rfl h
  · intro hfew
    rw [if_neg fun h => hfew h.1]
    dsimp only
    unfold Waiting
    rw [ledgerInfo_setLedgerInfo, if_pos rfl]
    exact ⟨⟨hcan.trans hcanSync, hstate.trans hnotSynced⟩, hok⟩

/-! ## Runs in which a ledger waits -/

/-- the peers that have sent a status that was not ahead when it arrived -/
def confirmers (env : LedgerEnv τ) (own : LedgerOwner O τ) (fuel : ℕ) (lid : LedgerId) :
    LedgerManager O τ → List (SyncInput τ) → Finset NodeName
  | _, [] => ∅
  | s, x :: xs => (confirmedBy own s lid x).toFinset ∪ confirmers env own fuel lid (syncInput env own fuel s x) xs

/-- the ledger waits from here to the end of the run -/
def StaysWaiting (env : LedgerEnv τ) (own : LedgerOwner O τ) (fuel : ℕ) (lid : LedgerId) :
    LedgerManager O τ → List (SyncInput τ) → Prop
  | s, [] => Waiting s lid
  | s, x :: xs => Waiting s lid ∧ StaysWaiting env own fuel lid (syncInput env own fuel s x) xs

theorem confirmers_concat (xs : List (SyncInput τ)) (x : SyncInput τ) :
    confirmers env own fuel lid s (xs ++ [x]) =
      confirmers env own fuel lid s xs ∪ (confirmedBy own (syncRun env own fuel s xs) lid x).toFinset := by
  induction xs generalizing s with
  | nil => simp [confirmers, syncRun]
  | cons y ys ih =>
    rw [List.cons_append, confirmers, ih, confirmers, Finset.union_assoc]
    rfl

theorem StaysWaiting.start {xs : List (SyncInput τ)} (h : StaysWaiting env own fuel lid s xs) : Waiting s lid := by
  cases xs with
  | nil => exact h
  | cons x xs => exact h.1

theorem StaysWaiting.finish {xs : List (SyncInput τ)} (h : StaysWaiting env own fuel lid s xs) :
    Waiting (syncRun env own fuel s xs) lid := by
  induction xs generalizing s with
  | nil => exact h
  | cons x xs ih => exact ih h.2

/-- whatever happens while the ledger waits, once as many peers have confirmed it as the source asks for, it is synced -/
def EnoughComplete (env : LedgerEnv τ) (own : LedgerOwner O τ) (fuel : ℕ) (lid : LedgerId) (s : LedgerManager O τ) : Prop :=
  ∀ xs x, StaysWaiting env own fuel lid s xs → (confirmedBy own (syncRun env own fuel s xs) lid x).isSome →
    max 1 (2 * own.f) ≤ (confirmers env own fuel lid s (xs ++ [x])).card →
    ((syncRun env own fuel s (xs ++ [x])).ledgerInfo lid).state = .synced

/-- a confirmation makes `2f` of them, or there is no peer to confirm anything -/
def CanReachQuorum (own : LedgerOwner O τ) (ok : Finset NodeName) : Prop :=
  (∀ i, own.isClient i = true) ∨
    (1 ≤ own.f ∧ (ok.card < 2 * own.f ∨ (ok.card = 2 * own.f ∧ ∀ i, own.isClient i = false → i ∈ ok)))

/-- a property of the confirmations that lasts while the ledger waits -/
theorem Tracks.staysWaiting {P : Finset NodeName → Prop} (hP : Tracks own fun state ok => state = .synced ∨ P ok)
    {x : SyncInput τ} (hok : P (s.ledgerInfo lid).ledgerStatusOk)
    (hw : Waiting (LedgerManager.syncInput env own fuel s x) lid) :
    P ((LedgerManager.syncInput env own fuel s x).ledgerInfo lid).ledgerStatusOk := by
  rcases hP.syncInput (s := s) (fun _ => Or.inr hok) x with h | h
  · rw [hw.2] at h
    cases h
  · exact h

/-- fewer than `2f` peers have confirmed, the ones in `peers` among them -/
def FewWith (own : LedgerOwner O τ) (peers : Finset NodeName) (ok : Finset NodeName) : Prop :=
  ok.card < 2 * own.f ∧ peers ⊆ ok

theorem fewWith_tracks (peers : Finset NodeName) : Tracks own fun state ok => state = .synced ∨ FewWith own peers ok := by
  refine ⟨?_, Or.inl rfl⟩
  rintro state ok i - (hstate | ⟨hcard, hsub⟩)
  · exact Or.inr (Or.inl hstate)
  · have hle := Finset.card_insert_le i ok
    by_cases hstate : state = .synced
    · exact Or.inr (Or.inl hstate)
    · by_cases hfull : (insert i ok).card = 2 * own.f
      · exact Or.inl ⟨hfull, hstate⟩
      · exact Or.inr (Or.inr ⟨by omega, hsub.trans (Finset.subset_insert i ok)⟩)

/-- all peers there are have confirmed, and they are `2f` -/
theorem all_tracks {ok₀ : Finset NodeName} (hcard : ok₀.card = 2 * own.f) (hall : ∀ i, own.isClient i = false → i ∈ ok₀) :
    Tracks own fun state ok => state = .synced ∨ ok = ok₀ := by
  refine ⟨?_, Or.inl rfl⟩
  rintro state ok i hi (hstate | rfl)
  · exact Or.inr (Or.inl hstate)
  · rw [Finset.insert_eq_of_mem (hall i hi)]
    exact Or.inr (Or.inr rfl)

/-- while the ledger waits, the confirmations stay few, and the peers that confirm it are among them -/
theorem fewWith_run (peers : Finset NodeName) {xs : List (SyncInput τ)} (h : StaysWaiting env own fuel lid s xs)
    (hok : FewWith own peers (s.ledgerInfo lid).ledgerStatusOk) :
    FewWith own (peers ∪ confirmers env own fuel lid s xs) ((syncRun env own fuel s xs).ledgerInfo lid).ledgerStatusOk := by
  induction xs generalizing s peers with
  | nil =>
    rw [confirmers, Finset.union_empty]
    exact hok
  | cons x xs ih =>
    have hw := h.2.start
    rw [confirmers, ← Finset.union_assoc]
    refine ih _ h.2 ?_
    cases hx : confirmedBy own s lid x with
    | none =>
      rw [Option.toFinset_none, Finset.union_empty]
      exact (fewWith_tracks peers).staysWaiting hok hw
    | some i =>
      obtain ⟨hfull, hfew⟩ := syncInput_confirmed env fuel h.1 hx
      have hne : (insert i (s.ledgerInfo lid).ledgerStatusOk).card ≠ 2 * own.f := by
        intro heq
        have hsynced := hfull heq
        rw [hw.2] at hsynced
        cases hsynced
      have hle := Finset.card_insert_le i (s.ledgerInfo lid).ledgerStatusOk
      obtain ⟨hcard, hsub⟩ := hok
      rw [(hfew hne).2]
      refine ⟨by omega, ?_⟩
      intro j hj
      rw [Option.toFinset_some, Finset.mem_union, Finset.mem_singleton] at hj
      rcases hj with hj | rfl
      · exact Finset.mem_insert_of_mem (hsub hj)
      · exact Finset.mem_insert_self _ _

theorem all_run {ok₀ : Finset NodeName} (hcard : ok₀.card = 2 * own.f) (hall : ∀ i, own.isClient i = false → i ∈ ok₀)
    {xs : List (SyncInput τ)} (h : StaysWaiting env own fuel lid s xs) (hok : (s.ledgerInfo lid).ledgerStatusOk = ok₀) :
    ((syncRun env own fuel s xs).ledgerInfo lid).ledgerStatusOk = ok₀ := by
  induction xs generalizing s with
  | nil => exact hok
  | cons x xs ih => exact ih h.2 ((all_tracks hcard hall).staysWaiting hok h.2.start)

theorem enoughComplete_of_canReachQuorum (h : CanReachQuorum own (s.ledgerInfo lid).ledgerStatusOk) :
    EnoughComplete env own fuel lid s := by
  intro xs x hwaits hx henough
  obtain ⟨i, hx⟩ := Option.isSome_iff_exists.1 hx
  obtain ⟨m, -, -, hclient, -⟩ := confirmedBy_eq_some hx
  have hlast : syncRun env own fuel s (xs ++ [x]) = syncInput env own fuel (syncRun env own fuel s xs) x :=
    syncRun_concat s xs x
  rw [hlast]
  refine (syncInput_confirmed env fuel hwaits.finish hx).1 ?_
  rcases h with hno | ⟨hf, hfew | ⟨hcard, hall⟩⟩
  · rw [hno i] at hclient
    cases hclient
  · obtain ⟨hcard, hsub⟩ := fewWith_run ∅ hwaits ⟨hfew, Finset.empty_subset _⟩
    rw [confirmers_concat, hx, Option.toFinset_some] at henough
    have hle := Finset.card_insert_le i ((syncRun env own fuel s xs).ledgerInfo lid).ledgerStatusOk
    have hconf : (confirmers env own fuel lid s xs ∪ {i}).card ≤
        (insert i ((syncRun env own fuel s xs).ledgerInfo lid).ledgerStatusOk).card := by
      refine Finset.card_le_card ?_
      rw [Finset.empty_union] at hsub
      rw [Finset.union_comm, Finset.singleton_union]
      exact Finset.insert_subset_insert i hsub
    omega
  · rw [all_run hcard hall hwaits rfl, Finset.insert_eq_of_mem (hall i hclient)]
    exact hcard

/-! ## Runs in which the number is passed over -/

/-- a status that is ahead of no ledger -/
def behindStatus (lid : LedgerId) (i : NodeName) : SyncInput τ := .receive (.ledgerStatus ⟨lid, 0, ""⟩ i)

variable (lid) in
theorem confirmedBy_behindStatus {i : NodeName} (hclient : own.isClient i = false) :
    confirmedBy own s lid (behindStatus lid i) = some i := by
  unfold confirmedBy behindStatus
  exact if_pos ⟨rfl, hclient, Nat.zero_le _⟩

variable (env fuel) in
/-- once more than `2f` peers have confirmed, confirmations do not complete the catch-up -/
theorem passedOver_run {peers : List NodeName} (hpeers : ∀ i ∈ peers, own.isClient i = false) (hw : Waiting s lid)
    (hcard : 2 * own.f < (s.ledgerInfo lid).ledgerStatusOk.card) :
    StaysWaiting env own fuel lid s (peers.map (behindStatus lid)) ∧
      2 * own.f < ((syncRun env own fuel s (peers.map (behindStatus lid))).ledgerInfo lid).ledgerStatusOk.card ∧
      confirmers env own fuel lid s (peers.map (behindStatus lid)) = peers.toFinset := by
  induction peers generalizing s with
  | nil => exact ⟨hw, hcard, rfl⟩
  | cons i peers ih =>
    have hi := confirmedBy_behindStatus lid (s := s) (hpeers i List.mem_cons_self)
    have hle := Finset.card_le_card (Finset.subset_insert i (s.ledgerInfo lid).ledgerStatusOk)
    obtain ⟨hwait, hok⟩ := (syncInput_confirmed env fuel hw hi).2 (by omega)
    obtain ⟨h1, h2, h3⟩ := ih (s := syncInput env own fuel s (behindStatus lid i))
      (fun j hj => hpeers j (List.mem_cons_of_mem i hj)) hwait (by rw [hok]; omega)
    refine ⟨⟨hw, h1⟩, h2, ?_⟩
    rw [List.map_cons, confirmers, hi, h3, Option.toFinset_some, List.toFinset_cons, Finset.singleton_union]

/-- from more than `2f` confirmations, one more leaves the ledger waiting -/
theorem not_enoughComplete_of_run (peers : List NodeName) {j : NodeName} (xs : List (SyncInput τ))
    (hwaits : StaysWaiting env own fuel lid s xs) (hj : own.isClient j = false)
    (hfew : (insert j ((syncRun env own fuel s xs).ledgerInfo lid).ledgerStatusOk).card ≠ 2 * own.f)
    (hpeers : confirmers env own fuel lid s xs = peers.toFinset)
    (henough : max 1 (2 * own.f) ≤ (insert j peers.toFinset).card) : ¬ EnoughComplete env own fuel lid s := by
  intro h
  have hx := confirmedBy_behindStatus lid (s := syncRun env own fuel s xs) hj
  have hsynced := h xs (behindStatus lid j) hwaits (by rw [hx]; rfl) (by
    rw [confirmers_concat, hx, hpeers, Option.toFinset_some, Finset.union_comm, Finset.singleton_union]
    exact henough)
  have hw := ((syncInput_confirmed env fuel hwaits.finish hx).2 hfew).1
  rw [syncRun_concat, hw.2] at hsynced
  cases hsynced

theorem not_enoughComplete (hw : Waiting s lid)
    (hpeers : ∀ i ∈ (s.ledgerInfo lid).ledgerStatusOk, own.isClient i = false)
    (h : ¬ CanReachQuorum own (s.ledgerInfo lid).ledgerStatusOk) : ¬ EnoughComplete env own fuel lid s := by
  unfold CanReachQuorum at h
  push Not at h
  obtain ⟨⟨i₀, hi₀⟩, hover⟩ := h
  have hi₀ : own.isClient i₀ = false := Bool.eq_false_of_not_eq_true hi₀
  rcases Nat.eq_zero_or_pos own.f with hf | hf
  · -- no confirmation makes none of them
    have hne : (insert i₀ (s.ledgerInfo lid).ledgerStatusOk).card ≠ 2 * own.f := by
      rw [hf, mul_zero]
      exact Finset.card_ne_zero_of_mem (Finset.mem_insert_self _ _)
    refine not_enoughComplete_of_run [] [] hw hi₀ hne rfl ?_
    simp [hf]
  · obtain ⟨hle, hnew⟩ := hover hf
    rcases Nat.lt_or_eq_of_le hle with hlt | heq
    · -- they are too many already
      obtain ⟨T, hT, hcard⟩ := Finset.exists_subset_card_eq hle
      obtain ⟨j, hj⟩ : T.Nonempty := Finset.card_pos.1 (by omega)
      have hmem : ∀ i ∈ (T.erase j).toList, own.isClient i = false := fun i hi =>
        hpeers i (hT (Finset.mem_of_mem_erase (Finset.mem_toList.1 hi)))
      obtain ⟨h1, h2, h3⟩ := passedOver_run env fuel hmem hw hlt
      have hgrow := Finset.card_le_card (Finset.subset_insert j
        ((syncRun env own fuel s ((T.erase j).toList.map (behindStatus lid))).ledgerInfo lid).ledgerStatusOk)
      refine not_enoughComplete_of_run _ _ h1 (hpeers j (hT hj)) (by omega) h3 ?_
      rw [Finset.toList_toFinset, Finset.insert_erase hj]
      omega
    · -- a new peer makes them too many
      obtain ⟨i, hi, hout⟩ := hnew heq.symm
      have hi₁ := confirmedBy_behindStatus lid (s := s) hi
      have hover : (insert i (s.ledgerInfo lid).ledgerStatusOk).card = 2 * own.f + 1 := by
        rw [Finset.card_insert_of_notMem hout, heq]
      obtain ⟨hwait, hok⟩ := (syncInput_confirmed env fuel hw hi₁).2 (by omega)
      have hless : 2 * own.f - 1 ≤ (s.ledgerInfo lid).ledgerStatusOk.card := by omega
      obtain ⟨T, hT, hcard⟩ := Finset.exists_subset_card_eq hless
      obtain ⟨j, hj⟩ : T.Nonempty := Finset.card_pos.1 (by omega)
      have hmem : ∀ i ∈ (T.erase j).toList, own.isClient i = false := fun i hi =>
        hpeers i (hT (Finset.mem_of_mem_erase (Finset.mem_toList.1 hi)))
      obtain ⟨h1, h2, h3⟩ := passedOver_run env fuel hmem hwait (by rw [hok, hover]; omega)
      have hgrow := Finset.card_le_card (Finset.subset_insert j ((syncRun env own fuel
        (syncInput env own fuel s (behindStatus lid i)) ((T.erase j).toList.map (behindStatus lid))).ledgerInfo
        lid).ledgerStatusOk)
      have hconfirmers : confirmers env own fuel lid s (behindStatus lid i :: (T.erase j).toList.map (behindStatus lid)) =
          (i :: (T.erase j).toList).toFinset := by
        rw [confirmers, hi₁, h3, Option.toFinset_some, List.toFinset_cons, Finset.singleton_union]
      have hstays : StaysWaiting env own fuel lid s (behindStatus lid i :: (T.erase j).toList.map (behindStatus lid)) :=
        ⟨hw, h1⟩
      refine not_enoughComplete_of_run _ _ hstays (hpeers j (hT hj)) ?_ hconfirmers ?_
      · intro hfull
        have : syncRun env own fuel s (behindStatus lid i :: (T.erase j).toList.map (behindStatus lid)) =
            syncRun env own fuel (syncInput env own fuel s (behindStatus lid i))
              ((T.erase j).toList.map (behindStatus lid)) := rfl
        rw [this] at hfull
        omega
      · rw [List.toFinset_cons, Finset.toList_toFinset, Finset.insert_comm, Finset.insert_erase hj,
          Finset.card_insert_of_notMem fun h => hout (hT h)]
        omega

/-! ## The result -/

def PeersOnly (own : LedgerOwner O τ) (_ : LedgerState) (ok : Finset NodeName) : Prop := ∀ i ∈ ok, own.isClient i = false

theorem peersOnly_tracks : Tracks own (PeersOnly own) := by
  refine ⟨?_, fun i hi => absurd hi (Finset.notMem_empty i)⟩
  intro state ok i hi h
  refine Or.inr fun j hj => ?_
  rcases Finset.mem_insert.1 hj with rfl | hj
  · exact hi
  · exact h j hj

theorem peersOnly_run (owner : O) (inputs : List (SyncInput τ)) (lid : LedgerId) :
    Holds (PeersOnly own) lid (syncRun env own fuel (init owner : LedgerManager O τ) inputs) := by
  induction inputs using List.reverseRecOn with
  | nil =>
    intro i hi
    cases lid <;> exact absurd hi (Finset.notMem_empty i)
  | append_singleton xs x ih =>
    rw [syncRun_concat]
    exact peersOnly_tracks.syncInput (fun _ => ih) x

/-- **Enough confirmations complete a sync** if and only if one of them can make exactly `2f`. -/
theorem sync_completes_iff (owner : O) (inputs : List (SyncInput τ)) (lid : LedgerId)
    (hwaits : Waiting (syncRun env own fuel (init owner) inputs) lid) :
    EnoughComplete env own fuel lid (syncRun env own fuel (init owner) inputs) ↔
      CanReachQuorum own ((syncRun env own fuel (init owner) inputs).ledgerInfo lid).ledgerStatusOk := by
  constructor
  · intro h
    by_contra hcan
    exact not_enoughComplete hwaits (peersOnly_run owner inputs lid) hcan h
  · exact enoughComplete_of_canReachQuorum

end Waiting

end LedgerManager

/-! ## Witness -/

namespace FourNodes

open LedgerManager

def emptyStatus (i : NodeName) : SyncInput Char := .receive (.ledgerStatus ⟨.pool, 0, ""⟩ i)

/-- Delta syncs, hears from its three peers while it is synced, stops and starts again -/
def restarted : LedgerManager (PerLedger (Ledger Char)) Char :=
  syncRun ledgerEnv ledgerOwner 1 (init emptyLedgers)
    [.receive (.setLedgerCanSync .pool true), emptyStatus "Alpha", emptyStatus "Beta",
      emptyStatus "Alpha", emptyStatus "Beta", emptyStatus "Gamma",
      .setLedgerState .pool .notSynced, .receive (.setLedgerCanSync .pool true)]

/-- the same peers confirm once more, and the ledger is not synced -/
theorem confirmations_passed_over :
    Waiting restarted .pool ∧
      confirmers ledgerEnv ledgerOwner 1 .pool restarted [emptyStatus "Alpha", emptyStatus "Beta", emptyStatus "Gamma"] =
        {"Alpha", "Beta", "Gamma"} ∧
      ¬ EnoughComplete ledgerEnv ledgerOwner 1 .pool restarted := by
  refine ⟨by decide +kernel, by decide +kernel, ?_⟩
  intro h
  have hwaits : Waiting (syncInput ledgerEnv ledgerOwner 1 (syncInput ledgerEnv ledgerOwner 1 restarted
      (emptyStatus "Alpha")) (emptyStatus "Beta")) .pool := by decide +kernel
  have hsynced := h [emptyStatus "Alpha", emptyStatus "Beta"] (emptyStatus "Gamma")
    ⟨by decide +kernel, by decide +kernel, hwaits⟩ (by decide +kernel) (by decide +kernel)
  exact absurd hsynced (by decide +kernel)

theorem sync_completes_iff_delta :
    EnoughComplete ledgerEnv ledgerOwner 1 .pool
      (syncRun ledgerEnv ledgerOwner 1 (init emptyLedgers) [.receive (.setLedgerCanSync .pool true)]) :=
  (sync_completes_iff emptyLedgers [.receive (.setLedgerCanSync .pool true)] .pool (by decide +kernel)).2
    (Or.inr ⟨by decide, Or.inl (by decide +kernel)⟩)

end FourNodes

end Plenum
