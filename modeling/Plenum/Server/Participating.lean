/-
Whether a participating node has all its ledgers synced.

- `withMode`: a node with its mode, which its callbacks set. The node participates when all ledgers are caught up, and
  stops when the domain ledger is found out of sync, or the pool ledger is caught up and the domain ledger is next.
- `SetsMode`: all that is used of this.
- `PoolLeavesSync`: a consistency proof finds the pool ledger out of sync while the node participates. There is no
  callback for the pool ledger, so nothing stops the node.
- `participating_synced`: as long as that does not happen, a participating node has both ledgers synced, whatever messages
  come and whatever timers fire.
- `participating_pool_syncing`: where it happens, the node participates while it catches up its pool ledger.
-/
import Mathlib.Tactic
import Plenum.Core.Run
import Plenum.Common.LedgerFrame
import Plenum.Scenarios.CatchingUp

namespace Plenum

open Plenum.Core Plenum.Core.Exec

/-! ## The mode of a node -/

inductive Mode where
  | starting
  | discovering
  | discovered
  | syncing
  | synced
  | participating
deriving DecidableEq, Repr

variable {O τ : Type}

/-- a node beside its mode -/
structure NodeWithMode (O : Type) where
  mode : Option Mode
  node : O

namespace NodeWithMode

def setMode (mode : Mode) : Exec Exn (NodeWithMode O) PUnit := modify fun o => { o with mode := some mode }

/-- run a method that does not know the mode -/
def onNode (m : Exec Exn O Unit) : Exec Exn (NodeWithMode O) Unit := do
  let o ← get
  let r := exec m o.node
  modify fun o => { o with node := r.2 }
  match r.1 with
  | .ok _ => pure ()
  | .error e => throw e

theorem onNode_mode (m : Exec Exn O Unit) (o : NodeWithMode O) : (exec (onNode m) o).2.mode = o.mode := by
  unfold onNode
  rw [exec_bind, exec_get]
  dsimp only
  rw [exec_bind, exec_modify]
  cases (exec m o.node).1 <;> rfl

theorem onNode_node (m : Exec Exn O Unit) (o : NodeWithMode O) :
    (exec (onNode m) o).2.node = (exec m o.node).2 := by
  unfold onNode
  rw [exec_bind, exec_get]
  dsimp only
  rw [exec_bind, exec_modify]
  cases (exec m o.node).1 <;> rfl

end NodeWithMode

open NodeWithMode in
/-- a node whose callbacks set its mode. `caughtUpTill` is what `allLedgersCaughtUp` does before that -/
def withMode (own : LedgerOwner O τ) (caughtUpTill : ℤ → Exec Exn O Unit) : LedgerOwner (NodeWithMode O) τ where
  totalNodes := own.totalNodes
  f := own.f
  isClient := own.isClient
  conns o := own.conns o.node
  connecteds o := own.connecteds o.node
  ppSeqNoForTxnSeqNo o := own.ppSeqNoForTxnSeqNo o.node
  ledgers o := own.ledgers o.node
  setLedgers o ledgers := { o with node := own.setLedgers o.node ledgers }
  blacklistNode o nodeName := { o with node := own.blacklistNode o.node nodeName }
  preDomainLedgerCatchUp o := ⟨some .syncing, own.preDomainLedgerCatchUp o.node⟩
  poolLedgerCaughtUp := do
    setMode .discovered
    onNode own.poolLedgerCaughtUp
  postTxnFromCatchupAddedToLedger lid txn := onNode (own.postTxnFromCatchupAddedToLedger lid txn)
  allLedgersCaughtUp lastPpSeqNo := do
    onNode (caughtUpTill lastPpSeqNo)
    setMode .participating
    onNode (own.allLedgersCaughtUp lastPpSeqNo)
  ledgers_setLedgers o l := own.ledgers_setLedgers o.node l
  ledgers_blacklistNode o i := own.ledgers_blacklistNode o.node i
  ledgers_preDomainLedgerCatchUp o := own.ledgers_preDomainLedgerCatchUp o.node
  ledgers_poolLedgerCaughtUp o := by
    rw [setMode, exec_bind, exec_modify]
    dsimp only
    rw [onNode_node]
    exact own.ledgers_poolLedgerCaughtUp o.node
  ledgers_postTxn lid txn o := by
    rw [onNode_node]
    exact own.ledgers_postTxn lid txn o.node

/-- `preDomainLedgerCatchUp` sets the mode to `syncing`, `postPoolLedgerCaughtUp` starts with setting it to `discovered`,
`allLedgersCaughtUp` sets it to `participating` unless it raises before, and nothing else writes it -/
structure SetsMode (own : LedgerOwner O τ) (mode : O → Option Mode) : Prop where
  setLedgers : ∀ o ledgers, mode (own.setLedgers o ledgers) = mode o
  blacklistNode : ∀ o nodeName, mode (own.blacklistNode o nodeName) = mode o
  preDomainLedgerCatchUp : ∀ o, mode (own.preDomainLedgerCatchUp o) = some .syncing
  poolLedgerCaughtUp : ∀ o, mode (exec own.poolLedgerCaughtUp o).2 = some .discovered
  postTxn : ∀ lid txn o, mode (exec (own.postTxnFromCatchupAddedToLedger lid txn) o).2 = mode o
  allLedgersCaughtUp : ∀ lastPpSeqNo o, mode (exec (own.allLedgersCaughtUp lastPpSeqNo) o).2 = mode o ∨
    mode (exec (own.allLedgersCaughtUp lastPpSeqNo) o).2 = some .participating

theorem withMode_setsMode (own : LedgerOwner O τ) (caughtUpTill : ℤ → Exec Exn O Unit) :
    SetsMode (withMode own caughtUpTill) NodeWithMode.mode where
  setLedgers _ _ := rfl
  blacklistNode _ _ := rfl
  preDomainLedgerCatchUp _ := rfl
  poolLedgerCaughtUp o := by
    simp only [withMode, NodeWithMode.setMode, exec_bind, exec_modify]
    exact NodeWithMode.onNode_mode _ _
  postTxn lid txn o := NodeWithMode.onNode_mode _ _
  allLedgersCaughtUp lastPpSeqNo o := by
    have hmode := NodeWithMode.onNode_mode (caughtUpTill lastPpSeqNo) o
    simp only [withMode]
    rw [exec_bind]
    rcases hr : exec (NodeWithMode.onNode (caughtUpTill lastPpSeqNo)) o with ⟨e | a, o'⟩
    · left
      rwa [hr] at hmode
    · right
      simp only [NodeWithMode.setMode, exec_bind, exec_modify]
      exact NodeWithMode.onNode_mode _ _

/-- what reaches the ledger manager, the second timer included: it asks for transactions again, whichever and whomever, and
may be set again -/
inductive ManagerInput (τ : Type) where
  | ledger (x : LedgerInput τ)
  | checkIfTxnsNeeded (lid : LedgerId) (catchupReplyTimer : Option ℕ) (sent : List (LedgerMsg × Option NodeName))

namespace LedgerManager

variable (env : LedgerEnv τ) (own : LedgerOwner O τ) (mode : O → Option Mode) (fuel : ℕ)

def isParticipating (s : LedgerManager O τ) : Prop := mode s.owner = some .participating

instance (s : LedgerManager O τ) : Decidable (isParticipating mode s) := inferInstanceAs (Decidable (_ = _))

/-- the state after an input, also when its method raises -/
def managerInput (s : LedgerManager O τ) : ManagerInput τ → LedgerManager O τ
  | .ledger x => input env own fuel s x
  | .checkIfTxnsNeeded lid catchupReplyTimer sent =>
    { s.setLedgerInfo lid { s.ledgerInfo lid with catchupReplyTimer := catchupReplyTimer } with
      outBox := s.outBox ++ sent }

/-- what the registry says of a ledger once a proof is recorded -/
def withProof (s : LedgerManager O τ) (proof : ConsistencyProof) (frm : NodeName) : LedgerInfo τ :=
  { s.ledgerInfo proof.ledgerId with
    recvdConsistencyProofs := (s.ledgerInfo proof.ledgerId).recvdConsistencyProofs.set frm (some proof) }

/-- a proof of the pool ledger with which the node, while it participates, finds that ledger out of sync -/
def PoolLeavesSync (s : LedgerManager O τ) : ManagerInput τ → Prop
  | .ledger (.consistencyProof proof frm) => proof.ledgerId = .pool ∧ isParticipating mode s ∧
      (s.ledgerInfo .pool).canSync = true ∧ (s.ledgerInfo .pool).state = .synced ∧
      checkLedgerIsOutOfSync own (withProof s proof frm) = true
  | _ => False

instance (s : LedgerManager O τ) : ∀ x : ManagerInput τ, Decidable (PoolLeavesSync own mode s x)
  | .ledger (.consistencyProof _ _) => inferInstanceAs (Decidable (_ ∧ _ ∧ _ ∧ _ ∧ _))
  | .ledger (.ledgerStatus _ _) => inferInstanceAs (Decidable False)
  | .ledger (.catchupRep _ _) => inferInstanceAs (Decidable False)
  | .ledger (.setLedgerCanSync _ _) => inferInstanceAs (Decidable False)
  | .ledger (.checkIfCPsNeeded _) => inferInstanceAs (Decidable False)
  | .ledger (.tick _) => inferInstanceAs (Decidable False)
  | .checkIfTxnsNeeded _ _ _ => inferInstanceAs (Decidable False)

/-- a participating node has both ledgers synced -/
def SyncedIfParticipating (s : LedgerManager O τ) : Prop :=
  isParticipating mode s → ∀ lid, (s.ledgerInfo lid).state = .synced

/-! ## Writes that do not matter -/

/-- an invariant of the mode and the states of the ledgers that survives a ledger becoming synced and the node stopping to
participate -/
structure ModeFramed (I : LedgerManager O τ → Prop) : Prop where
  quiet : ∀ s s' : LedgerManager O τ, s'.ledgerRegistry = s.ledgerRegistry →
    (isParticipating mode s' → isParticipating mode s) → I s → I s'
  info : ∀ (s : LedgerManager O τ) lid info, info.state = (s.ledgerInfo lid).state ∨ info.state = .synced →
    I s → I (s.setLedgerInfo lid info)

variable {env own mode fuel} {I : LedgerManager O τ → Prop}

theorem notParticipating_framed : ModeFramed mode fun s : LedgerManager O τ => ¬ isParticipating mode s :=
  ⟨fun _ _ _ hmode hs => fun h => hs (hmode h), fun _ _ _ _ hs => hs⟩

theorem syncedIfParticipating_framed :
    ModeFramed mode (SyncedIfParticipating mode : LedgerManager O τ → Prop) := by
  constructor
  · intro s s' hreg hmode hs h lid
    have := hs (hmode h) lid
    unfold ledgerInfo at this ⊢
    rwa [hreg]
  · intro s lid info hinfo hs h lid'
    have hall := hs h
    rw [ledgerInfo_setLedgerInfo]
    split_ifs with hlid
    · rcases hinfo with hstate | hstate
      · rw [hstate]
        exact hall lid
      · exact hstate
    · exact hall lid'

namespace ModeFramed

variable (hI : ModeFramed mode I) (hm : SetsMode own mode)

include hI

theorem modifyLedgerInfo (lid : LedgerId) {g : LedgerInfo τ → LedgerInfo τ}
    (h : ∀ info, (g info).state = info.state ∨ (g info).state = .synced) :
    Keeps I (modifyLedgerInfo lid g : LedgerManagerM O τ Unit) := by
  apply Keeps.write
  intro s hs
  exact hI.info s lid _ (h _) hs

theorem write {g : LedgerManager O τ → LedgerManager O τ}
    (h : ∀ s, (g s).ledgerRegistry = s.ledgerRegistry ∧ (isParticipating mode (g s) → isParticipating mode s)) :
    Keeps I (modify g : LedgerManagerM O τ PUnit) := by
  apply Keeps.write
  intro s hs
  obtain ⟨hreg, hmode⟩ := h s
  exact hI.quiet s (g s) hreg hmode hs

theorem sendTo (msg : LedgerMsg) (receiver : Option NodeName) :
    Keeps I (sendTo msg receiver : LedgerManagerM O τ Unit) := hI.write fun _ => ⟨rfl, id⟩

theorem schedule (action : LedgerAction) (ticks : ℕ) : Keeps I (schedule action ticks : LedgerManagerM O τ Unit) :=
  hI.write fun _ => ⟨rfl, id⟩

theorem setLedgerCanSync (lid : LedgerId) (canSync : Bool) :
    Keeps I (setLedgerCanSync lid canSync : LedgerManagerM O τ Unit) := hI.modifyLedgerInfo lid fun _ => Or.inl rfl

/-- a method of the owner after which the node does not participate unless it did before -/
theorem callOwner {m : Exec Exn O Unit}
    (h : ∀ o, mode (exec m o).2 = some .participating → mode o = some .participating) :
    Keeps I (callOwner m : LedgerManagerM O τ Unit) :=
  keeps_callOwner fun s hs => hI.quiet s _ rfl (h s.owner) hs

theorem checkIfCPsNeeded (lid : LedgerId) : Keeps I (checkIfCPsNeeded own lid) := by
  apply Keeps.get_seq
  intro s
  refine Keeps.cond (Keeps.ret _) (Keeps.cond (Keeps.ret _) (Keeps.seq ?_ fun _ => ?_))
  · apply Keeps.get_seq
    intro s'
    split
    · exact Keeps.ret _
    · exact Keeps.raise _
    · exact hI.sendTo _ _
  · exact hI.modifyLedgerInfo lid fun _ => Or.inl rfl

theorem canStartCatchUpProcess (lid : LedgerId) : Keeps I (canStartCatchUpProcess env own lid) := by
  apply Keeps.get_seq
  intro s
  refine Keeps.seq ?_ fun _ => Keeps.seq (hI.write fun _ => ⟨rfl, id⟩) fun _ => Keeps.ret _
  apply Keeps.get_seq
  intro s
  refine Keeps.cond (Keeps.seq ?_ fun _ => hI.schedule _ _) (Keeps.ret _)
  exact hI.modifyLedgerInfo lid fun _ => Or.inl rfl

end ModeFramed

/-- taking a catch-up reply changes neither the mode nor the state of a ledger -/
theorem ModeFramed.repliesFramed (hI : ModeFramed mode I) (hm : SetsMode own mode) : RepliesFramed own I :=
  ⟨fun s ledgers hs => hI.quiet s _ rfl (fun h => (hm.setLedgers s.owner ledgers).symm.trans h) hs,
    fun s lid txn hs => hI.quiet s _ rfl (fun h => (hm.postTxn lid txn s.owner).symm.trans h) hs,
    fun s i hs => hI.quiet s _ rfl (fun h => (hm.blacklistNode s.owner i).symm.trans h) hs,
    fun s lid _ _ hs => hI.info s lid _ (Or.inl rfl) hs⟩

/-! ## A ledger that is caught up -/

section CaughtUp

variable (hI : ModeFramed mode I) (hm : SetsMode own mode)
  (hsynced : ∀ (s : LedgerManager O τ) o, (∀ lid, (s.ledgerInfo lid).state = .synced) → I (s.setOwner o))

include hI hsynced

omit hI in
/-- the node may participate now -/
theorem ModeFramed.callCaughtUp (m : ℤ → Exec Exn O Unit) :
    Keeps I (do
      let s ← get
      if (s.ledgerInfo .pool).state = .synced ∧ (s.ledgerInfo .domain).state = .synced then
        LedgerManager.callOwner (m s.lastCaughtUpPpSeqNo)
      else pure () : LedgerManagerM O τ Unit) := by
  apply Keeps.read
  intro s hs
  by_cases h : (s.ledgerInfo .pool).state = .synced ∧ (s.ledgerInfo .domain).state = .synced
  · rw [if_pos h]
    have hall : ∀ lid, (s.ledgerInfo lid).state = .synced := by
      intro lid
      cases lid with
      | pool => exact h.1
      | domain => exact h.2
    have howner := hsynced s (exec (m s.lastCaughtUpPpSeqNo) s.owner).2 hall
    unfold LedgerManager.callOwner
    rw [exec_bind, exec_get]
    dsimp only
    rw [exec_bind, exec_modify]
    cases (exec (m s.lastCaughtUpPpSeqNo) s.owner).1 <;> exact howner
  · rw [if_neg h]
    exact hs

theorem ModeFramed.completeCatchup {clbk : LedgerManagerM O τ Unit} (hclbk : Keeps I clbk) (lid : LedgerId)
    (lastPpSeqNo : ℤ) : Keeps I (completeCatchup own clbk lid lastPpSeqNo) := by
  refine Keeps.seq (hI.write fun _ => ⟨rfl, id⟩) fun _ => ?_
  refine Keeps.seq (hI.modifyLedgerInfo lid fun _ => Or.inr rfl) fun _ => ?_
  exact Keeps.seq hclbk fun _ => ModeFramed.callCaughtUp hsynced _

theorem ModeFramed.domainCatchupCompleted (lid : LedgerId) :
    Keeps I (domainCatchupCompleted own lid : LedgerManagerM O τ Unit) := by
  cases lid with
  | pool => exact Keeps.raise _
  | domain => exact hI.completeCatchup hsynced (Keeps.ret _) _ _

omit hsynced in
theorem ModeFramed.recordUnlessClient {completed : LedgerId → LedgerManagerM O τ Unit}
    (hcompleted : ∀ lid, Keeps I (completed lid)) (lid : LedgerId) (frm : NodeName) :
    Keeps I (recordUnlessClient own completed lid frm) := by
  refine Keeps.cond (Keeps.ret _) (Keeps.seq (hI.modifyLedgerInfo lid fun _ => Or.inl rfl) fun _ => ?_)
  apply Keeps.get_seq
  intro s
  exact Keeps.cond (hcompleted lid) (Keeps.ret _)

omit hsynced in
theorem ModeFramed.processLedgerStatusWith {completed : LedgerId → LedgerManagerM O τ Unit}
    (hcompleted : ∀ lid, Keeps I (completed lid)) (status : LedgerStatus) (frm : NodeName) :
    Keeps I (processLedgerStatusWith env own completed status frm) := by
  apply Keeps.get_seq
  intro s
  refine Keeps.cond (Keeps.ret _) (Keeps.seq ?_ fun _ => ?_)
  · apply Keeps.get_seq
    intro s'
    exact Keeps.cond (hI.sendTo _ _) (Keeps.ret _)
  · refine Keeps.cond ?_ (Keeps.cond ?_ (Keeps.cond ?_ ?_))
    · exact hI.modifyLedgerInfo _ fun _ => Or.inl rfl
    · refine Keeps.seq (keeps_buildConsistencyProof _ _ _) fun proof => ?_
      cases proof with
      | none => exact Keeps.ret _
      | some proof => exact Keeps.seq (hI.sendTo _ _) fun _ => hI.recordUnlessClient hcompleted _ _
    · exact Keeps.cond (Keeps.seq (hI.setLedgerCanSync _ _) fun _ => hI.sendTo _ _) (Keeps.ret _)
    · exact hI.recordUnlessClient hcompleted _ _

omit hsynced in
theorem ModeFramed.drainLedgerStatuses {completed : LedgerId → LedgerManagerM O τ Unit}
    (hcompleted : ∀ lid, Keeps I (completed lid)) (lid : LedgerId) (n : ℕ) :
    Keeps I (drainLedgerStatuses env own completed lid n) := by
  induction n with
  | zero => exact Keeps.raise _
  | succ n ih =>
    apply Keeps.get_seq
    intro s
    split
    · exact Keeps.ret _
    · refine Keeps.seq (hI.modifyLedgerInfo _ fun _ => Or.inl rfl) fun _ => ?_
      exact Keeps.seq (hI.processLedgerStatusWith hcompleted _ _) fun _ => ih

include hm

theorem ModeFramed.postPoolLedgerCaughtUp : Keeps I (postPoolLedgerCaughtUp env own fuel) := by
  refine Keeps.seq (hI.callOwner fun o ho => ?_) fun _ => ?_
  · rw [hm.poolLedgerCaughtUp o] at ho
    cases ho
  · refine Keeps.seq (hI.setLedgerCanSync _ _) fun _ => ?_
    apply Keeps.get_seq
    intro s
    refine Keeps.seq (Keeps.each fun nm _ => hI.sendTo _ _) fun _ => ?_
    exact hI.drainLedgerStatuses (hI.domainCatchupCompleted hsynced) _ _

theorem ModeFramed.catchupCompleted (lid : LedgerId) (lastPpSeqNo : ℤ) :
    Keeps I (catchupCompleted env own fuel lid lastPpSeqNo) := by
  cases lid with
  | pool => exact hI.completeCatchup hsynced (hI.postPoolLedgerCaughtUp hm hsynced) _ _
  | domain => exact hI.completeCatchup hsynced (Keeps.ret _) _ _

theorem ModeFramed.processLedgerStatus (status : LedgerStatus) (frm : NodeName) :
    Keeps I (processLedgerStatus env own fuel status frm) :=
  hI.processLedgerStatusWith (fun lid => hI.catchupCompleted hm hsynced lid _) status frm

theorem ModeFramed.processCatchupRep (rep : CatchupRep τ) (frm : NodeName) :
    Keeps I (processCatchupRep env own fuel rep frm) := by
  refine Keeps.seq ((hI.repliesFramed hm).mergeCatchupRep rep frm) fun merged => Keeps.cond ?_ (Keeps.ret _)
  apply Keeps.get_seq
  intro s
  split
  · exact Keeps.raise _
  · refine Keeps.cond (Keeps.seq (hI.modifyLedgerInfo _ fun _ => Or.inl rfl) fun _ => ?_) (Keeps.ret _)
    exact hI.catchupCompleted hm hsynced _ _

end CaughtUp

/-! ## Consistency proofs -/

variable (hm : SetsMode own mode)

include hm

/-- starting a catch-up does not make the node participate -/
theorem syncedIfParticipating_startCatchUpProcess (lid : LedgerId) (proof : Option ConsistencyProof)
    (s : LedgerManager O τ) (hs : SyncedIfParticipating mode s) (hmode : ¬ isParticipating mode s) :
    SyncedIfParticipating mode (exec (startCatchUpProcess env own fuel lid proof) s).2 := by
  cases proof with
  | none =>
    exact syncedIfParticipating_framed.catchupCompleted hm (fun _ _ hall _ => hall) lid _ s hs
  | some p =>
    have hJ : ModeFramed mode fun s : LedgerManager O τ => ¬ isParticipating mode s := notParticipating_framed
    have hkeeps : Keeps (fun s => ¬ isParticipating mode s) (startCatchUpProcess env own fuel lid (some p)) := by
      refine Keeps.seq (Keeps.write fun s hs => hs) fun _ => ?_
      apply Keeps.get_seq
      intro s
      split
      · exact Keeps.raise _
      · refine Keeps.seq (Keeps.each fun e _ => hJ.sendTo _ _) fun _ => ?_
        refine Keeps.seq (Keeps.write fun s hs => hs) fun _ => ?_
        split
        · exact Keeps.ret _
        · exact Keeps.seq (Keeps.write fun s hs => hs) fun _ => hJ.schedule _ _
    intro hpart
    exact absurd hpart (hkeeps s hmode)

/-- only a node that does not participate goes on with a proof, unless it has found its pool ledger out of sync -/
theorem canProcessConsistencyProof_stops (proof : ConsistencyProof) (s : LedgerManager O τ)
    (hs : SyncedIfParticipating mode s)
    (hok : ¬ (proof.ledgerId = .pool ∧ isParticipating mode s ∧ (s.ledgerInfo .pool).canSync = true ∧
      (s.ledgerInfo .pool).state = .synced ∧ checkLedgerIsOutOfSync own (s.ledgerInfo .pool) = true)) :
    SyncedIfParticipating mode (exec (canProcessConsistencyProof own proof) s).2 ∧
      ((exec (canProcessConsistencyProof own proof) s).1 = .ok true →
        ¬ isParticipating mode (exec (canProcessConsistencyProof own proof) s).2) := by
  unfold canProcessConsistencyProof
  rw [exec_bind, exec_get]
  dsimp only
  by_cases hcan : (s.ledgerInfo proof.ledgerId).canSync = false
  · rw [if_pos hcan]
    exact ⟨hs, fun h => by cases h⟩
  · rw [if_neg hcan]
    cases hstate : (s.ledgerInfo proof.ledgerId).state with
    | syncing => exact ⟨hs, fun h => by cases h⟩
    | notSynced =>
      refine ⟨hs, fun _ hpart => ?_⟩
      have hsynced := hs hpart proof.ledgerId
      rw [hstate] at hsynced
      cases hsynced
    | synced =>
      dsimp only
      by_cases hout : checkLedgerIsOutOfSync own (s.ledgerInfo proof.ledgerId) = true
      · rw [if_pos hout]
        have hnot : ¬ isParticipating mode (exec (do
            setLedgerState proof.ledgerId .notSynced
            preCatchupStart own proof.ledgerId
            let s ← get
            pure (canProcessRange own s proof)) s).2 := by
          cases hlid : proof.ledgerId with
          | pool =>
            intro hpart
            simp only [hlid] at hcan hstate hout
            exact hok ⟨hlid, hpart, by simpa using hcan, hstate, hout⟩
          | domain =>
            intro hpart
            have hmode : some Mode.syncing = some Mode.participating :=
              (hm.preDomainLedgerCatchUp s.owner).symm.trans hpart
            cases hmode
        exact ⟨fun hpart => absurd hpart hnot, fun _ => hnot⟩
      · rw [if_neg hout]
        exact ⟨hs, fun h => by cases h⟩

/-- a consistency proof that does not take the pool ledger out of sync -/
theorem syncedIfParticipating_processConsistencyProof (proof : ConsistencyProof) (frm : NodeName)
    (s : LedgerManager O τ) (hs : SyncedIfParticipating mode s)
    (hok : ¬ PoolLeavesSync own mode s (.ledger (.consistencyProof proof frm))) :
    SyncedIfParticipating mode (exec (processConsistencyProof env own fuel proof frm) s).2 := by
  have hrecorded : SyncedIfParticipating mode (s.setLedgerInfo proof.ledgerId (withProof s proof frm)) :=
    syncedIfParticipating_framed.info s _ _ (Or.inl rfl) hs
  obtain ⟨hcan, hstops⟩ := canProcessConsistencyProof_stops hm proof _ hrecorded <| by
    rintro ⟨hlid, hpart, hcan, hstate, hout⟩
    simp only [ledgerInfo_setLedgerInfo, hlid, if_true] at hcan hstate hout
    refine hok ⟨hlid, hpart, ?_, ?_, hout⟩
    · simpa [withProof, hlid] using hcan
    · simpa [withProof, hlid] using hstate
  unfold processConsistencyProof
  rw [exec_bind]
  change SyncedIfParticipating mode (exec _ (s.setLedgerInfo proof.ledgerId (withProof s proof frm))).2
  rw [exec_bind]
  rcases hr : exec (canProcessConsistencyProof own proof) (s.setLedgerInfo proof.ledgerId (withProof s proof frm))
    with ⟨e | canProcess, s1⟩
  · rw [hr] at hcan
    exact hcan
  · rw [hr] at hcan hstops
    cases canProcess with
    | false => exact hcan
    | true =>
      have hnot := hstops rfl
      dsimp only
      rw [if_pos rfl, exec_bind]
      have hcan2 : SyncedIfParticipating mode (exec (canStartCatchUpProcess env own proof.ledgerId) s1).2 :=
        syncedIfParticipating_framed.canStartCatchUpProcess _ s1 hcan
      have hnot2 : ¬ isParticipating mode (exec (canStartCatchUpProcess env own proof.ledgerId) s1).2 :=
        notParticipating_framed.canStartCatchUpProcess _ s1 hnot
      rcases hr2 : exec (canStartCatchUpProcess env own proof.ledgerId) s1 with ⟨e | verdict, s2⟩
      · rw [hr2] at hcan2
        exact hcan2
      · rw [hr2] at hcan2 hnot2
        dsimp only
        by_cases hverdict : verdict.1 = true
        · rw [if_pos hverdict]
          exact syncedIfParticipating_startCatchUpProcess hm _ _ s2 hcan2 hnot2
        · rw [if_neg hverdict]
          exact hcan2

/-- one step of a run -/
theorem syncedIfParticipating_managerInput (s : LedgerManager O τ) (x : ManagerInput τ)
    (hs : SyncedIfParticipating mode s) (hok : ¬ PoolLeavesSync own mode s x) :
    SyncedIfParticipating mode (managerInput env own fuel s x) := by
  have hI : ModeFramed mode (SyncedIfParticipating (O := O) (τ := τ) mode) := syncedIfParticipating_framed
  cases x with
  | checkIfTxnsNeeded lid catchupReplyTimer sent =>
    exact hI.quiet _ _ rfl id (hI.info s lid _ (Or.inl rfl) hs)
  | ledger x =>
    cases x with
    | ledgerStatus m frm => exact hI.processLedgerStatus hm (fun _ _ hall _ => hall) m frm s hs
    | consistencyProof m frm => exact syncedIfParticipating_processConsistencyProof hm m frm s hs hok
    | catchupRep m frm => exact hI.processCatchupRep hm (fun _ _ hall _ => hall) m frm s hs
    | setLedgerCanSync lid canSync => exact hI.setLedgerCanSync lid canSync s hs
    | checkIfCPsNeeded lid => exact hI.checkIfCPsNeeded lid s hs
    | tick perfCounter => exact hI.quiet _ _ rfl id hs

end LedgerManager

/-! ## Runs -/

/-- **Participating means synced.** In a run in which no consistency proof takes the pool ledger out of sync while the node
participates, a participating node has both its ledgers synced, whatever else it is sent and whichever timers fire. -/
theorem participating_synced (env : LedgerEnv τ) (own : LedgerOwner O τ) (caughtUpTill : ℤ → Exec Exn O Unit) (fuel : ℕ)
    (owner : NodeWithMode O) (hmode : owner.mode ≠ some .participating) (s : LedgerManager (NodeWithMode O) τ)
    (hs : Core.Reach (fun s x => some (LedgerManager.managerInput env (withMode own caughtUpTill) fuel s x))
      (fun s x _ => ¬ LedgerManager.PoolLeavesSync (withMode own caughtUpTill) NodeWithMode.mode s x)
      (LedgerManager.init owner) s)
    (hpart : LedgerManager.isParticipating NodeWithMode.mode s) (lid : LedgerId) :
    (s.ledgerInfo lid).state = .synced := by
  have hinv : LedgerManager.SyncedIfParticipating NodeWithMode.mode s := by
    have hinit : LedgerManager.SyncedIfParticipating NodeWithMode.mode (LedgerManager.init owner : LedgerManager _ τ) :=
      fun h => absurd h hmode
    refine Core.Reach.inv hinit ?_ hs
    intro w x w' hw hstep hok
    cases hstep
    exact LedgerManager.syncedIfParticipating_managerInput (withMode_setsMode own caughtUpTill) w x hw hok
  exact hinv hpart lid

/-! ## Witnesses -/

namespace PoolOutOfSync

open FourNodes

abbrev Delta := LedgerManager (NodeWithMode (PerLedger (Ledger Char))) Char

def node : LedgerOwner (NodeWithMode (PerLedger (Ledger Char))) Char := withMode ledgerOwner fun _ => pure ()

/-- Delta starts with empty ledgers, like its peers -/
def start : Delta := LedgerManager.init ⟨some .starting, emptyLedgers⟩

def step (s : Delta) (x : ManagerInput Char) : Option Delta := some (LedgerManager.managerInput ledgerEnv node 1 s x)

/-- Delta hears from two of them that nothing is missing -/
def caughtUp : List (ManagerInput Char) :=
  [.ledger (.setLedgerCanSync .pool true), .ledger (.ledgerStatus ⟨.pool, 0, ""⟩ "Alpha"),
   .ledger (.ledgerStatus ⟨.pool, 0, ""⟩ "Beta"), .ledger (.ledgerStatus ⟨.domain, 0, ""⟩ "Alpha"),
   .ledger (.ledgerStatus ⟨.domain, 0, ""⟩ "Beta")]

/-- later, that the pool ledger has three more transactions, for which all of them send proofs -/
def behind : List (ManagerInput Char) :=
  [.ledger (.ledgerStatus ⟨.pool, 3, "abc"⟩ "Alpha"), .ledger (.consistencyProof toAbc "Alpha"),
   .ledger (.consistencyProof toAbc "Beta"), .ledger (.consistencyProof toAbc "Gamma")]

def InSync (s : Delta) (x : ManagerInput Char) : Prop := ¬ LedgerManager.PoolLeavesSync node NodeWithMode.mode s x

instance (s : Delta) (x : ManagerInput Char) : Decidable (InSync s x) := inferInstanceAs (Decidable (¬ _))

theorem caughtUp_isSome : (runAll step (fun s x _ => InSync s x) start caughtUp).isSome := by decide +kernel

theorem behind_isSome : (runAll step (fun _ _ _ => True) start (caughtUp ++ behind)).isSome := by decide +kernel

end PoolOutOfSync

open PoolOutOfSync FourNodes in
theorem participating_synced_caughtUp : ∃ s, Core.Reach step (fun s x _ => InSync s x) start s ∧
    s.owner.mode = some .participating ∧ (s.ledgerInfo .pool).state = .synced ∧
    (s.ledgerInfo .domain).state = .synced := by
  obtain ⟨s, hs, hpart⟩ : ∃ s, Core.Reach step (fun s x _ => InSync s x) start s ∧
      s.owner.mode = some .participating := ⟨_, reach_get caughtUp caughtUp_isSome, by decide +kernel⟩
  have hsynced := participating_synced ledgerEnv ledgerOwner (fun _ => pure ()) 1 ⟨some .starting, emptyLedgers⟩
    (by decide) s hs hpart
  exact ⟨s, hs, hpart, hsynced .pool, hsynced .domain⟩

open PoolOutOfSync in
/-- a node that participates while it catches up its pool ledger -/
theorem participating_pool_syncing : ∃ s, Core.Reach step (fun _ _ _ => True) start s ∧
    s.owner.mode = some .participating ∧ (s.ledgerInfo .pool).state = .syncing :=
  ⟨_, reach_get (caughtUp ++ behind) behind_isSome, by decide +kernel, by decide +kernel⟩

end Plenum
