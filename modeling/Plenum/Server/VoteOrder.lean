/-
In which order the votes for a batch arrive.

A backup gets the PRE-PREPARE of a batch, the PREPAREs of `2f` backups or more and the COMMITs of `2f + 1` nodes or
more, each once, in some order.

- `Voting`: what a replica that takes part in the vote on the batch looks like.
- `exec_commit_early`: a COMMIT before the PRE-PREPARE waits for it.
- `exec_prePrepare`: the PRE-PREPARE takes the waiting COMMITs up again before the own PREPARE is sent. With no
  PREPARE for the batch they are dropped.
- `not_orderIrrelevant`: so the order matters, whatever the batch and the voters are.
-/
import Mathlib.Tactic
import Plenum.Server.Replica
import Plenum.Scenarios.FourNodes

namespace Plenum

open Plenum.Core Plenum.Core.Exec

namespace Replica

variable {ω σ τ : Type} {env : Env ω σ τ} {fuel : ℕ} {s : Replica ω σ τ}

/-! ## What validation leaves alone -/

/-- the state with other COMMITs waiting -/
def setWaiting (w : Dict TPCKey (List (Commit × RepName))) (s : Replica ω σ τ) : Replica ω σ τ :=
  { s with commitsWaitingForPrepare := w }

theorem ignores_finalisedReq (w : Dict TPCKey (List (Commit × RepName))) (key : ReqKey) :
    Ignores (setWaiting w) (finalisedReq key : ReplicaM ω σ τ (Request ω)) := by
  refine Ignores.get_seq (fun _ => rfl) fun s => ?_
  cases s.node.requests.get? key with
  | none => exact Ignores.raise _
  | some state =>
    cases hf : state.finalised with
    | none => simp only [hf]; exact Ignores.raise _
    | some req => simp only [hf]; exact Ignores.ret _

theorem ignores_processReqs (w : Dict TPCKey (List (Commit × RepName))) (keys : List ReqKey) (acc : ReqLists ω) :
    Ignores (setWaiting w) (processReqs env keys acc) := by
  induction keys generalizing acc with
  | nil => exact Ignores.ret _
  | cons key keys ih =>
    refine Ignores.seq (ignores_finalisedReq w key) fun req => Ignores.seq ?_ fun acc => ih acc
    refine Ignores.get_seq (fun _ => rfl) fun s => Ignores.cond ?_ (Ignores.ret _)
    cases s.node.dbs.doDynamicValidation env req with
    | some reason => exact Ignores.ret _
    | none => exact Ignores.seq (Ignores.write fun _ => rfl) fun _ => Ignores.ret _

theorem ignores_rejectPrePrepare (w : Dict TPCKey (List (Commit × RepName))) (pp : PrePrepare) (sender : RepName)
    (oldStateRoot : Option σ) (validCount : ℕ) (suspicion : Suspicion) :
    Ignores (setWaiting w) (rejectPrePrepare env pp sender oldStateRoot validCount suspicion) := by
  refine Ignores.seq ?_ fun _ => Ignores.raise _
  cases oldStateRoot with
  | none => exact Ignores.ret _
  | some root => exact Ignores.write fun _ => rfl

/-- validation does not look at the COMMITs that wait -/
theorem ignores_validatePrePrepare (env : Env ω σ τ) (w : Dict TPCKey (List (Commit × RepName))) (pp : PrePrepare)
    (sender : RepName) : Ignores (setWaiting w) (validatePrePrepare env pp sender) := by
  refine Ignores.get_seq (fun _ => rfl) fun s => Ignores.seq (ignores_processReqs w _ _) fun acc => ?_
  have hreject := fun suspicion => @ignores_rejectPrePrepare ω σ τ env w pp sender (s.stateHead pp.ledgerId)
    acc.validReqs.length suspicion
  refine Ignores.cond (hreject _) (Ignores.cond (hreject _) ?_)
  refine Ignores.get_seq (fun _ => rfl) fun s => Ignores.cond ?_ (Ignores.ret _)
  exact Ignores.cond (hreject _) (Ignores.cond (hreject _) (Ignores.write fun _ => rfl))

/-- the state with other databases and another outbox -/
def OnlyDbs (s s' : Replica ω σ τ) : Prop := ∃ dbs out, s' = { s.setDbs dbs with outBox := out }

theorem OnlyDbs.refl (s : Replica ω σ τ) : OnlyDbs s s := ⟨s.node.dbs, s.outBox, rfl⟩

section Validation

variable {I : Replica ω σ τ → Prop} (hdbs : ∀ s dbs, I s → I (s.setDbs dbs))

include hdbs

theorem keeps_processReqs (keys : List ReqKey) (acc : ReqLists ω) : Keeps I (processReqs env keys acc) := by
  induction keys generalizing acc with
  | nil => exact Keeps.ret _
  | cons key keys ih =>
    refine Keeps.seq ?_ fun req => Keeps.seq ?_ fun acc => ih acc
    · refine Keeps.get_seq fun s => ?_
      cases s.node.requests.get? key with
      | none => exact Keeps.raise _
      | some state =>
        cases hf : state.finalised with
        | none => simp only [hf]; exact Keeps.raise _
        | some req => simp only [hf]; exact Keeps.ret _
    · refine Keeps.get_seq fun s => Keeps.cond ?_ (Keeps.ret _)
      cases s.node.dbs.doDynamicValidation env req with
      | some reason => exact Keeps.ret _
      | none => exact Keeps.seq (Keeps.write fun s hs => hdbs s _ hs) fun _ => Keeps.ret _

/-- validation keeps what other databases and more rejects do not change -/
theorem keeps_validation (env : Env ω σ τ)
    (hrejects : ∀ s (rejects : List Reject), I s → I (s.appendOutBox (rejects.map OutMsg.reject)))
    (pp : PrePrepare) (sender : RepName) : Keeps I (validatePrePrepare env pp sender) := by
  refine Keeps.get_seq fun s => Keeps.seq (keeps_processReqs hdbs _ _) fun acc => ?_
  have hreject : ∀ suspicion, Keeps I
      (rejectPrePrepare env pp sender (s.stateHead pp.ledgerId) acc.validReqs.length suspicion) := by
    intro suspicion
    refine Keeps.seq ?_ fun _ => Keeps.raise _
    cases s.stateHead pp.ledgerId with
    | none => exact Keeps.ret _
    | some root => exact Keeps.write fun s hs => hdbs s _ hs
  refine Keeps.cond (hreject _) (Keeps.cond (hreject _) ?_)
  refine Keeps.get_seq fun s => Keeps.cond ?_ (Keeps.ret _)
  exact Keeps.cond (hreject _) (Keeps.cond (hreject _) (Keeps.write fun s hs => hrejects s _ hs))

end Validation

/-- validation changes the databases and the outbox only -/
theorem keeps_validatePrePrepare (env : Env ω σ τ) (s₀ : Replica ω σ τ) (pp : PrePrepare) (sender : RepName) :
    Keeps (OnlyDbs s₀) (validatePrePrepare env pp sender) := by
  refine keeps_validation ?_ env ?_ pp sender
  · rintro _ dbs ⟨_, out, rfl⟩
    exact ⟨dbs, out, rfl⟩
  · rintro _ rejects ⟨dbs, out, rfl⟩
    exact ⟨dbs, out ++ rejects.map OutMsg.reject, rfl⟩

/-! ## Taking part in a vote -/

/-- who votes: a replica, the primary of its instance, and how many faults are tolerated -/
structure Electorate where
  me : RepName
  primary : RepName
  f : ℕ

/-- a backup that takes part in the vote on the batch of `pp` -/
structure Voting (E : Electorate) (pp : PrePrepare) (s : Replica ω σ τ) : Prop where
  name : s.name = E.me
  instId : s.instId = E.me.instId
  primaryName : s.primaryName = some E.primary
  backup : E.primary ≠ E.me
  participating : s.node.isParticipating = true
  viewNo : pp.viewNo = s.node.viewNo
  faults : s.node.f = E.f
  unstable : s.isPpSeqNoStable pp.ppSeqNo = false
  between : s.isPpSeqNoBetweenWaterMarks pp.ppSeqNo = true
  unstashed : s.isStashedWhileCatchingUp pp.key = false
  unsent : s.sentPrePrepares.contains pp.key = false

variable {E : Electorate} {pp : PrePrepare}

/-- the part of a replica that no vote changes -/
def standing (s : Replica ω σ τ) :=
  (s.name, s.instId, s.primaryName, s.node.isParticipating, s.node.viewNo, s.node.f, s.checkpoints, s.h, s.H,
    s.stashingWhileCatchingUp, s.sentPrePrepares)

theorem Voting.of_standing {s' : Replica ω σ τ} (h : Voting E pp s) (hsame : standing s' = standing s) :
    Voting E pp s' := by
  simp only [standing, Prod.mk.injEq] at hsame
  obtain ⟨hname, hinst, hprimary, hpart, hview, hf, hck, hlow, hhigh, hstash, hsent⟩ := hsame
  refine ⟨hname ▸ h.name, hinst ▸ h.instId, hprimary ▸ h.primaryName, h.backup, hpart ▸ h.participating,
    hview ▸ h.viewNo, hf ▸ h.faults, ?_, ?_, ?_, hsent ▸ h.unsent⟩
  · have hunstable := h.unstable
    unfold isPpSeqNoStable at hunstable ⊢
    rwa [hck]
  · have hbetween := h.between
    unfold isPpSeqNoBetweenWaterMarks at hbetween ⊢
    rwa [hlow, hhigh]
  · have hunstashed := h.unstashed
    unfold isStashedWhileCatchingUp at hunstashed ⊢
    rwa [hstash]

theorem Voting.isPrimary (h : Voting E pp s) : s.isPrimary = some false := by
  unfold Replica.isPrimary
  rw [h.primaryName, h.name]
  simp [h.backup]

theorem Voting.getPrePrepare (h : Voting E pp s) : s.getPrePrepare pp.key = s.prePrepares.get? pp.key := by
  unfold Replica.getPrePrepare
  rw [h.unsent]
  simp

theorem Voting.exec_isPrimaryForMsg (h : Voting E pp s) :
    exec (isPrimaryForMsg pp.viewNo : ReplicaM ω σ τ (Option Bool)) s = (.ok (some false), s) := by
  unfold isPrimaryForMsg
  rw [exec_bind, exec_get]
  dsimp only
  rw [if_pos h.viewNo, h.isPrimary]
  rfl

/-- a message for the batch reaches its method -/
theorem Voting.exec_processThreePhaseMsg (h : Voting E pp s) {m : ThreePhaseMsg} (hview : m.viewNo = pp.viewNo)
    (hseq : m.ppSeqNo = pp.ppSeqNo) (sender : NodeName) :
    exec (processThreePhaseMsg env (fuel + 1) m sender) s =
      exec (reportingSuspicions (threePhaseRouter env (fuel + 1) (dispatchThreePhaseMsg env (fuel + 1) fuel) m
        (generateName sender E.me.instId))) s := by
  have hinView : exec (canPpSeqNoBeInView m.viewNo m.ppSeqNo : ReplicaM ω σ τ Bool) s = (.ok true, s) := by
    unfold canPpSeqNoBeInView
    rw [exec_bind, exec_get]
    dsimp only
    rw [hview, h.viewNo, if_neg (lt_irrefl _)]
    simp [exec_pure]
  unfold processThreePhaseMsg
  rw [exec_bind, exec_get]
  dsimp only
  rw [h.isPrimary, if_neg (by simp), dispatchThreePhaseMsg, dispatchOnce, exec_bind, exec_get]
  dsimp only
  rw [hseq, h.unstable, h.between, h.instId, ← hseq]
  simp only [Bool.false_eq_true, if_false, if_true]
  unfold reportingSuspicions
  rw [exec_tryCatch, exec_tryCatch, exec_bind, hinView]
  rfl

/-! ## COMMITs before the PRE-PREPARE -/

/-- the COMMIT for the batch -/
def commitFor (E : Electorate) (pp : PrePrepare) : Commit := ⟨E.me.instId, pp.viewNo, pp.ppSeqNo⟩

theorem Voting.setWaiting (h : Voting E pp s) (w : Dict TPCKey (List (Commit × RepName))) :
    Voting E pp (s.setWaiting w) := h.of_standing rfl

theorem Voting.exec_commit_early (env : Env ω σ τ) (fuel : ℕ) (h : Voting E pp s)
    (hnone : s.prePrepares.get? pp.key = none) (sender : NodeName) :
    exec (processThreePhaseMsg env (fuel + 1) (.commit (commitFor E pp)) sender) s =
      (.ok (), s.setWaiting (s.commitsWaitingForPrepare.set pp.key
        ((s.commitsWaitingForPrepare.get? pp.key).getD [] ++
          [(commitFor E pp, generateName sender E.me.instId)]))) := by
  have hkey : (commitFor E pp).key = pp.key := rfl
  have hget : s.getPrePrepare pp.key = none := h.getPrePrepare.trans hnone
  have hstable : s.isPpSeqNoStable ((commitFor E pp).ppSeqNo) = false := h.unstable
  rw [h.exec_processThreePhaseMsg (m := .commit (commitFor E pp)) rfl rfl]
  unfold threePhaseRouter reportingSuspicions
  rw [exec_tryCatch]
  unfold processCommit validateCommit enqueueCommit
  simp only [exec_bind, exec_get, hstable, hkey, hget, exec_modify, exec_pure, Bool.false_eq_true, if_false]
  rfl

/-! ## The PRE-PREPARE -/

/-- with no PREPARE for the batch the COMMITs that wait are dropped -/
theorem exec_drainCommits (env : Env ω σ τ) (dispatch : ThreePhaseMsg → NodeName → ReplicaM ω σ τ Unit)
    (h : Voting E pp s)
    (hsome : s.prePrepares.get? pp.key = some pp) (hprep : s.prepares.contains pp.key = false)
    (hwait : s.preparesWaitingForPrePrepare.contains pp.key = false) {n : ℕ} {l : List (Commit × RepName)}
    (hl : ∀ e ∈ l, e.1 = commitFor E pp) (hn : l.length < n) {w : Dict TPCKey (List (Commit × RepName))}
    (hw : w.get? pp.key = some l) :
    ∃ w', exec (drainCommits env dispatch pp.key n) (s.setWaiting w) = (.ok (), s.setWaiting w') := by
  induction n generalizing l w with
  | zero => omega
  | succ n ih =>
    cases l with
    | nil =>
      refine ⟨w, ?_⟩
      rw [drainCommits, exec_bind, exec_get]
      simp only [Replica.setWaiting, hw, exec_pure]
    | cons e rest =>
      obtain ⟨c, sender⟩ := e
      obtain rfl : c = commitFor E pp := hl _ List.mem_cons_self
      have hdrop : exec (processCommit env dispatch (commitFor E pp) sender) (s.setWaiting (w.set pp.key rest)) =
          (.ok (), s.setWaiting (w.set pp.key rest)) := by
        have hv := h.setWaiting (w.set pp.key rest)
        have hstable : (s.setWaiting (w.set pp.key rest)).isPpSeqNoStable ((commitFor E pp).ppSeqNo) = false :=
          h.unstable
        have hget : (s.setWaiting (w.set pp.key rest)).getPrePrepare pp.key = some pp := hv.getPrePrepare.trans hsome
        have hkey : (commitFor E pp).key = pp.key := rfl
        unfold processCommit validateCommit
        simp only [exec_bind, exec_get, hstable, hkey, hget, Bool.false_eq_true, if_false]
        simp [Replica.setWaiting, hprep, hwait, exec_pure]
      obtain ⟨w', hw'⟩ := ih (fun e he => hl e (List.mem_cons_of_mem _ he)) (by simpa using hn)
        (Dict.get?_set_self w pp.key rest)
      refine ⟨w', ?_⟩
      rw [drainCommits, exec_bind, exec_get]
      have hw2 : (s.setWaiting w).commitsWaitingForPrepare.get? pp.key = some ((commitFor E pp, sender) :: rest) := hw
      have hpop : exec (modify fun s : Replica ω σ τ =>
          { s with commitsWaitingForPrepare := s.commitsWaitingForPrepare.set pp.key rest } : ReplicaM ω σ τ PUnit)
          (s.setWaiting w) = (.ok ⟨⟩, s.setWaiting (w.set pp.key rest)) := rfl
      simp only [hw2]
      rw [exec_bind, hpop]
      dsimp only
      rw [exec_bind, hdrop]
      exact hw'

/-- a backup that has got nothing for the batch yet -/
structure Fresh (E : Electorate) (pp : PrePrepare) (s : Replica ω σ τ) : Prop extends Voting E pp s where
  noPrePrepare : s.prePrepares.get? pp.key = none
  noPrepares : s.prepares.contains pp.key = false
  noCommits : s.commits.contains pp.key = false
  noPreparesWaiting : s.preparesWaitingForPrePrepare.contains pp.key = false
  unordered : s.hasOrdered pp.key = false

/-- a backup that has got the PRE-PREPARE, and PREPAREs from `voters`, its own among them -/
structure Prepared (E : Electorate) (pp : PrePrepare) (voters : Finset RepName) (s : Replica ω σ τ) : Prop
    extends Voting E pp s where
  prePrepare : s.prePrepares.get? pp.key = some pp
  prepares : s.prepares.contains pp.key = true
  voters_eq : s.prepares.voters pp.key = voters
  commits : s.commits.voters pp.key ⊆ {E.me}

theorem Fresh.onlyDbs {s' : Replica ω σ τ} (h : Fresh E pp s) (hs' : OnlyDbs s s') : Fresh E pp s' := by
  obtain ⟨dbs, out, rfl⟩ := hs'
  exact ⟨h.of_standing rfl, h.noPrePrepare, h.noPrepares, h.noCommits, h.noPreparesWaiting, h.unordered⟩

theorem Fresh.setWaiting (h : Fresh E pp s) (w : Dict TPCKey (List (Commit × RepName))) :
    Fresh E pp (s.setWaiting w) :=
  ⟨h.toVoting.setWaiting w, h.noPrePrepare, h.noPrepares, h.noCommits, h.noPreparesWaiting, h.unordered⟩

/-- the PRE-PREPARE is next in sequence and valid, and its requests are finalised -/
structure Receivable (env : Env ω σ τ) (E : Electorate) (pp : PrePrepare) (s : Replica ω σ τ) : Prop where
  finalised : s.nonFinalisedReqs pp.reqIdr = []
  next : s.isNextPrePrepare pp.ppSeqNo = true
  valid : (exec (validatePrePrepare env pp E.primary) s).1 = .ok ()

theorem Receivable.setWaiting (h : Receivable env E pp s) (w : Dict TPCKey (List (Commit × RepName))) :
    Receivable env E pp (s.setWaiting w) := by
  refine ⟨h.finalised, h.next, ?_⟩
  have hignores := ignores_validatePrePrepare env w pp E.primary s
  rw [hignores]
  exact h.valid

/-- a receivable PRE-PREPARE is validated, which changes the databases and the outbox only -/
theorem Fresh.exec_canProcessPrePrepare (h : Fresh E pp s) (hacc : Receivable env E pp s) :
    ∃ s', exec (canProcessPrePrepare env pp E.primary) s = (.ok true, s') ∧ OnlyDbs s s' := by
  rcases hv : exec (validatePrePrepare env pp E.primary) s with ⟨r, s'⟩
  have hr := hacc.valid
  have honly := keeps_validatePrePrepare env s pp E.primary s (OnlyDbs.refl s)
  rw [hv] at hr honly
  cases hr
  refine ⟨s', ?_, honly⟩
  have hfrom : s.isMsgFromPrimary E.primary = true := by
    unfold isMsgFromPrimary
    rw [h.primaryName]
    simp
  have hnew : s.prePrepares.contains pp.key = false := by
    have hnone : s.prePrepares.dict.get? pp.key = none := h.noPrePrepare
    unfold PrePrepareLog.contains Dict.contains
    rw [hnone]
    rfl
  unfold canProcessPrePrepare
  rw [exec_bind, exec_get]
  dsimp only
  rw [hfrom]
  simp only [Bool.not_true, Bool.false_eq_true, if_false]
  rw [exec_bind, h.exec_isPrimaryForMsg]
  simp only [hnew, h.participating, hacc.finalised, hacc.next, Bool.not_true, Bool.false_eq_true, if_false, ne_eq,
    not_true_eq_false, Option.some.injEq]
  rw [exec_bind, hv]
  rfl

/-- a backup that has got the PRE-PREPARE and no vote -/
structure Received (E : Electorate) (pp : PrePrepare) (s : Replica ω σ τ) : Prop extends Voting E pp s where
  prePrepare : s.prePrepares.get? pp.key = some pp
  noPrepares : s.prepares.contains pp.key = false
  noCommits : s.commits.contains pp.key = false
  noPreparesWaiting : s.preparesWaitingForPrePrepare.contains pp.key = false

theorem Received.setWaiting (h : Received E pp s) (w : Dict TPCKey (List (Commit × RepName))) :
    Received E pp (s.setWaiting w) :=
  ⟨h.toVoting.setWaiting w, h.prePrepare, h.noPrepares, h.noCommits, h.noPreparesWaiting⟩

theorem Fresh.received (h : Fresh E pp s) :
    Received E pp ((s.addPrePrepare pp).setLastPrePrepareSeqNo pp.ppSeqNo) := by
  refine ⟨h.of_standing rfl, ?_, h.noPrepares, h.noCommits, h.noPreparesWaiting⟩
  change (s.prePrepares.add pp).get? pp.key = some pp
  rw [PrePrepareLog.get?_add, if_pos rfl]

theorem voters_of_not_contains {t : TrackedMsgs} {key : TPCKey} (h : Dict.contains t key = false) :
    t.voters key = ∅ := by
  unfold TrackedMsgs.voters
  unfold Dict.contains at h
  rw [Option.isSome_eq_false_iff, Option.isNone_iff_eq_none] at h
  rw [h]
  rfl

/-- its own PREPARE is the first -/
theorem Received.exec_tryPrepare (env : Env ω σ τ) (dispatch : ThreePhaseMsg → NodeName → ReplicaM ω σ τ Unit)
    (h : Received E pp s) (hf : 1 ≤ E.f) :
    ∃ s', exec (tryPrepare env dispatch pp) s = (.ok (), s') ∧ Prepared E pp {E.me} s' := by
  have hvoters := voters_of_not_contains h.noPrepares
  let s' : Replica ω σ τ := { s.appendOutBox [.threePhase (.prepare (pp.prepare s.instId))] with
    prepares := s.prepares.addMsg pp.key s.name }
  have hnew : s'.prepares.voters pp.key = {E.me} := by
    change (s.prepares.addMsg pp.key s.name).voters pp.key = {E.me}
    rw [TrackedMsgs.voters_addMsg, if_pos rfl, hvoters, h.name]
    rfl
  have hmsg : s'.prepares.contains pp.key = true := by
    change Dict.contains (s.prepares.addMsg pp.key s.name) pp.key = true
    unfold TrackedMsgs.addMsg Dict.contains
    rw [Dict.get?_set_self]
    rfl
  have hprepared : Prepared E pp {E.me} s' := by
    refine ⟨h.of_standing rfl, h.prePrepare, hmsg, hnew, ?_⟩
    have hcommits : s'.commits.voters pp.key = ∅ := voters_of_not_contains h.noCommits
    rw [hcommits]
    exact Finset.empty_subset _
  refine ⟨s', ?_, hprepared⟩
  have hcan : s.canPrepare pp = true := by
    have hstash : s.isStashedWhileCatchingUp (pp.viewNo, pp.ppSeqNo) = false := h.unstashed
    unfold canPrepare shouldParticipate hasPrepared TrackedMsgs.hasVote
    rw [h.participating, hstash, hvoters]
    simp
  have hcannot : s'.canCommit (pp.prepare s.instId) = false := by
    have hquorum : Prepares.hasQuorum s'.prepares (pp.prepare s.instId) s'.node.f = false := by
      have hkey : (pp.prepare s.instId).key = pp.key := rfl
      have hfaults : s'.node.f = E.f := hprepared.faults
      unfold Prepares.hasQuorum TrackedMsgs.hasEnoughVotes
      rw [hkey, hnew, hfaults, Finset.card_singleton]
      simp only [Bool.and_eq_false_iff, decide_eq_false_iff_not]
      right
      omega
    unfold canCommit
    rw [hquorum]
    simp
  unfold tryPrepare
  rw [exec_bind, exec_get]
  dsimp only
  rw [if_pos hcan]
  unfold doPrepare send addToPrepares
  rw [exec_bind, exec_get]
  dsimp only
  rw [exec_bind, exec_modify]
  dsimp only
  rw [exec_bind, exec_modify]
  unfold tryCommit
  dsimp only
  rw [exec_bind, exec_get]
  have hs' : ({ s.appendOutBox [.threePhase (.prepare (pp.prepare s.instId))] with
      prepares := (s.appendOutBox [.threePhase (.prepare (pp.prepare s.instId))]).prepares.addMsg
        (pp.prepare s.instId).key s.name } : Replica ω σ τ) = s' := rfl
  rw [hs']
  dsimp only
  rw [if_neg (by simp [hcannot])]
  rfl

/-- the COMMITs that wait for the batch of `pp` -/
def waitingFor (pp : PrePrepare) (s : Replica ω σ τ) : List (Commit × RepName) :=
  (s.commitsWaitingForPrepare.get? pp.key).getD []

theorem Received.exec_dequeueCommits (env : Env ω σ τ) (dispatch : ThreePhaseMsg → NodeName → ReplicaM ω σ τ Unit)
    (h : Received E pp s) (hwaiting : ∀ e ∈ waitingFor pp s, e.1 = commitFor E pp)
    (hfuel : (waitingFor pp s).length < fuel) :
    ∃ w, exec (dequeueCommits env fuel dispatch pp.key) s = (.ok (), s.setWaiting w) := by
  unfold waitingFor at hwaiting hfuel
  unfold dequeueCommits
  rw [exec_bind, exec_get]
  dsimp only
  cases hw : s.commitsWaitingForPrepare.get? pp.key with
  | none =>
    refine ⟨s.commitsWaitingForPrepare, ?_⟩
    have hno : s.commitsWaitingForPrepare.contains pp.key = false := by
      unfold Dict.contains
      rw [hw]
      rfl
    rw [hno]
    rfl
  | some l =>
    rw [hw, Option.getD_some] at hwaiting hfuel
    have hyes : s.commitsWaitingForPrepare.contains pp.key = true := by
      unfold Dict.contains
      rw [hw]
      rfl
    obtain ⟨w, hdrain⟩ := exec_drainCommits env dispatch h.toVoting h.prePrepare h.noPrepares h.noPreparesWaiting
      hwaiting hfuel hw
    refine ⟨w.erase pp.key, ?_⟩
    have hself : s.setWaiting s.commitsWaitingForPrepare = s := rfl
    rw [hself] at hdrain
    rw [hyes, if_pos rfl, exec_bind, hdrain]
    rfl

/-- **The PRE-PREPARE arrives.** Whatever COMMITs wait for it, only its own PREPARE is counted afterwards. -/
theorem exec_prePrepare (h : Fresh E pp s) (hacc : Receivable env E pp s) (hf : 1 ≤ E.f)
    (hwaiting : ∀ e ∈ waitingFor pp s, e.1 = commitFor E pp) (hfuel : (waitingFor pp s).length < fuel + 1)
    {sender : NodeName} (hsender : generateName sender E.me.instId = E.primary) :
    ∃ s', exec (processThreePhaseMsg env (fuel + 1) (.prePrepare pp) sender) s = (.ok (), s') ∧
      Prepared E pp {E.me} s' := by
  obtain ⟨s1, hcan, honly⟩ := h.exec_canProcessPrePrepare hacc
  have hs1 : waitingFor pp s1 = waitingFor pp s := by
    obtain ⟨dbs, out, rfl⟩ := honly
    rfl
  let s2 := (s1.addPrePrepare pp).setLastPrePrepareSeqNo pp.ppSeqNo
  have hs2 : Received E pp s2 := (h.onlyDbs honly).received
  have hs2w : waitingFor pp s2 = waitingFor pp s := hs1
  obtain ⟨w, hdequeue⟩ := hs2.exec_dequeueCommits env (dispatchThreePhaseMsg env (fuel + 1) fuel) (by rwa [hs2w])
    (by rwa [hs2w])
  obtain ⟨s3, hprepare, hs3⟩ := (hs2.setWaiting w).exec_tryPrepare env (dispatchThreePhaseMsg env (fuel + 1) fuel) hf
  have hadd : exec (addToPrePrepares env (fuel + 1) (dispatchThreePhaseMsg env (fuel + 1) fuel) pp) s1 =
      (.ok (), s3) := by
    have hprepares : exec (dequeuePrepares env (fuel + 1) (dispatchThreePhaseMsg env (fuel + 1) fuel) pp.key) s2 =
        (.ok (), s2) := by
      unfold dequeuePrepares
      rw [exec_bind, exec_get]
      dsimp only
      rw [hs2.noPreparesWaiting]
      rfl
    have hwrite : exec (modify fun s => s.setLastPrePrepareSeqNo pp.ppSeqNo : ReplicaM ω σ τ PUnit)
        (s1.addPrePrepare pp) = (.ok ⟨⟩, s2) := rfl
    unfold addToPrePrepares
    rw [exec_bind, exec_modify]
    dsimp only
    rw [exec_bind, hwrite]
    dsimp only
    rw [exec_bind, hprepares]
    dsimp only
    rw [exec_bind, hdequeue]
    exact hprepare
  refine ⟨s3.trackBatches pp (s.stateHead pp.ledgerId), ?_, ?_⟩
  · rw [h.exec_processThreePhaseMsg (m := .prePrepare pp) rfl rfl, hsender]
    unfold threePhaseRouter reportingSuspicions
    rw [exec_tryCatch]
    unfold processPrePrepare
    rw [exec_bind, exec_get]
    dsimp only
    rw [exec_bind, hcan]
    dsimp only
    rw [if_pos rfl, exec_bind, hadd]
    dsimp only
    rw [exec_bind, exec_get]
    dsimp only
    rw [hs3.participating]
    rfl
  · exact ⟨hs3.of_standing rfl, hs3.prePrepare, hs3.prepares, hs3.voters_eq, hs3.commits⟩

/-! ## Votes after the PRE-PREPARE -/

/-- with at most one COMMIT besides its own nothing is ordered -/
theorem exec_tryOrder_few (env : Env ω σ τ) (dispatch : ThreePhaseMsg → NodeName → ReplicaM ω σ τ Unit)
    (hfaults : s.node.f = E.f) (hf : 1 ≤ E.f) (hfew : (s.commits.voters pp.key).card ≤ 2) :
    exec (tryOrder env dispatch (commitFor E pp)) s = (.ok false, s) := by
  have hquorum : Commits.hasQuorum s.commits (commitFor E pp) s.node.f = false := by
    have hkey : (commitFor E pp).key = pp.key := rfl
    unfold Commits.hasQuorum TrackedMsgs.hasEnoughVotes
    rw [hkey, hfaults, Bool.and_eq_false_iff, decide_eq_false_iff_not]
    right
    omega
  unfold tryOrder canOrder
  rw [exec_bind, exec_bind, exec_get]
  simp only [hquorum, Bool.not_false, if_true]
  rfl

/-- a PREPARE of another backup is counted; it may lead to the own COMMIT -/
theorem Prepared.exec_prepare (env : Env ω σ τ) (fuel : ℕ) {voters : Finset RepName} (h : Prepared E pp voters s)
    (hf : 1 ≤ E.f) {sender : NodeName}
    (hprimary : generateName sender E.me.instId ≠ E.primary) (hnew : generateName sender E.me.instId ∉ voters) :
    ∃ s', exec (processThreePhaseMsg env (fuel + 1) (.prepare (pp.prepare E.me.instId)) sender) s = (.ok (), s') ∧
      Prepared E pp (insert (generateName sender E.me.instId) voters) s' := by
  set voter := generateName sender E.me.instId with hvoter
  set dispatch := dispatchThreePhaseMsg env (fuel + 1) fuel with hdispatch
  let s1 : Replica ω σ τ := { s with prepares := s.prepares.addMsg pp.key voter }
  have hs1 : Prepared E pp (insert voter voters) s1 := by
    refine ⟨h.of_standing rfl, h.prePrepare, ?_, ?_, h.commits⟩
    · change Dict.contains (s.prepares.addMsg pp.key voter) pp.key = true
      unfold TrackedMsgs.addMsg Dict.contains
      rw [Dict.get?_set_self]
      rfl
    · change (s.prepares.addMsg pp.key voter).voters pp.key = insert voter voters
      rw [TrackedMsgs.voters_addMsg, if_pos rfl, h.voters_eq]
  -- the own COMMIT
  have hcommit : ∃ s2, exec (tryCommit env dispatch (pp.prepare E.me.instId)) s1 = (.ok (), s2) ∧
      Prepared E pp (insert voter voters) s2 := by
    unfold tryCommit
    rw [exec_bind, exec_get]
    dsimp only
    split_ifs with hcan
    · let s2 : Replica ω σ τ := { s1.appendOutBox [.threePhase (.commit (commitFor E pp))] with
        commits := s1.commits.addMsg pp.key s1.name }
      have hs2 : Prepared E pp (insert voter voters) s2 := by
        refine ⟨h.of_standing rfl, h.prePrepare, hs1.prepares, hs1.voters_eq, ?_⟩
        change (s1.commits.addMsg pp.key s1.name).voters pp.key ⊆ {E.me}
        rw [TrackedMsgs.voters_addMsg, if_pos rfl, hs1.name]
        exact Finset.insert_subset (Finset.mem_singleton_self _) hs1.commits
      refine ⟨s2, ?_, hs2⟩
      have hfew : (s2.commits.voters pp.key).card ≤ 2 := (Finset.card_le_card hs2.commits).trans (by simp)
      have horder := exec_tryOrder_few env dispatch hs2.faults hf hfew
      have hmsg : (⟨s1.instId, (pp.prepare E.me.instId).viewNo, (pp.prepare E.me.instId).ppSeqNo⟩ : Commit) =
          commitFor E pp := by
        rw [hs1.instId]
        rfl
      have hvote : exec (modify fun s => { s with commits := s.commits.addMsg (commitFor E pp).key s1.name } :
          ReplicaM ω σ τ PUnit) (s1.appendOutBox [.threePhase (.commit (commitFor E pp))]) = (.ok ⟨⟩, s2) := rfl
      unfold doCommit send addToCommits
      rw [exec_bind, exec_get]
      dsimp only
      rw [hmsg, exec_bind, exec_modify]
      dsimp only
      rw [exec_bind, hvote]
      dsimp only
      rw [exec_bind, horder]
      rfl
    · exact ⟨s1, rfl, hs1⟩
  obtain ⟨s2, hcommit, hs2⟩ := hcommit
  refine ⟨s2, ?_, hs2⟩
  have hkey : (pp.prepare E.me.instId).key = pp.key := rfl
  have hstable : s.isPpSeqNoStable ((pp.prepare E.me.instId).ppSeqNo) = false := h.unstable
  have hvalid : exec (validatePrepare (pp.prepare E.me.instId) voter) s = (.ok true, s) := by
    have hview : (pp.prepare E.me.instId).viewNo = pp.viewNo := rfl
    have hfrom : s.isMsgFromPrimary voter = false := by
      unfold isMsgFromPrimary
      rw [h.primaryName]
      simpa using fun he => hprimary he.symm
    have hvote : Prepares.hasPrepareFrom s.prepares (pp.prepare E.me.instId) voter = false := by
      unfold Prepares.hasPrepareFrom TrackedMsgs.hasVote
      rw [hkey, h.voters_eq]
      simpa using hnew
    have hget : s.getPrePrepare pp.key = some pp := h.getPrePrepare.trans h.prePrepare
    unfold validatePrepare
    rw [exec_bind, hview, h.exec_isPrimaryForMsg]
    dsimp only
    rw [exec_bind, exec_get]
    simp only [hfrom, hvote, hkey, hget, Bool.false_eq_true, if_false, and_false]
    simp [PrePrepare.prepare, exec_pure]
  have hadd : exec (addToPrepares env dispatch (pp.prepare E.me.instId) voter) s = (.ok (), s2) := by
    have hvote : exec (modify fun s => { s with prepares := s.prepares.addMsg (pp.prepare E.me.instId).key voter } :
        ReplicaM ω σ τ PUnit) s = (.ok ⟨⟩, s1) := rfl
    unfold addToPrepares
    rw [exec_bind, hvote]
    exact hcommit
  rw [h.exec_processThreePhaseMsg (m := .prepare (pp.prepare E.me.instId)) rfl rfl]
  unfold threePhaseRouter reportingSuspicions
  rw [exec_tryCatch]
  unfold processPrepare reportingSuspicions
  rw [exec_bind, exec_get]
  simp only [hstable, Bool.false_eq_true, if_false]
  rw [exec_tryCatch, exec_bind, ← hvoter, hvalid]
  dsimp only
  rw [if_pos rfl, hadd]

/-- a COMMIT of another node is counted, if it is the first one or the own one only was there -/
theorem Prepared.exec_commit (env : Env ω σ τ) (fuel : ℕ) {voters : Finset RepName} (h : Prepared E pp voters s)
    (hf : 1 ≤ E.f) {sender : NodeName}
    (hother : generateName sender E.me.instId ≠ E.me) :
    ∃ s', exec (processThreePhaseMsg env (fuel + 1) (.commit (commitFor E pp)) sender) s = (.ok (), s') ∧
      generateName sender E.me.instId ∈ s'.commits.voters pp.key := by
  set voter := generateName sender E.me.instId with hvoter
  let s1 : Replica ω σ τ := { s with commits := s.commits.addMsg pp.key voter }
  have hs1 : s1.commits.voters pp.key = insert voter (s.commits.voters pp.key) := by
    change (s.commits.addMsg pp.key voter).voters pp.key = _
    rw [TrackedMsgs.voters_addMsg, if_pos rfl]
  refine ⟨s1, ?_, ?_⟩
  · have hkey : (commitFor E pp).key = pp.key := rfl
    have hstable : s.isPpSeqNoStable ((commitFor E pp).ppSeqNo) = false := h.unstable
    have hfew : (s1.commits.voters pp.key).card ≤ 2 := by
      rw [hs1]
      refine (Finset.card_insert_le _ _).trans ?_
      have hone := Finset.card_le_card h.commits
      rw [Finset.card_singleton] at hone
      omega
    have hvalid : exec (validateCommit (commitFor E pp) voter) s = (.ok true, s) := by
      have hget : s.getPrePrepare pp.key = some pp := h.getPrePrepare.trans h.prePrepare
      have hvote : Commits.hasCommitFrom s.commits (commitFor E pp) voter = false := by
        unfold Commits.hasCommitFrom TrackedMsgs.hasVote
        rw [hkey, decide_eq_false_iff_not]
        intro hmem
        exact hother (Finset.mem_singleton.1 (h.commits hmem))
      unfold validateCommit
      rw [exec_bind, exec_get]
      simp only [hkey, hget, h.prepares, hvote, Bool.not_true, Bool.false_and, Bool.false_eq_true, if_false]
      rfl
    have hadd : ∀ dispatch, exec (addToCommits env dispatch (commitFor E pp) voter) s = (.ok (), s1) := by
      intro dispatch
      have hmod : exec (modify fun s => { s with commits := s.commits.addMsg (commitFor E pp).key voter } :
          ReplicaM ω σ τ PUnit) s = (.ok ⟨⟩, s1) := rfl
      have horder := @exec_tryOrder_few ω σ τ s1 E pp env dispatch h.faults hf hfew
      unfold addToCommits
      rw [exec_bind, hmod]
      dsimp only
      rw [exec_bind, horder]
      rfl
    rw [h.exec_processThreePhaseMsg (m := .commit (commitFor E pp)) rfl rfl]
    unfold threePhaseRouter reportingSuspicions
    rw [exec_tryCatch]
    unfold processCommit
    rw [exec_bind, exec_get]
    simp only [hstable, Bool.false_eq_true, if_false]
    rw [exec_bind, ← hvoter, hvalid]
    dsimp only
    rw [if_pos rfl, hadd]
  · rw [hs1]
    exact Finset.mem_insert_self _ _

/-! ## Orders of arrival -/

/-- what a backup gets for a batch besides the PRE-PREPARE: PREPAREs and COMMITs, one from each sender -/
structure Ballots (E : Electorate) where
  primaryNode : NodeName
  prepares : List NodeName
  commits : List NodeName
  primary_eq : generateName primaryNode E.me.instId = E.primary
  prepares_nodup : prepares.Nodup
  commits_nodup : commits.Nodup
  prepares_quorum : 2 * E.f ≤ prepares.length
  commits_quorum : 2 * E.f + 1 ≤ commits.length
  prepares_backup : ∀ i ∈ prepares, generateName i E.me.instId ≠ E.primary ∧ generateName i E.me.instId ≠ E.me
  commits_other : ∀ i ∈ commits, generateName i E.me.instId ≠ E.me

def prepareMsgs (E : Electorate) (pp : PrePrepare) (senders : List NodeName) : List (ThreePhaseMsg × NodeName) :=
  senders.map fun i => (.prepare (pp.prepare E.me.instId), i)

def commitMsgs (E : Electorate) (pp : PrePrepare) (senders : List NodeName) : List (ThreePhaseMsg × NodeName) :=
  senders.map fun i => (.commit (commitFor E pp), i)

def Ballots.messages (b : Ballots E) (pp : PrePrepare) : List (ThreePhaseMsg × NodeName) :=
  (.prePrepare pp, b.primaryNode) :: (prepareMsgs E pp b.prepares ++ commitMsgs E pp b.commits)

/-- the state after the messages have been delivered one after the other -/
def deliver (env : Env ω σ τ) (fuel : ℕ) (s : Replica ω σ τ) (msgs : List (ThreePhaseMsg × NodeName)) :
    Replica ω σ τ :=
  msgs.foldl (fun s m => (exec (processThreePhaseMsg env fuel m.1 m.2) s).2) s

/-- the votes counted for a batch, and whether it is ordered -/
def outcome (s : Replica ω σ τ) (key : TPCKey) : Finset RepName × Finset RepName × Bool :=
  (s.prepares.voters key, s.commits.voters key, s.hasOrdered key)

/-- the messages come to the same in whatever order they are delivered -/
def OrderIrrelevant (env : Env ω σ τ) (fuel : ℕ) (s : Replica ω σ τ) (key : TPCKey)
    (msgs : List (ThreePhaseMsg × NodeName)) : Prop :=
  ∀ l l', l.Perm msgs → l'.Perm msgs → outcome (deliver env fuel s l) key = outcome (deliver env fuel s l') key

theorem deliver_append (env : Env ω σ τ) (fuel : ℕ) (s : Replica ω σ τ) (l l' : List (ThreePhaseMsg × NodeName)) :
    deliver env fuel s (l ++ l') = deliver env fuel (deliver env fuel s l) l' := by
  unfold deliver
  rw [List.foldl_append]

theorem deliver_commits (env : Env ω σ τ) (fuel : ℕ) (senders : List NodeName) (h : Fresh E pp s) :
    ∃ w, deliver env (fuel + 1) s (commitMsgs E pp senders) = s.setWaiting w ∧
      waitingFor pp (s.setWaiting w) =
        waitingFor pp s ++ senders.map fun i => (commitFor E pp, generateName i E.me.instId) := by
  induction senders generalizing s with
  | nil =>
    refine ⟨s.commitsWaitingForPrepare, rfl, ?_⟩
    rw [List.map_nil, List.append_nil]
    rfl
  | cons i senders ih =>
    let w := s.commitsWaitingForPrepare.set pp.key
      (waitingFor pp s ++ [(commitFor E pp, generateName i E.me.instId)])
    obtain ⟨w', hdeliver, hwaiting⟩ := ih (h.setWaiting w)
    refine ⟨w', ?_, ?_⟩
    · have hfirst := h.toVoting.exec_commit_early env fuel h.noPrePrepare i
      change deliver env (fuel + 1) (exec (processThreePhaseMsg env (fuel + 1) (.commit (commitFor E pp)) i) s).2
        (commitMsgs E pp senders) = _
      rw [hfirst]
      exact hdeliver
    · have hone : waitingFor pp (s.setWaiting w) =
          waitingFor pp s ++ [(commitFor E pp, generateName i E.me.instId)] := by
        change (w.get? pp.key).getD [] = _
        rw [Dict.get?_set_self]
        rfl
      have htwo : (s.setWaiting w).setWaiting w' = s.setWaiting w' := rfl
      rw [htwo, hone, List.append_assoc] at hwaiting
      exact hwaiting

theorem deliver_prepares (env : Env ω σ τ) (fuel : ℕ) (hf : 1 ≤ E.f) {senders : List NodeName}
    (hnodup : senders.Nodup) {voters : Finset RepName} (h : Prepared E pp voters s)
    (hprimary : ∀ i ∈ senders, generateName i E.me.instId ≠ E.primary)
    (hnew : ∀ i ∈ senders, generateName i E.me.instId ∉ voters) :
    ∃ voters', Prepared E pp voters' (deliver env (fuel + 1) s (prepareMsgs E pp senders)) := by
  induction senders generalizing s voters with
  | nil => exact ⟨voters, h⟩
  | cons i senders ih =>
    obtain ⟨hi, hrest⟩ := List.nodup_cons.1 hnodup
    obtain ⟨s', hexec, hs'⟩ := h.exec_prepare env fuel hf (hprimary i List.mem_cons_self)
      (hnew i List.mem_cons_self)
    change ∃ voters', Prepared E pp voters' (deliver env (fuel + 1)
      (exec (processThreePhaseMsg env (fuel + 1) (.prepare (pp.prepare E.me.instId)) i) s).2
      (prepareMsgs E pp senders))
    rw [hexec]
    refine ih hrest hs' (fun j hj => hprimary j (List.mem_cons_of_mem i hj)) ?_
    intro j hj hmem
    rcases Finset.mem_insert.1 hmem with he | hmem
    · have hji : j = i := congrArg RepName.node he
      exact hi (hji ▸ hj)
    · exact hnew j (List.mem_cons_of_mem i hj) hmem

/-- COMMITs first, then the PRE-PREPARE, then the PREPAREs: of the COMMITs only its own is counted -/
theorem prepared_commits_first (env : Env ω σ τ) {fuel : ℕ} (h : Fresh E pp s) (hacc : Receivable env E pp s)
    (hf : 1 ≤ E.f) (hempty : waitingFor pp s = []) (b : Ballots E) {early : List NodeName}
    (hfuel : early.length < fuel + 1) :
    ∃ voters, Prepared E pp voters (deliver env (fuel + 1) s
      (commitMsgs E pp early ++ (.prePrepare pp, b.primaryNode) :: prepareMsgs E pp b.prepares)) := by
  obtain ⟨w, hdeliver, hwaiting⟩ := deliver_commits env fuel early h
  rw [hempty, List.nil_append] at hwaiting
  have hall : ∀ e ∈ waitingFor pp (s.setWaiting w), e.1 = commitFor E pp := by
    intro e he
    rw [hwaiting] at he
    obtain ⟨i, -, rfl⟩ := List.mem_map.1 he
    rfl
  have hlen : (waitingFor pp (s.setWaiting w)).length < fuel + 1 := by
    rw [hwaiting, List.length_map]
    exact hfuel
  obtain ⟨s', hexec, hs'⟩ := exec_prePrepare (h.setWaiting w) (hacc.setWaiting w) hf hall hlen b.primary_eq
  rw [deliver_append, hdeliver]
  change ∃ voters, Prepared E pp voters (deliver env (fuel + 1)
    (exec (processThreePhaseMsg env (fuel + 1) (.prePrepare pp) b.primaryNode) (s.setWaiting w)).2
    (prepareMsgs E pp b.prepares))
  rw [hexec]
  refine deliver_prepares env fuel hf b.prepares_nodup hs' (fun i hi => (b.prepares_backup i hi).1) ?_
  intro i hi hmem
  exact (b.prepares_backup i hi).2 (Finset.mem_singleton.1 hmem)

/-- **The order of arrival always matters.** If all COMMITs come before the PRE-PREPARE they are lost; the last one is
counted if it comes after the PREPAREs. -/
theorem not_orderIrrelevant (env : Env ω σ τ) {fuel : ℕ} (h : Fresh E pp s) (hacc : Receivable env E pp s)
    (hf : 1 ≤ E.f) (hempty : waitingFor pp s = []) (b : Ballots E) (hfuel : b.commits.length < fuel) :
    ¬ OrderIrrelevant env fuel s pp.key (b.messages pp) := by
  intro hirrelevant
  obtain ⟨fuel, rfl⟩ : ∃ n, fuel = n + 1 := ⟨fuel - 1, by omega⟩
  have hquorum := b.commits_quorum
  obtain ⟨early, last, hlast⟩ : ∃ early last, b.commits = early ++ [last] := by
    have hne : b.commits ≠ [] := by
      intro hnil
      rw [hnil, List.length_nil] at hquorum
      omega
    exact ⟨b.commits.dropLast, b.commits.getLast hne, (List.dropLast_append_getLast hne).symm⟩
  have hmem : last ∈ b.commits := by
    rw [hlast]
    exact List.mem_append_right _ List.mem_cons_self
  have hother := b.commits_other last hmem
  let front := (ThreePhaseMsg.prePrepare pp, b.primaryNode) :: prepareMsgs E pp b.prepares
  have hall := prepared_commits_first env h hacc hf hempty b hfuel
  have hfuelEarly : early.length < fuel + 1 := by
    rw [hlast, List.length_append, List.length_singleton] at hfuel
    omega
  have hearly := prepared_commits_first env h hacc hf hempty b hfuelEarly
  obtain ⟨votersAll, hall⟩ := hall
  obtain ⟨votersEarly, hearly⟩ := hearly
  obtain ⟨s', hexec, hcounted⟩ := hearly.exec_commit env fuel hf hother
  have hsplit : commitMsgs E pp b.commits =
      commitMsgs E pp early ++ [(ThreePhaseMsg.commit (commitFor E pp), last)] := by
    rw [hlast]
    unfold commitMsgs
    rw [List.map_append]
    rfl
  have hperm : (commitMsgs E pp b.commits ++ front).Perm (b.messages pp) := List.perm_append_comm
  have hperm' : (commitMsgs E pp early ++ front ++ [(ThreePhaseMsg.commit (commitFor E pp), last)]).Perm
      (b.messages pp) := by
    refine List.Perm.trans ?_ hperm
    rw [hsplit, List.append_assoc, List.append_assoc]
    exact List.Perm.append_left _ List.perm_append_comm
  have hsame := hirrelevant _ _ hperm hperm'
  have hcommits := congrArg (fun o => o.2.1) hsame
  dsimp only [outcome] at hcommits
  rw [deliver_append env (fuel + 1) s (commitMsgs E pp early ++ front)] at hcommits
  change _ = (exec (processThreePhaseMsg env (fuel + 1) (.commit (commitFor E pp)) last)
    (deliver env (fuel + 1) s (commitMsgs E pp early ++ front))).2.commits.voters pp.key at hcommits
  rw [hexec] at hcommits
  rw [← hcommits] at hcounted
  exact hother (Finset.mem_singleton.1 (hall.commits hcounted))

end Replica

/-! ## Witnesses -/

namespace FourNodes

open Replica

/-- Beta votes on the batch of the first request, with Alpha as the primary -/
def electorate : Electorate := ⟨generateName "Beta" 0, primary, 1⟩

def firstBatch : PrePrepare := prePrepare 1 (request 1 "a")

def voterBeta : Replica Bool ℕ ReqKey :=
  master 100 "Beta" (Dict.empty.set (request 1 "a").key (forwarded (request 1 "a") 2 []))

def ballots : Ballots electorate where
  primaryNode := "Alpha"
  prepares := ["Gamma", "Delta"]
  commits := ["Alpha", "Gamma", "Delta"]
  primary_eq := rfl
  prepares_nodup := by decide
  commits_nodup := by decide
  prepares_quorum := by decide
  commits_quorum := by decide
  prepares_backup := by decide
  commits_other := by decide

theorem voterBeta_fresh : Fresh electorate firstBatch voterBeta := by
  refine ⟨⟨rfl, rfl, rfl, ?_, rfl, rfl, rfl, ?_, ?_, ?_, ?_⟩, ?_, ?_, ?_, ?_, ?_⟩ <;> decide +kernel

theorem voterBeta_receivable : Receivable (env 100) electorate firstBatch voterBeta := by
  refine ⟨?_, ?_, rfl⟩
  · decide +kernel
  · decide +kernel

end FourNodes

open FourNodes in
theorem not_orderIrrelevant_fourNodes :
    (Replica.Fresh electorate firstBatch voterBeta ∧ Replica.Receivable (env 100) electorate firstBatch voterBeta ∧
      1 ≤ electorate.f ∧ Replica.waitingFor firstBatch voterBeta = [] ∧ ballots.commits.length < 5) ∧
    ¬ Replica.OrderIrrelevant (env 100) 5 voterBeta firstBatch.key (ballots.messages firstBatch) :=
  ⟨⟨voterBeta_fresh, voterBeta_receivable, by decide, rfl, by decide⟩,
    Replica.not_orderIrrelevant (env 100) voterBeta_fresh voterBeta_receivable (by decide) rfl ballots (by decide)⟩

open FourNodes in
/-- **Early COMMITs are lost.** With the PRE-PREPARE first, all votes are counted and the batch is ordered; with the
COMMITs first, only the own one is counted and the batch is not ordered. -/
theorem early_commits_lost :
    let votes := Replica.prepareMsgs electorate firstBatch ballots.prepares
    let commits := Replica.commitMsgs electorate firstBatch ballots.commits
    let prePrepareFirst := (.prePrepare firstBatch, "Alpha") :: (votes ++ commits)
    let commitsFirst := commits ++ (.prePrepare firstBatch, "Alpha") :: votes
    prePrepareFirst.Perm (ballots.messages firstBatch) ∧ commitsFirst.Perm (ballots.messages firstBatch) ∧
      Replica.outcome (Replica.deliver (env 100) 5 voterBeta prePrepareFirst) firstBatch.key =
        ({generateName "Beta" 0, generateName "Gamma" 0, generateName "Delta" 0},
          {generateName "Alpha" 0, generateName "Beta" 0, generateName "Gamma" 0, generateName "Delta" 0}, true) ∧
      Replica.outcome (Replica.deliver (env 100) 5 voterBeta commitsFirst) firstBatch.key =
        ({generateName "Beta" 0, generateName "Gamma" 0, generateName "Delta" 0},
          {generateName "Beta" 0}, false) := by
  refine ⟨List.Perm.refl _, List.perm_append_comm, ?_, ?_⟩
  · decide +kernel
  · decide +kernel

end Plenum
