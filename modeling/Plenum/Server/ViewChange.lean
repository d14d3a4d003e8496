/-
How a node changes its view: the votes of instance changes, and what makes the node vote and move on.

- `VoteTable`: an abstract table of votes. A vote of another node is recorded for a message received from it, the own one
  for a broadcast; the view moves to a greater one that a quorum has voted for.
- `ViewChanger`: the part of the node that votes and changes the view. What it reads from the monitor, the elector and the
  clock while it handles an input is given with the input (`Surroundings`), so nothing is assumed of them.
- `input_steps`: whatever a handler does to the votes and the view is done in steps of the table, also when it calls
  itself into a view change from within, and when the elector raises.
- `Throttler.ofTicks_acquire`: the throttle of the own votes follows the delay law.
- `view_change_needs_quorum`: so each change of the view, in any run, had its quorum, and the view only grows.
- `quorumOfThree`: three votes move a node of four to view 2.
-/
import Mathlib.Tactic
import Plenum.Core.Exec
import Plenum.Core.Run
import Plenum.Common.Types
import Plenum.Common.Throttler
import Plenum.Server.Models

namespace Plenum

open Plenum.Core Plenum.Core.Exec

open Relation (ReflTransGen)

/-! ## A table of votes -/

/-- a change of the view, with the votes for the new one at that time -/
structure ViewMove where
  oldView : ℕ
  newView : ℕ
  voters : Finset NodeName

/-- the votes for views of a node `name`, and what has led to them -/
structure VoteTable where
  view : ℕ
  votes : TrackedMsgs ℕ NodeName
  received : List (NodeName × ℕ)
  broadcast : List ℕ
  moves : List ViewMove

namespace VoteTable

/-- one step of the table: `quorum` votes are needed for a view -/
inductive Step (name : NodeName) (quorum : ℕ) : VoteTable → VoteTable → Prop
  | receive (t : VoteTable) (frm : NodeName) (v : ℕ) :
      Step name quorum t { t with received := t.received ++ [(frm, v)] }
  | send (t : VoteTable) (v : ℕ) : Step name quorum t { t with broadcast := t.broadcast ++ [v] }
  | vote (t : VoteTable) (frm : NodeName) (v : ℕ) (hfrm : frm ≠ name) (h : (frm, v) ∈ t.received) :
      Step name quorum t { t with votes := t.votes.addMsg v frm }
  | ownVote (t : VoteTable) (v : ℕ) (h : v ∈ t.broadcast) :
      Step name quorum t { t with votes := t.votes.addMsg v name }
  | move (t : VoteTable) (v : ℕ) (hview : t.view < v) (h : quorum ≤ (t.votes.voters v).card) :
      Step name quorum t { t with view := v, moves := t.moves ++ [⟨t.view, v, t.votes.voters v⟩] }
  | forget (t : VoteTable) (v : ℕ) : Step name quorum t { t with votes := t.votes.erase v }

variable {name : NodeName} {quorum : ℕ} {t t' : VoteTable}

/-- each of the voters has sent its vote for the view -/
def Sent (name : NodeName) (t : VoteTable) (v : ℕ) (voters : Finset NodeName) : Prop :=
  ∀ i ∈ voters, (i ≠ name → (i, v) ∈ t.received) ∧ (i = name → v ∈ t.broadcast)

/-- the moves lead from the first view to the second, each to a greater one -/
def Leads : ℕ → List ViewMove → ℕ → Prop
  | v, [], w => v = w
  | v, m :: ms, w => m.oldView = v ∧ v < m.newView ∧ Leads m.newView ms w

theorem leads_concat {v w : ℕ} {ms : List ViewMove} (h : Leads v ms w) (m : ViewMove) (hold : m.oldView = w)
    (hnew : w < m.newView) : Leads v (ms ++ [m]) m.newView := by
  induction ms generalizing v with
  | nil =>
    have hvw : v = w := h
    subst hvw
    exact ⟨hold, hnew, rfl⟩
  | cons m' ms ih =>
    obtain ⟨hold', hnew', hrest⟩ := h
    exact ⟨hold', hnew', ih hrest⟩

theorem Leads.le {v w : ℕ} {ms : List ViewMove} (h : Leads v ms w) : v ≤ w := by
  induction ms generalizing v with
  | nil => exact (show v = w from h).le
  | cons m ms ih =>
    obtain ⟨-, hnew, hrest⟩ := h
    exact hnew.le.trans (ih hrest)

/-- the invariant of a table: its votes have been sent, and its moves had a quorum of such votes -/
structure Honest (name : NodeName) (quorum : ℕ) (t : VoteTable) : Prop where
  votes : ∀ v, t.Sent name v (t.votes.voters v)
  moves : ∀ m ∈ t.moves, quorum ≤ m.voters.card ∧ t.Sent name m.newView m.voters
  leads : Leads 0 t.moves t.view

theorem Sent.mono {v : ℕ} {voters : Finset NodeName} (h : t.Sent name v voters) (hreceived : t.received ⊆ t'.received)
    (hbroadcast : t.broadcast ⊆ t'.broadcast) : t'.Sent name v voters := by
  intro i hi
  obtain ⟨hother, hown⟩ := h i hi
  exact ⟨fun hne => hreceived (hother hne), fun heq => hbroadcast (hown heq)⟩

/-- more received or sent messages do not hurt -/
theorem Honest.mono (h : t.Honest name quorum) (hview : t'.view = t.view) (hvotes : t'.votes = t.votes)
    (hmoves : t'.moves = t.moves) (hreceived : t.received ⊆ t'.received) (hbroadcast : t.broadcast ⊆ t'.broadcast) :
    t'.Honest name quorum := by
  refine ⟨fun v => ?_, fun m hm => ?_, ?_⟩
  · rw [hvotes]
    exact (h.votes v).mono hreceived hbroadcast
  · rw [hmoves] at hm
    exact ⟨(h.moves m hm).1, (h.moves m hm).2.mono hreceived hbroadcast⟩
  · rw [hmoves, hview]
    exact h.leads

/-- one more vote, which was sent -/
theorem Honest.addVote (h : t.Honest name quorum) (v : ℕ) (i : NodeName) (hi : t.Sent name v {i}) :
    { t with votes := t.votes.addMsg v i : VoteTable }.Honest name quorum := by
  refine ⟨fun v' j hj => ?_, h.moves, h.leads⟩
  rcases TrackedMsgs.mem_voters_addMsg.1 hj with ⟨hv, hji⟩ | hj
  · rw [hv, hji]
    exact hi i (Finset.mem_singleton_self i)
  · exact h.votes v' j hj

theorem Honest.step (h : t.Honest name quorum) (hstep : Step name quorum t t') : t'.Honest name quorum := by
  cases hstep with
  | receive frm v => exact h.mono rfl rfl rfl (List.subset_append_left _ _) (List.Subset.refl _)
  | send v => exact h.mono rfl rfl rfl (List.Subset.refl _) (List.subset_append_left _ _)
  | vote frm v hfrm hreceived =>
    refine h.addVote v frm fun i hi => ?_
    rw [Finset.mem_singleton] at hi
    subst hi
    exact ⟨fun _ => hreceived, fun heq => absurd heq hfrm⟩
  | ownVote v hbroadcast =>
    refine h.addVote v name fun i hi => ?_
    rw [Finset.mem_singleton] at hi
    exact ⟨fun hne => absurd hi hne, fun _ => hbroadcast⟩
  | move v hview hquorum =>
    refine ⟨h.votes, fun m hm => ?_, leads_concat h.leads _ rfl hview⟩
    rcases List.mem_append.1 hm with hm | hm
    · exact h.moves m hm
    · rw [List.mem_singleton] at hm
      rw [hm]
      exact ⟨hquorum, h.votes v⟩
  | forget v =>
    refine ⟨fun v' i hi => ?_, h.moves, h.leads⟩
    have hsub : i ∈ t.votes.voters v' := by
      unfold TrackedMsgs.voters at hi ⊢
      rw [Dict.get?_erase] at hi
      split_ifs at hi with hv
      · simp at hi
      · exact hi
    exact h.votes v' i hsub

theorem Step.view_le (hstep : Step name quorum t t') : t.view ≤ t'.view := by
  cases hstep with
  | move v hview _ => exact hview.le
  | _ => exact le_rfl

theorem Honest.run (h : t.Honest name quorum) (hsteps : ReflTransGen (Step name quorum) t t') :
    t'.Honest name quorum := by
  induction hsteps with
  | refl => exact h
  | tail _ hstep ih => exact ih.step hstep

theorem view_le_of_steps (hsteps : ReflTransGen (Step name quorum) t t') : t.view ≤ t'.view := by
  induction hsteps with
  | refl => exact le_rfl
  | tail _ hstep ih => exact ih.trans hstep.view_le

end VoteTable

/-! ## The node -/

structure InstanceChange where
  viewNo : ℕ
  reason : ℕ
deriving DecidableEq, Repr

/-- times are counted in clock ticks -/
structure Throttler where
  actionsLog : List ℕ
deriving DecidableEq, Repr

structure ViewChangeConfig where
  name : NodeName
  f : ℕ
  ViewChangeWindowSize : ℕ
  ToleratePrimaryDisconnection : ℕ
  /-- from the number of actions to the time to wait after the last one -/
  delayFunction : ℕ → ℕ

namespace Throttler

variable (cfg : ViewChangeConfig)

def trimActionsLog (t : Throttler) (now : ℕ) : Throttler :=
  ⟨t.actionsLog.dropWhile fun time => time + cfg.ViewChangeWindowSize < now⟩

/-- whether an action may be done now; if so, it is logged -/
def acquire (t : Throttler) (now : ℕ) : Bool × Throttler :=
  let t := t.trimActionsLog cfg now
  match t.actionsLog.getLast? with
  | none => (true, ⟨[now]⟩)
  | some last =>
    if last + cfg.delayFunction t.actionsLog.length < now then (true, ⟨t.actionsLog ++ [now]⟩)
    else (false, t)

/-- the same throttler, with integers for the times -/
def ofTicks (hpos : 0 < cfg.ViewChangeWindowSize) (t : Throttler) : Throttling.Throttler ℤ where
  windowSize := cfg.ViewChangeWindowSize
  delayFunction n := cfg.delayFunction n
  actionsLog := t.actionsLog.map fun time : ℕ => (time : ℤ)
  windowSize_pos := Int.natCast_pos.2 hpos

variable {cfg}

theorem ofTicks_trimActionsLog (hpos : 0 < cfg.ViewChangeWindowSize) (t : Throttler) (now : ℕ) :
    (t.ofTicks cfg hpos).trimActionsLog now = (t.trimActionsLog cfg now).ofTicks cfg hpos := by
  have hlate : ∀ time : ℕ, (cfg.ViewChangeWindowSize : ℤ) < now - time ↔ time + cfg.ViewChangeWindowSize < now := by
    intro time
    omega
  simp only [Throttling.Throttler.trimActionsLog, ofTicks, trimActionsLog, List.dropWhile_map, Function.comp_def, hlate]

/-- instance changes are limited as the delay law has it -/
theorem ofTicks_acquire (hpos : 0 < cfg.ViewChangeWindowSize) (t : Throttler) (now : ℕ) :
    ((t.ofTicks cfg hpos).acquire now).1.acquired = (t.acquire cfg now).1 ∧
      ((t.ofTicks cfg hpos).acquire now).2 = (t.acquire cfg now).2.ofTicks cfg hpos := by
  unfold Throttling.Throttler.acquire acquire
  rw [ofTicks_trimActionsLog]
  have hlast : ((t.trimActionsLog cfg now).ofTicks cfg hpos).actionsLog.getLast? =
      (t.trimActionsLog cfg now).actionsLog.getLast?.map fun time : ℕ => (time : ℤ) := List.getLast?_map
  cases hlog : (t.trimActionsLog cfg now).actionsLog.getLast? with
  | none =>
    have hempty := List.getLast?_eq_none_iff.1 hlog
    simp [hempty, ofTicks, Throttling.Throttler.appendAction]
  | some last =>
    have hlength : ((t.trimActionsLog cfg now).ofTicks cfg hpos).actionsLog.length =
        (t.trimActionsLog cfg now).actionsLog.length := List.length_map _
    have hwait : ((t.trimActionsLog cfg now).ofTicks cfg hpos).delayFunction (t.trimActionsLog cfg now).actionsLog.length <
        (now : ℤ) - last ↔ last + cfg.delayFunction (t.trimActionsLog cfg now).actionsLog.length < now := by
      simp only [ofTicks]
      omega
    simp only [hlast, hlog, Option.map_some, hlength, hwait]
    split_ifs
    · simp [ofTicks, Throttling.Throttler.appendAction]
    · exact ⟨rfl, rfl⟩

end Throttler

/-- what the votes and the view of a node hang on; `received` and `viewMoves` are histories, which no definition reads -/
structure ViewChanger where
  viewNo : ℕ
  viewChangeInProgress : Bool
  instanceChanges : TrackedMsgs ℕ NodeName
  insChngThrottler : Throttler
  lostPrimaryAt : Option ℕ
  /-- what it has broadcast -/
  outBox : List InstanceChange
  received : List (NodeName × ℕ)
  viewMoves : List ViewMove

/-- what the node reads from its other parts and the clock while it handles an input; `viewChanged` is what the elector and
the stashed messages of a view come to, which may raise -/
structure Surroundings where
  isParticipating : Bool
  masterId : Option ℕ
  isMasterDegraded : Except Exn Bool
  masterPrimary : Option NodeName
  allInstancesHavePrimary : Bool
  perfCounter : ℕ
  viewChanged : ℕ → Except Exn Unit

namespace ViewChanger

abbrev ViewChangerM := Exec Exn ViewChanger

def init : ViewChanger where
  viewNo := 0
  viewChangeInProgress := false
  instanceChanges := Dict.empty
  insChngThrottler := ⟨[]⟩
  lostPrimaryAt := none
  outBox := []
  received := []
  viewMoves := []

variable (cfg : ViewChangeConfig) (sur : Surroundings)

def PRIMARY_DEGRADED : ℕ := 21

def PRIMARY_DISCONNECTED : ℕ := 22

def PRIMARY_ABOUT_TO_BE_DISCONNECTED : ℕ := 23

/-- the codes of `PPR_DIGEST_WRONG`, `PPR_REJECT_WRONG`, `PPR_TXN_WRONG` and `PPR_STATE_WRONG` -/
def instanceChangeCodes : List ℕ := [11, 16, 18, 17]

/-- a call of another part of the node, which may raise -/
def ask {α : Type} : Except Exn α → ViewChangerM α
  | .ok a => pure a
  | .error e => throw e

/-- the new view, with its votes noted in the history -/
def setViewNo (viewNo : ℕ) (s : ViewChanger) : ViewChanger :=
  { s with viewNo := viewNo,
           viewMoves := s.viewMoves ++ [⟨s.viewNo, viewNo, s.instanceChanges.voters viewNo⟩] }

def startViewChange (proposedViewNo : ℕ) : ViewChangerM Unit := do
  modify fun s => { s with viewChangeInProgress := true }
  modify (setViewNo proposedViewNo)
  ask (sur.viewChanged proposedViewNo)
  modify fun s => { s with insChngThrottler := ⟨[]⟩ }

def canViewChange (s : ViewChanger) (proposedViewNo : ℕ) : Bool :=
  InstanceChanges.hasQuorum s.instanceChanges proposedViewNo cfg.f && decide (s.viewNo < proposedViewNo)

def doViewChangeIfPossible (viewNo : ℕ) : ViewChangerM Unit := do
  let s ← get
  if s.canViewChange cfg viewNo then startViewChange sur viewNo else pure ()

def recordInstChangeMsg (msg : InstanceChange) (frm : NodeName) : ViewChangerM Unit := do
  modify fun s => { s with instanceChanges := InstanceChanges.addVote s.instanceChanges msg.viewNo frm }
  let s ← get
  if s.viewNo < msg.viewNo then doViewChangeIfPossible cfg sur msg.viewNo else pure ()

def sendInstanceChange (viewNo reason : ℕ) : ViewChangerM Unit := do
  let s ← get
  let (canSendInsChange, throttler) := s.insChngThrottler.acquire cfg sur.perfCounter
  modify fun s => { s with insChngThrottler := throttler }
  if canSendInsChange then do
    let msg : InstanceChange := ⟨viewNo, reason⟩
    modify fun s => { s with outBox := s.outBox ++ [msg] }
    recordInstChangeMsg cfg sur msg cfg.name
  else pure ()

/-- record the vote, unless it was there -/
def recordNewVote (instChg : InstanceChange) (frm : NodeName) : ViewChangerM Unit := do
  let s ← get
  if ! InstanceChanges.hasInstChngFrom s.instanceChanges instChg.viewNo frm then recordInstChangeMsg cfg sur instChg frm
  else pure ()

/-- record the vote, then vote too if the master is degraded -/
def processInstanceChange (instChg : InstanceChange) (frm : NodeName) : ViewChangerM Unit := do
  modify fun s => { s with received := s.received ++ [(frm, instChg.viewNo)] }
  let s ← get
  if instChg.viewNo ≤ s.viewNo then pure ()
  else do
    recordNewVote cfg sur instChg frm
    let degraded ← ask sur.isMasterDegraded
    let s ← get
    if degraded && ! InstanceChanges.hasInstChngFrom s.instanceChanges instChg.viewNo cfg.name then
      sendInstanceChange cfg sur instChg.viewNo PRIMARY_DEGRADED
    else pure ()

/-- the next view is read again after the own vote, which may have changed the view -/
def checkPerformance : ViewChangerM Unit := do
  if ! sur.isParticipating then pure ()
  else if sur.masterId.isSome then do
    let degraded ← ask sur.isMasterDegraded
    if degraded then do
      let s ← get
      sendInstanceChange cfg sur (s.viewNo + 1) PRIMARY_DEGRADED
      let s ← get
      doViewChangeIfPossible cfg sur (s.viewNo + 1)
    else pure ()
  else pure ()

/-- the part of `reportSuspiciousNode` that does something -/
def reportSuspiciousNode (code : ℕ) : ViewChangerM Unit :=
  if code ∈ instanceChangeCodes then do
    let s ← get
    sendInstanceChange cfg sur (s.viewNo + 1) code
  else pure ()

def nodeAboutToBeDisconnected (nodeName : NodeName) : ViewChangerM Unit :=
  if sur.masterPrimary = some nodeName then do
    let s ← get
    sendInstanceChange cfg sur (s.viewNo + 1) PRIMARY_ABOUT_TO_BE_DISCONNECTED
  else pure ()

/-- the primary of the master is back, or lost; then `proposeViewChange` is scheduled -/
def onConnsChanged (joined left : List NodeName) : ViewChangerM Unit := do
  modify fun s => if sur.masterPrimary.any (· ∈ joined) then { s with lostPrimaryAt := none } else s
  modify fun s => if sur.masterPrimary.any (· ∈ left) then { s with lostPrimaryAt := some sur.perfCounter } else s

/-- whether the primary was lost long ago; a time of `0` counts as none -/
def primaryLostTooLong (s : ViewChanger) : Bool :=
  match s.lostPrimaryAt with
  | none | some 0 => false
  | some (t + 1) => decide (t + 1 + cfg.ToleratePrimaryDisconnection ≤ sur.perfCounter)

def proposeViewChange : ViewChangerM Unit := do
  let s ← get
  if s.primaryLostTooLong cfg sur then do
    let viewNo := s.viewNo + 1
    sendInstanceChange cfg sur viewNo PRIMARY_DISCONNECTED
    doViewChangeIfPossible cfg sur viewNo
  else pure ()

/-- the votes for the previous view are dropped -/
def onViewChangeComplete (viewNo : ℕ) : ViewChangerM Unit := do
  modify fun s => { s with viewChangeInProgress := false }
  match viewNo with
  | 0 => pure ()
  | v + 1 => modify fun s => { s with instanceChanges := s.instanceChanges.erase v }

def primaryFound : ViewChangerM Unit := do
  let s ← get
  if s.viewChangeInProgress && sur.allInstancesHavePrimary then onViewChangeComplete s.viewNo else pure ()

end ViewChanger

/-- what may lead to a view change -/
inductive ViewChangeInput where
  | instanceChange (m : InstanceChange) (frm : NodeName)
  | checkPerformance
  | suspicion (code : ℕ)
  | nodeAboutToBeDisconnected (nodeName : NodeName)
  | connsChanged (joined left : List NodeName)
  | proposeViewChange
  | primaryFound
deriving DecidableEq, Repr

/-- messages come from other nodes -/
def ViewChangeInput.FromOthers (name : NodeName) : ViewChangeInput → Prop
  | .instanceChange _ frm => frm ≠ name
  | _ => True

namespace ViewChanger

variable (cfg : ViewChangeConfig) (sur : Surroundings)

def method : ViewChangeInput → ViewChangerM Unit
  | .instanceChange m frm => processInstanceChange cfg sur m frm
  | .checkPerformance => checkPerformance cfg sur
  | .suspicion code => reportSuspiciousNode cfg sur code
  | .nodeAboutToBeDisconnected nodeName => nodeAboutToBeDisconnected cfg sur nodeName
  | .connsChanged joined left => onConnsChanged sur joined left
  | .proposeViewChange => proposeViewChange cfg sur
  | .primaryFound => primaryFound sur

/-- the state after an input, also when its method raises -/
def input (s : ViewChanger) (x : ViewChangeInput) : ViewChanger := (exec (method cfg sur x) s).2

/-! ## The node follows the table -/

def table (s : ViewChanger) : VoteTable :=
  ⟨s.viewNo, s.instanceChanges, s.received, s.outBox.map InstanceChange.viewNo, s.viewMoves⟩

/-- a write of the node, as the table sees it -/
abbrev VoteWrite : ViewChanger → ViewChanger → Prop := Via table (VoteTable.Step cfg.name (2 * cfg.f + 1))

variable {cfg sur} {s : ViewChanger}

theorem ask_follows {α : Type} (r : Except Exn α) : Follows (VoteWrite cfg) (ask r) s fun _ s' => s' = s := by
  cases r with
  | ok a => exact Follows.ret rfl
  | error e => exact Follows.raise e

/-- a write that the table does not see -/
theorem quiet_follows {g : ViewChanger → ViewChanger} (h : (g s).table = s.table) :
    Follows (VoteWrite cfg) (modify g : ViewChangerM PUnit) s fun _ s' => s' = g s := Via.quiet h

theorem startViewChange_follows {viewNo : ℕ} (hview : s.viewNo < viewNo)
    (hquorum : 2 * cfg.f + 1 ≤ (s.instanceChanges.voters viewNo).card) :
    Follows (VoteWrite cfg) (startViewChange sur viewNo) s fun _ _ => True := by
  refine Follows.seq (quiet_follows rfl) fun _ s1 _ hs1 => ?_
  subst hs1
  refine Follows.seq (Via.write (VoteTable.Step.move (table s) viewNo hview hquorum)) fun _ s2 _ _ => ?_
  refine Follows.seq (ask_follows _) fun _ s3 _ _ => ?_
  exact (quiet_follows rfl).mono fun _ _ _ _ => trivial

theorem doViewChangeIfPossible_follows (viewNo : ℕ) :
    Follows (VoteWrite cfg) (doViewChangeIfPossible cfg sur viewNo) s fun _ _ => True := by
  refine Follows.get_seq (Follows.cond (fun hcan => ?_) fun _ => Follows.ret trivial)
  unfold canViewChange at hcan
  rw [Bool.and_eq_true, decide_eq_true_eq] at hcan
  exact startViewChange_follows hcan.2 (TrackedMsgs.card_of_hasEnoughVotes hcan.1)

/-- a vote that was received, or broadcast -/
theorem recordInstChangeMsg_follows {msg : InstanceChange} {frm : NodeName}
    (h : VoteTable.Step cfg.name (2 * cfg.f + 1) s.table
      { s.table with votes := s.table.votes.addMsg msg.viewNo frm }) :
    Follows (VoteWrite cfg) (recordInstChangeMsg cfg sur msg frm) s fun _ _ => True := by
  refine Follows.seq (Via.write h) fun _ s1 _ _ => ?_
  exact Follows.get_seq (Follows.cond (fun _ => doViewChangeIfPossible_follows _) fun _ => Follows.ret trivial)

/-- the node votes only for what it has broadcast -/
theorem sendInstanceChange_follows (viewNo reason : ℕ) :
    Follows (VoteWrite cfg) (sendInstanceChange cfg sur viewNo reason) s fun _ _ => True := by
  refine Follows.get_seq (Follows.seq (quiet_follows rfl) fun _ s1 _ _ => ?_)
  refine Follows.cond (fun _ => ?_) fun _ => Follows.ret trivial
  have hsend : VoteTable.Step cfg.name (2 * cfg.f + 1) s1.table
      (table { s1 with outBox := s1.outBox ++ [⟨viewNo, reason⟩] }) := by
    simpa [table] using VoteTable.Step.send s1.table viewNo
  refine Follows.seq (Via.write hsend) fun _ s2 _ hs2 => ?_
  have hmem : viewNo ∈ s2.table.broadcast := by
    rw [hs2]
    simp [table]
  exact recordInstChangeMsg_follows (VoteTable.Step.ownVote s2.table viewNo hmem)

theorem processInstanceChange_follows {instChg : InstanceChange} {frm : NodeName} (hfrm : frm ≠ cfg.name) :
    Follows (VoteWrite cfg) (processInstanceChange cfg sur instChg frm) s fun _ _ => True := by
  refine Follows.seq (Via.write (VoteTable.Step.receive s.table frm instChg.viewNo)) fun _ s1 _ hs1 => ?_
  have hmem : (frm, instChg.viewNo) ∈ s1.table.received := by
    rw [hs1]
    simp [table]
  refine Follows.get_seq (Follows.cond (fun _ => Follows.ret trivial) fun _ => ?_)
  refine Follows.seq (Q := fun _ _ => True) (Follows.get_seq ?_) fun _ s2 _ _ => ?_
  · refine Follows.cond (fun _ => ?_) fun _ => Follows.ret trivial
    exact recordInstChangeMsg_follows (VoteTable.Step.vote s1.table frm instChg.viewNo hfrm hmem)
  · refine Follows.seq (ask_follows _) fun degraded s3 _ _ => Follows.get_seq ?_
    exact Follows.cond (fun _ => sendInstanceChange_follows _ _) fun _ => Follows.ret trivial

theorem checkPerformance_follows : Follows (VoteWrite cfg) (checkPerformance cfg sur) s fun _ _ => True := by
  refine Follows.cond (fun _ => Follows.ret trivial) fun _ => ?_
  refine Follows.cond (fun _ => ?_) fun _ => Follows.ret trivial
  refine Follows.seq (ask_follows _) fun degraded s1 _ _ => ?_
  refine Follows.cond (fun _ => ?_) fun _ => Follows.ret trivial
  refine Follows.get_seq (Follows.seq (sendInstanceChange_follows _ _) fun _ s2 _ _ => ?_)
  exact Follows.get_seq (doViewChangeIfPossible_follows _)

/-- what a handler does to the votes and the view, it does in steps of the table -/
theorem input_steps {x : ViewChangeInput} (hx : x.FromOthers cfg.name) :
    ReflTransGen (VoteTable.Step cfg.name (2 * cfg.f + 1)) s.table (s.input cfg sur x).table := by
  refine Via.steps (Follows.steps (Q := fun _ _ => True) (m := method cfg sur x) ?_)
  cases x with
  | instanceChange m frm => exact processInstanceChange_follows hx
  | checkPerformance => exact checkPerformance_follows
  | suspicion code =>
    refine Follows.cond (fun _ => Follows.get_seq ?_) fun _ => Follows.ret trivial
    exact sendInstanceChange_follows _ _
  | nodeAboutToBeDisconnected nodeName =>
    refine Follows.cond (fun _ => Follows.get_seq ?_) fun _ => Follows.ret trivial
    exact sendInstanceChange_follows _ _
  | connsChanged joined left =>
    have hquiet : ∀ (c : Bool) (lost : Option ℕ) (s : ViewChanger),
        (if c then { s with lostPrimaryAt := lost } else s).table = s.table := by
      intro c lost s
      cases c <;> rfl
    refine Follows.seq (quiet_follows (hquiet _ _ _)) fun _ s1 _ _ => ?_
    exact (quiet_follows (hquiet _ _ _)).mono fun _ _ _ _ => trivial
  | proposeViewChange =>
    refine Follows.get_seq (Follows.cond (fun _ => ?_) fun _ => Follows.ret trivial)
    exact Follows.seq (sendInstanceChange_follows _ _) fun _ s1 _ _ => doViewChangeIfPossible_follows _
  | primaryFound =>
    refine Follows.get_seq (Follows.cond (fun _ => ?_) fun _ => Follows.ret trivial)
    refine Follows.seq (quiet_follows rfl) fun _ s1 _ _ => ?_
    split
    · exact Follows.ret trivial
    · rename_i v _
      exact Follows.mono (Via.write (VoteTable.Step.forget s1.table v)) fun _ _ _ _ => trivial

/-! ## Runs -/

variable (cfg)

/-- an input, with what the other parts of the node say meanwhile -/
def step (s : ViewChanger) (x : ViewChangeInput × Surroundings) : Option ViewChanger := some (s.input cfg x.2 x.1)

end ViewChanger

open ViewChanger in
/-- **A view change needs a quorum, and views only grow.** In every run of a node, whatever messages other nodes send it,
whatever it finds of its master and its primary, whenever its timers fire and whatever the elector does: no further input
lowers the view; every change of the view there was led to a greater one, and at that time at least `2f + 1` nodes had
voted for exactly this one. The votes of others were received from them, the own ones were broadcast. -/
theorem view_change_needs_quorum (cfg : ViewChangeConfig) {s : ViewChanger}
    (hs : Core.Reach (step cfg) (fun _ x _ => x.1.FromOthers cfg.name) ViewChanger.init s) :
    (∀ x sur, x.FromOthers cfg.name → s.viewNo ≤ (s.input cfg sur x).viewNo) ∧
    VoteTable.Leads 0 s.viewMoves s.viewNo ∧
    (∀ m ∈ s.viewMoves, 2 * cfg.f + 1 ≤ m.voters.card ∧ s.table.Sent cfg.name m.newView m.voters) ∧
    ∀ v, s.table.Sent cfg.name v (s.instanceChanges.voters v) := by
  have hhonest : s.table.Honest cfg.name (2 * cfg.f + 1) := by
    refine Core.Reach.inv (I := fun s => s.table.Honest cfg.name (2 * cfg.f + 1)) ?_ ?_ hs
    · refine ⟨fun v i hi => ?_, fun m hm => ?_, rfl⟩
      · exact absurd hi (Finset.notMem_empty i)
      · cases hm
    · intro s x s' hinv hstep hx
      cases hstep
      exact hinv.run (input_steps hx)
  refine ⟨fun x sur hx => ?_, hhonest.leads, hhonest.moves, hhonest.votes⟩
  have hsteps : ReflTransGen (VoteTable.Step cfg.name (2 * cfg.f + 1)) s.table (s.input cfg sur x).table := input_steps hx
  exact VoteTable.view_le_of_steps hsteps

/-! ## Witness -/

namespace QuorumOfThree

/-- a node of four, which finds its master degraded -/
def cfg : ViewChangeConfig := ⟨"Alpha", 1, 60, 10, fun _ => 2⟩

def sur : Surroundings := ⟨true, some 0, .ok true, some "Beta", false, 5, fun _ => .ok ()⟩

def run : List (ViewChangeInput × Surroundings) :=
  [(.instanceChange ⟨2, 21⟩ "Gamma", sur), (.instanceChange ⟨1, 21⟩ "Gamma", sur), (.instanceChange ⟨2, 22⟩ "Delta", sur)]

instance (x : ViewChangeInput × Surroundings) : Decidable (x.1.FromOthers cfg.name) :=
  match x with
  | (.instanceChange _ _, _) => inferInstanceAs (Decidable (_ ≠ _))
  | (.checkPerformance, _) => inferInstanceAs (Decidable True)
  | (.suspicion _, _) => inferInstanceAs (Decidable True)
  | (.nodeAboutToBeDisconnected _, _) => inferInstanceAs (Decidable True)
  | (.connsChanged _ _, _) => inferInstanceAs (Decidable True)
  | (.proposeViewChange, _) => inferInstanceAs (Decidable True)
  | (.primaryFound, _) => inferInstanceAs (Decidable True)

theorem run_isSome : (runAll (ViewChanger.step cfg) (fun _ x _ => x.1.FromOthers cfg.name) ViewChanger.init run).isSome :=
  by decide +kernel

end QuorumOfThree

open QuorumOfThree in
/-- the own vote for view 2 follows the first one for it, and the third one moves the node there -/
theorem quorumOfThree : ∃ s, Core.Reach (ViewChanger.step cfg) (fun _ x _ => x.1.FromOthers cfg.name) ViewChanger.init s ∧
    s.viewNo = 2 ∧ VoteTable.Leads 0 s.viewMoves s.viewNo := by
  obtain ⟨s, hs, hview⟩ : ∃ s, Core.Reach (ViewChanger.step cfg) (fun _ x _ => x.1.FromOthers cfg.name)
      ViewChanger.init s ∧ s.viewNo = 2 := ⟨_, reach_get run run_isSome, by decide +kernel⟩
  exact ⟨s, hs, hview, (view_change_needs_quorum cfg hs).2.1⟩

end Plenum
