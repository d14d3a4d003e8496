/-
Which PRE-PREPAREs that wait for earlier ones are released.

- `handedOver`: the PRE-PREPAREs that the loop of `dequeuePrePrepares` hands to `processPrePrepare`, one after the other
  (`exec_drainPrePrepares`).
- `PendingOk`: the invariant of the queues, in every state that a replica gets into, also by catching up, by changes of
  the view and by whatever else the node does to it.
- `released_iff`: the loop looks at the lowest entry only. So the next PRE-PREPARE in sequence is handed over if and only
  if no entry with a smaller number waits, and the entry is not overwritten by another one for the same batch.
- `duplicate_blocks`: an entry that has become too old, because its PRE-PREPARE was sent again, blocks all later ones.
-/
import Mathlib.Tactic
import Plenum.Core.Run
import Plenum.Server.ReplicaFrame
import Plenum.Server.InSequence

namespace Plenum

open Plenum.Core Plenum.Core.Exec

variable {ω σ τ : Type}

namespace Core.SortedDict

variable {κ β α : Type} [DecidableEq κ] [LinearOrder β] {f : κ → β}

omit [DecidableEq κ] in
/-- the first entry has the least key -/
theorem first?_le {d : SortedDict f α} {e x : κ × α} (h : d.first? = some e) (hx : x ∈ d.entries) : f e.1 ≤ f x.1 := by
  have hs := d.sorted
  rw [first?] at h
  obtain ⟨l, hl⟩ := List.head?_eq_some_iff.1 h
  rw [hl] at hs hx
  rcases List.mem_cons.1 hx with rfl | hx
  · exact le_rfl
  · exact (List.pairwise_cons.1 hs).1 x hx

end Core.SortedDict

namespace Replica

variable (env : Env ω σ τ) (fuel : ℕ)

/-! ## The loop -/

/-- what the loop of `dequeuePrePrepares` hands to `processPrePrepare` in at most `n` rounds -/
def handedOver : ℕ → Replica ω σ τ → List (PrePrepare × RepName)
  | 0, _ => []
  | n + 1, s =>
    match s.prePreparesPendingPrevPP.first? with
    | none => []
    | some (key, pp, sender) =>
      if s.isNextPrePrepare key.2 then
        let s := { s with prePreparesPendingPrevPP := s.prePreparesPendingPrevPP.erase key }
        match (exec (canPpSeqNoBeInView pp.viewNo pp.ppSeqNo) s).1 with
        | .error _ => []
        | .ok false => handedOver n s
        | .ok true =>
          (pp, sender) ::
            match exec (processPrePrepare env fuel (dispatchThreePhaseMsg env fuel fuel) pp sender) s with
            | (.error _, _) => []
            | (.ok _, s) => handedOver n s
      else []

/-- what is handed over first, the loop processes first, after it has dropped entries of earlier views -/
theorem exec_drainPrePrepares {n : ℕ} {s : Replica ω σ τ} {pp : PrePrepare} {sender : RepName}
    (h : (handedOver env fuel n s).head? = some (pp, sender)) :
    ∃ keys m, exec (drainPrePrepares env fuel n) s =
      exec (do
        processPrePrepare env fuel (dispatchThreePhaseMsg env fuel fuel) pp sender
        let r ← drainPrePrepares env fuel m
        pure (r + 1))
        { s with prePreparesPendingPrevPP := s.prePreparesPendingPrevPP.eraseAll keys } := by
  induction n generalizing s with
  | zero => cases h
  | succ n ih =>
    rw [handedOver] at h
    rw [drainPrePrepares, exec_bind, exec_get]
    dsimp only
    cases hfirst : s.prePreparesPendingPrevPP.first? with
    | none =>
      rw [hfirst] at h
      cases h
    | some e =>
      obtain ⟨key, pp0, sender0⟩ := e
      rw [hfirst] at h
      dsimp only at h ⊢
      by_cases hnext : s.isNextPrePrepare key.2 = true
      · rw [if_pos hnext] at h
        rw [if_pos hnext, exec_bind, exec_modify]
        dsimp only
        rw [exec_bind]
        have hstate := canPpSeqNoBeInView_state pp0.viewNo pp0.ppSeqNo
          { s with prePreparesPendingPrevPP := s.prePreparesPendingPrevPP.erase key }
        rcases hview : exec (canPpSeqNoBeInView pp0.viewNo pp0.ppSeqNo)
          { s with prePreparesPendingPrevPP := s.prePreparesPendingPrevPP.erase key } with ⟨e | inView, s1⟩
        · rw [hview] at h
          cases h
        · rw [hview] at h hstate
          subst hstate
          dsimp only at h ⊢
          cases inView with
          | false =>
            obtain ⟨keys, m, hrun⟩ := ih h
            refine ⟨key :: keys, m, ?_⟩
            rw [if_neg Bool.false_ne_true]
            exact hrun
          | true =>
            rw [List.head?_cons, Option.some.injEq, Prod.mk.injEq] at h
            obtain ⟨rfl, rfl⟩ := h
            refine ⟨[key], n, ?_⟩
            rw [if_pos rfl]
            rfl
      · rw [if_neg hnext] at h
        cases h

/-! ## The queues -/

/-- every waiting PRE-PREPARE is of the current view or an earlier one, and none of them has ended; those that wait for
earlier ones wait under their own keys -/
structure PendingOk (s : Replica ω σ τ) : Prop where
  finReqs : ∀ e ∈ s.prePreparesPendingFinReqs, e.1.viewNo ≤ s.node.viewNo
  prevPP : ∀ e ∈ s.prePreparesPendingPrevPP.entries, e.2.1.key = e.1 ∧ e.2.1.viewNo ≤ s.node.viewNo
  viewEndsAt : s.viewEndsAt = Dict.empty

variable {env fuel} {s : Replica ω σ τ}

theorem PendingOk.congr {s' : Replica ω σ τ} (h : PendingOk s) (hfin : s'.prePreparesPendingFinReqs = s.prePreparesPendingFinReqs)
    (hprev : s'.prePreparesPendingPrevPP = s.prePreparesPendingPrevPP) (hview : s.node.viewNo ≤ s'.node.viewNo)
    (hends : s'.viewEndsAt = s.viewEndsAt) : PendingOk s' := by
  refine ⟨fun e he => ?_, fun e he => ?_, hends.trans h.viewEndsAt⟩
  · rw [hfin] at he
    exact (h.finReqs e he).trans hview
  · rw [hprev] at he
    exact ⟨(h.prevPP e he).1, (h.prevPP e he).2.trans hview⟩

/-- one more entry under its own key -/
theorem PendingOk.set (h : PendingOk s) {pp : PrePrepare} (hpp : pp.viewNo ≤ s.node.viewNo) (sender : RepName) :
    PendingOk { s with prePreparesPendingPrevPP := s.prePreparesPendingPrevPP.set pp.key (pp, sender) } := by
  refine ⟨h.finReqs, fun e he => ?_, h.viewEndsAt⟩
  rcases SortedDict.mem_set.1 he with rfl | ⟨he, -⟩
  · exact ⟨rfl, hpp⟩
  · exact h.prevPP e he

theorem PendingOk.foldl_set (h : PendingOk s) {l : List (PrePrepare × RepName × List ReqKey)}
    (hl : ∀ e ∈ l, e.1.viewNo ≤ s.node.viewNo) :
    let pendingPrevPP := l.foldl (fun d e => d.set e.1.key (e.1, e.2.1)) s.prePreparesPendingPrevPP
    PendingOk { s with prePreparesPendingPrevPP := pendingPrevPP } := by
  induction l generalizing s with
  | nil => exact h
  | cons e l ih =>
    exact ih (h.set (hl e List.mem_cons_self) e.2.1) fun e' he' => hl e' (List.mem_cons_of_mem e he')

theorem PendingOk.ready (h : PendingOk s) : PendingOk s.movePrePreparesReady := by
  have hpending : ∀ e ∈ s.prePreparesPendingFinReqs.map fun e => (e.1, e.2.1, s.nonFinalisedReqs e.2.2),
      e.1.viewNo ≤ s.node.viewNo := by
    intro e he
    obtain ⟨e', he', rfl⟩ := List.mem_map.1 he
    exact h.finReqs e' he'
  have hset := h.foldl_set (l := ((s.prePreparesPendingFinReqs.map fun e => (e.1, e.2.1, s.nonFinalisedReqs e.2.2)).filter
    fun e => e.2.2 = []).reverse) fun e he => hpending e (List.mem_of_mem_filter (List.mem_reverse.1 he))
  exact ⟨fun e he => hpending e (List.mem_of_mem_filter he), hset.prevPP, hset.viewEndsAt⟩

/-- the methods keep the queues in order -/
theorem pendingOk_framed (v : ℕ) :
    WaitingFramed (fun s : Replica ω σ τ => PendingOk s ∧ s.node.viewNo = v) fun pp => pp.viewNo ≤ v := by
  constructor
  · rintro s s' hwaiting ⟨h, hv⟩
    simp only [waiting, Prod.mk.injEq] at hwaiting
    obtain ⟨hfin, hprev, hview, hends⟩ := hwaiting
    exact ⟨h.congr hfin hprev hview.ge hends, hview.trans hv⟩
  · rintro s pp ⟨-, hv⟩ hcan
    by_contra hlt
    unfold canPpSeqNoBeInView at hcan
    rw [exec_bind, exec_get] at hcan
    dsimp only at hcan
    rw [if_pos (by omega)] at hcan
    cases hcan
  · rintro s pp sender nonFinReqs hpp ⟨h, hv⟩
    unfold enqueuePrePrepare
    rw [exec_modify]
    dsimp only
    by_cases hnil : nonFinReqs ≠ []
    · rw [if_pos hnil]
      refine ⟨⟨fun e he => ?_, h.prevPP, h.viewEndsAt⟩, hv⟩
      rcases List.mem_append.1 he with he | he
      · exact h.finReqs e he
      · rw [List.mem_singleton.1 he]
        exact hpp.trans hv.ge
    · rw [if_neg hnil]
      exact ⟨h.set (hpp.trans hv.ge) sender, hv⟩
  · rintro s ⟨h, hv⟩
    exact ⟨h.ready, hv⟩
  · rintro s key ⟨h, hv⟩
    exact ⟨⟨h.finReqs, fun e he => h.prevPP e (SortedDict.mem_erase.1 he).1, h.viewEndsAt⟩, hv⟩

/-! ## What is handed over first -/

/-- there is one next number -/
theorem isNextPrePrepare_iff {p q : ℕ} (hp : s.isNextPrePrepare p = true) : s.isNextPrePrepare q = true ↔ q = p := by
  unfold isNextPrePrepare at hp ⊢
  simp only [decide_eq_true_eq] at hp ⊢
  rw [hp]

/-- nothing ends a view, so only what is of the current one can belong to it -/
theorem exec_canPpSeqNoBeInView (h : PendingOk s) {viewNo : ℕ} (hle : viewNo ≤ s.node.viewNo) (ppSeqNo : ℕ) :
    exec (canPpSeqNoBeInView viewNo ppSeqNo) s = (.ok (decide (viewNo = s.node.viewNo)), s) := by
  unfold canPpSeqNoBeInView
  rw [exec_bind, exec_get]
  dsimp only
  rw [if_neg (not_lt.2 hle), h.viewEndsAt, Dict.get?_empty, Option.any_none, Bool.or_false, exec_pure]

theorem PendingOk.erase (h : PendingOk s) (key : TPCKey) :
    PendingOk { s with prePreparesPendingPrevPP := s.prePreparesPendingPrevPP.erase key } :=
  ⟨h.finReqs, fun e he => h.prevPP e (SortedDict.mem_erase.1 he).1, h.viewEndsAt⟩

variable {pp : PrePrepare} {sender : RepName}

/-- **The loop looks at the lowest entry only.** It starts with the next PRE-PREPARE of the current view if and only if no
entry has a smaller number. -/
theorem head?_handedOver (h : PendingOk s) (hview : pp.viewNo = s.node.viewNo)
    (hnext : s.isNextPrePrepare pp.ppSeqNo = true) {n : ℕ} (hn : s.prePreparesPendingPrevPP.size ≤ n) :
    (handedOver env fuel n s).head? = some (pp, sender) ↔
      s.prePreparesPendingPrevPP.get? pp.key = some (pp, sender) ∧
        ∀ e ∈ s.prePreparesPendingPrevPP.entries, pp.ppSeqNo ≤ e.1.2 := by
  induction n generalizing s with
  | zero =>
    have hnil : s.prePreparesPendingPrevPP.entries = [] := List.length_eq_zero_iff.1 (Nat.le_zero.1 hn)
    simp [handedOver, Dict.get?, hnil]
  | succ n ih =>
    rw [handedOver]
    cases hfirst : s.prePreparesPendingPrevPP.first? with
    | none =>
      have hnil : s.prePreparesPendingPrevPP.entries = [] := List.head?_eq_none_iff.1 hfirst
      simp [Dict.get?, hnil]
    | some e =>
      obtain ⟨key, pp0, sender0⟩ := e
      have hmem := SortedDict.first?_mem hfirst
      have hlow := fun e he => SortedDict.first?_le hfirst (x := e) he
      obtain ⟨hkey, hle⟩ := h.prevPP _ hmem
      dsimp only at hkey hle hlow ⊢
      by_cases heq : key.2 = pp.ppSeqNo
      · rw [if_pos ((isNextPrePrepare_iff hnext).2 heq)]
        rw [exec_canPpSeqNoBeInView (h.erase key) hle pp0.ppSeqNo]
        by_cases hcurrent : pp0.viewNo = s.node.viewNo
        · -- the entry is the one of the batch itself
          have hsame : key = pp.key := by
            rw [← hkey]
            exact Prod.ext (hcurrent.trans hview.symm) ((congrArg Prod.snd hkey).trans heq)
          have hget : s.prePreparesPendingPrevPP.get? pp.key = some (pp0, sender0) :=
            Dict.get?_eq_some.2 (hsame ▸ hmem)
          simp only [hcurrent, decide_true, List.head?_cons, hget]
          refine ⟨fun he => ⟨he, fun e he' => ?_⟩, And.left⟩
          exact heq ▸ hlow e he'
        · -- an entry of an earlier view is dropped
          have hne : pp.key ≠ key := by
            rw [← hkey]
            intro he
            exact hcurrent ((congrArg Prod.fst he).symm.trans hview)
          simp only [hcurrent, decide_false]
          have hsize : (s.prePreparesPendingPrevPP.erase key).size ≤ n := by
            have hlt : ((s.prePreparesPendingPrevPP.entries.filter fun e => e.1 ≠ key).length) <
                s.prePreparesPendingPrevPP.entries.length :=
              List.length_filter_lt_length_iff_exists.2 ⟨_, hmem, by simp⟩
            exact Nat.le_of_lt_succ (hlt.trans_le hn)
          rw [ih (h.erase key) hview hnext hsize]
          refine and_congr ?_ ?_
          · have hget := Dict.get?_erase s.prePreparesPendingPrevPP.toDict key pp.key
            rw [if_neg hne] at hget
            exact Eq.congr_left hget
          · refine ⟨fun hall e he => ?_, fun hall e he => hall e (SortedDict.mem_erase.1 he).1⟩
            by_cases hek : e.1 = key
            · rw [hek, heq]
            · exact hall e (SortedDict.mem_erase.2 ⟨he, hek⟩)
      · rw [if_neg fun he => heq ((isNextPrePrepare_iff hnext).1 he)]
        constructor
        · intro he
          cases he
        · rintro ⟨hget, hall⟩
          exact absurd (le_antisymm (hlow _ (Dict.get?_eq_some.1 hget)) (hall _ hmem)) heq

/-! ## Runs -/

/-- the node has caught up to `ppSeqNo` -/
def caughtUpTillPpSeqNo (ppSeqNo : ℕ) (s : Replica ω σ τ) : Replica ω σ τ := s.addToOrdered (s.node.viewNo, ppSeqNo)

end Replica

/-- what happens to a replica over catch-ups and changes of the view: `elsewhere` is whatever else its node does to it -/
inductive PendingInput (ω σ τ : Type) where
  | input (i : ReplicaInput ω σ τ)
  | caughtUpTillPpSeqNo (ppSeqNo : ℕ)
  | elsewhere (s : Replica ω σ τ)

namespace RunningReplica

variable (env : Env ω σ τ)

def pendingInput (r : RunningReplica ω σ τ) : PendingInput ω σ τ → Option (RunningReplica ω σ τ)
  | .input i => some (r.input env i)
  | .caughtUpTillPpSeqNo ppSeqNo => some { r with replica := r.replica.caughtUpTillPpSeqNo ppSeqNo }
  | .elsewhere s => some { r with replica := s }

/-- nothing else writes the queues of waiting PRE-PREPAREs or `viewEndsAt`, and the view never goes back -/
def LeavesPending (r : RunningReplica ω σ τ) : PendingInput ω σ τ → Prop
  | .elsewhere s =>
    s.prePreparesPendingFinReqs = r.replica.prePreparesPendingFinReqs ∧
      s.prePreparesPendingPrevPP = r.replica.prePreparesPendingPrevPP ∧ s.viewEndsAt = r.replica.viewEndsAt ∧
      r.replica.node.viewNo ≤ s.node.viewNo
  | _ => True

variable {env}

/-- **Every input keeps the queues in order.** -/
theorem pendingOk_input {r : RunningReplica ω σ τ} (h : Replica.PendingOk r.replica) (i : ReplicaInput ω σ τ) :
    Replica.PendingOk (r.input env i).replica := by
  have hframed := Replica.pendingOk_framed (ω := ω) (σ := σ) (τ := τ) r.replica.node.viewNo
  cases i with
  | receive m => exact h.congr rfl rfl le_rfl rfl
  | serviceQueues fuel limit perfCounter time =>
    exact (hframed.serviceQueues limit { r.replica with perfCounter := perfCounter, time := time }
      ⟨h.congr rfl rfl le_rfl rfl, rfl⟩).1
  | processStashedOutOfOrderCommits fuel => exact (hframed.processStashedOutOfOrderCommits r.replica ⟨h, rfl⟩).1
  | nodeChanged requests dbs suspicions => exact h.congr rfl rfl le_rfl rfl
  | takeFromOutBox =>
    unfold RunningReplica.input
    cases r.replica.outBox with
    | nil => exact h
    | cons m rest => exact h.congr rfl rfl le_rfl rfl

theorem pendingOk_pendingInput {r r' : RunningReplica ω σ τ} (h : Replica.PendingOk r.replica) {x : PendingInput ω σ τ}
    (hs : r.pendingInput env x = some r') (hx : r.LeavesPending x) : Replica.PendingOk r'.replica := by
  cases x with
  | input i =>
    cases hs
    exact pendingOk_input h i
  | caughtUpTillPpSeqNo ppSeqNo =>
    cases hs
    exact h.congr rfl rfl le_rfl rfl
  | elsewhere s =>
    cases hs
    obtain ⟨hfin, hprev, hends, hview⟩ := hx
    exact h.congr hfin hprev hview hends

end RunningReplica

/-- a replica whose queues are in order at the start has them in order in every state it gets into -/
theorem Replica.pendingOk_init (env : Env ω σ τ) (node : Node ω σ τ) (instId : ℕ) (isMaster : Bool)
    (primaryName : Option RepName) : (Replica.init env node instId isMaster primaryName).PendingOk :=
  ⟨fun _ he => absurd he List.not_mem_nil, fun _ he => absurd he List.not_mem_nil, rfl⟩

/-- **When the next PRE-PREPARE is released.** In every state that a replica gets into, `dequeuePrePrepares` hands the next
PRE-PREPARE of the current view to `processPrePrepare` if and only if, once the PRE-PREPAREs whose requests are finalised
have joined the queue, the entry is still there and none with a smaller number is. What is handed over is what the loop
processes, after it has dropped entries of earlier views. -/
theorem released_iff (env : Env ω σ τ) (node : Node ω σ τ) (instId : ℕ) (isMaster : Bool) (primaryName : Option RepName)
    {r : RunningReplica ω σ τ}
    (hr : Core.Reach (RunningReplica.pendingInput env) (fun r x _ => r.LeavesPending x)
      ⟨Replica.init env node instId isMaster primaryName, []⟩ r)
    {pp : PrePrepare} (sender : RepName) (hview : pp.viewNo = r.replica.node.viewNo)
    (hnext : r.replica.isNextPrePrepare pp.ppSeqNo = true) (fuel : ℕ)
    (hfuel : r.replica.movePrePreparesReady.prePreparesPendingPrevPP.size ≤ fuel) :
    let queue := r.replica.movePrePreparesReady.prePreparesPendingPrevPP
    ((Replica.handedOver env fuel fuel r.replica.movePrePreparesReady).head? = some (pp, sender) ↔
      queue.get? pp.key = some (pp, sender) ∧ ∀ e ∈ queue.entries, pp.ppSeqNo ≤ e.1.2) ∧
    ((Replica.handedOver env fuel fuel r.replica.movePrePreparesReady).head? = some (pp, sender) →
      ∃ keys m, exec (Replica.drainPrePrepares env fuel fuel) r.replica.movePrePreparesReady =
        exec (do
          Replica.processPrePrepare env fuel (Replica.dispatchThreePhaseMsg env fuel fuel) pp sender
          let n ← Replica.drainPrePrepares env fuel m
          pure (n + 1))
          { r.replica.movePrePreparesReady with prePreparesPendingPrevPP := queue.eraseAll keys }) := by
  have hok : r.replica.PendingOk := Core.Reach.inv (I := fun r => Replica.PendingOk r.replica)
    (Replica.pendingOk_init env node instId isMaster primaryName)
    (fun r x r' h hs hx => RunningReplica.pendingOk_pendingInput h hs hx) hr
  exact ⟨Replica.head?_handedOver hok.ready hview hnext hfuel, Replica.exec_drainPrePrepares env fuel⟩

/-- a run without catch-ups and changes of the view -/
theorem RunningReplica.reach_run (env : Env ω σ τ) (r : RunningReplica ω σ τ) (inputs : List (ReplicaInput ω σ τ)) :
    Core.Reach (pendingInput env) (fun r x _ => r.LeavesPending x) r (r.run env inputs) := by
  induction inputs generalizing r with
  | nil => exact Core.Reach.refl
  | cons i inputs ih =>
    have hstep : Core.Reach (pendingInput env) (fun r x _ => r.LeavesPending x) r (r.input env i) :=
      Core.Reach.refl.step (e := .input i) rfl trivial
    exact hstep.trans (ih (r.input env i))

/-! ## Witnesses -/

namespace FourNodes

/-- a node with four finalised requests -/
def fourRequests (name : NodeName) : Node Bool ℕ ReqKey :=
  node name ([1, 2, 3, 4].foldl (fun d p => d.set (request p "a").key (forwarded (request p "a") 2 [])) Dict.empty)

/-- the master replica of Beta -/
def masterOfBeta : RunningReplica Bool ℕ ReqKey :=
  ⟨Replica.init (env 100) (fourRequests "Beta") 0 true (some primary), []⟩

/-- it gets the PRE-PREPAREs with these numbers from Alpha, in one inbox -/
def getsInOrder (ppSeqNos : List ℕ) : RunningReplica Bool ℕ ReqKey :=
  masterOfBeta.run (env 100) ((ppSeqNos.map fun p =>
    .receive (.threePhase (.prePrepare (prePrepare p (request p "a"))) "Alpha")) ++ [.serviceQueues 20 none 0 0])

/-- the second PRE-PREPARE waits, and the node catches up past the first -/
def caughtUpPastFirst : RunningReplica Bool ℕ ReqKey :=
  { getsInOrder [2] with replica := (getsInOrder [2]).replica.caughtUpTillPpSeqNo 1 }

end FourNodes

open FourNodes in
theorem released_iff_caughtUpPastFirst :
    (Replica.handedOver (env 100) 20 20 caughtUpPastFirst.replica.movePrePreparesReady).head? =
      some (prePrepare 2 (request 2 "a"), primary) := by
  have hr : Core.Reach (RunningReplica.pendingInput (env 100)) (fun r x _ => r.LeavesPending x) masterOfBeta
      caughtUpPastFirst :=
    (RunningReplica.reach_run (env 100) masterOfBeta _).step (e := .caughtUpTillPpSeqNo 1) rfl trivial
  exact (released_iff (env 100) (fourRequests "Beta") 0 true (some primary) hr primary (by decide +kernel)
    (by decide +kernel) 20 (by decide +kernel)).1.2 (by decide +kernel)

open FourNodes in
/-- **A PRE-PREPARE sent twice blocks.** The second one waits for the first, and is taken in once it comes again after the
first. Then the third one lets the fourth be next, but the second still waits and is looked at before. -/
theorem duplicate_blocks :
    let s := (getsInOrder [2, 1, 2, 4, 3]).replica
    let pp := prePrepare 4 (request 4 "a")
    s.node.isParticipating = true ∧ s.isPrimary = some false ∧ pp.viewNo = s.node.viewNo ∧
      s.prePreparesPendingPrevPP.get? pp.key = some (pp, primary) ∧ s.isNextPrePrepare pp.ppSeqNo = true ∧
      Replica.handedOver (env 100) 20 20 s.movePrePreparesReady = [] ∧
      (exec (Replica.dequeuePrePrepares (env 100) 20) s).1 = .ok 0 := by
  decide +kernel

end Plenum
