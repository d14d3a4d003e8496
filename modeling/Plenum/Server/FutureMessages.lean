/-
The messages that are ahead of a node: each waits until its instance exists and its view is the current one.

- `DeliveredOnce`: a kept message whose instance and view have been reached is in the queue it belongs in, once, and the
  kept messages of a view are there in the order in which they came; none is put there in another view.
- A CHECKPOINT is kept, but it is not of the types that are routed again, so it is discarded when its turn comes. A
  message of the previous view that waits for an instance is routed although its view is over. And messages for several
  instances share the queue of the elector, but wait for each instance apart.
- `Releasable`: none of this happens in a step. `Keeping` is what the stashes and the queues then hold,
  `kept_deliveredOnce` what follows for every run.
- `checkpoint_discarded`: the CHECKPOINT of a later view.
-/
import Mathlib.Tactic
import Plenum.Server.NodeRouting

namespace Plenum

open Plenum.Core

namespace RoutingNode

/-! ## Delivered once -/

/-- in the order of arrival -/
def Ascending (ws : List WrappedMsg) : Prop := ws.Pairwise fun w w' => w.arrival < w'.arrival

instance (ws : List WrappedMsg) : Decidable (Ascending ws) := by
  unfold Ascending
  infer_instance

/-- the kept messages that were put in a queue in a view -/
def keptPuts (s : RoutingNode) (q : MsgQueue) (viewNo : ℕ) : List Put :=
  s.puts.filter fun p => p.queue = q ∧ p.viewNo = viewNo ∧ p.wrapped ∈ s.kept

/-- **Delivered once.** What is asked of the messages that were ahead of the node when they came. -/
structure DeliveredOnce (s : RoutingNode) : Prop where
  once : ∀ w ∈ s.kept, w.instId < s.replicas.length → w.viewNo = s.viewNo →
    (s.puts.filter fun p => p.wrapped = w).length = 1
  atMostOnce : ∀ w ∈ s.kept, (s.puts.filter fun p => p.wrapped = w).length ≤ 1
  ownQueue : ∀ p ∈ s.puts, p.wrapped ∈ s.kept → p.queue = p.wrapped.msg.queue
  ownView : ∀ p ∈ s.puts, p.wrapped ∈ s.kept → p.viewNo = p.wrapped.viewNo
  inOrder : ∀ q viewNo, Ascending ((s.keptPuts q viewNo).map Put.wrapped)

/-! ## Conditions -/

/-- what may not wait for an instance that is added -/
structure MayAdd (s : RoutingNode) (instId : ℕ) : Prop where
  noCheckpoint : ∀ w ∈ s.kept, w.instId = instId → w.viewNo = s.viewNo → w.msg.isCheckpoint = false
  notPrevious : ∀ w ∈ s.kept, w.instId = instId → w.viewNo + 1 = s.viewNo → w.msg.isCheckpoint = true
  elections : ∀ w ∈ s.kept, w.instId = instId → w.viewNo = s.viewNo → w.msg.isElection = true →
    ∀ w' ∈ s.kept, w'.instId < instId → w'.viewNo = s.viewNo → w'.msg.isElection = true → w'.arrival < w.arrival

/-- what may not wait for a view that is entered -/
structure MayEnter (s : RoutingNode) (viewNo : ℕ) : Prop where
  noCheckpoint : ∀ w ∈ s.kept, w.viewNo = viewNo → w.instId < s.replicas.length → w.msg.isCheckpoint = false
  elections : Ascending ((s.waiting (.futureView viewNo)).filter fun w => w.msg.isElection)

/-- a pool change removes no replica -/
def OnlyAdds (s : RoutingNode) (e : Event) : Prop :=
  ∀ nodeReg ∈ e.nodeReg?, s.replicas.length ≤ (Plenum.setF nodeReg s.name).f + 1

/-- **Releasable.** Nothing is lost, comes too late or is overtaken in the step. -/
def Releasable (s : RoutingNode) (e : Event) : Prop :=
  (∀ viewNo, e = .viewChange viewNo → s.viewNo < viewNo → s.MayEnter viewNo) ∧
    ∀ nodeReg ∈ e.nodeReg?, ∀ instId, s.replicas.length ≤ instId → instId ≤ (Plenum.setF nodeReg s.name).f →
      s.MayAdd instId

/-! ## What waits -/

variable {s s' : RoutingNode}

theorem waiting_setWaiting (s : RoutingNode) (ws : List WrappedMsg) (st st' : Stash) :
    (s.setWaiting ws st).waiting st' = if st' = st then ws else s.waiting st' := by
  cases st with
  | futureReplica instId =>
    cases st' with
    | futureReplica instId' =>
      simp only [setWaiting, waiting, Dict.get?_set, Stash.futureReplica.injEq]
      split_ifs <;> rfl
    | futureView viewNo => rfl
  | futureView viewNo =>
    cases st' with
    | futureReplica instId => rfl
    | futureView viewNo' =>
      simp only [setWaiting, waiting, Dict.get?_set, Stash.futureView.injEq]
      split_ifs <;> rfl

theorem setWaiting_puts (s : RoutingNode) (ws : List WrappedMsg) (st : Stash) : (s.setWaiting ws st).puts = s.puts := by
  cases st <;> rfl

theorem popKeys_get? (d : Dict ℕ (List WrappedMsg)) (cond : ℕ → Bool) (k : ℕ) :
    (popKeys d cond).get? k = if cond k then none else d.get? k := by
  unfold popKeys
  rw [Dict.get?_eraseAll]
  by_cases hcond : cond k = true
  · rw [if_pos hcond]
    by_cases hmem : k ∈ d.keys
    · rw [if_pos (List.mem_filter.2 ⟨hmem, hcond⟩)]
    · rw [if_neg fun h => hmem (List.mem_filter.1 h).1, Dict.get?_eq_none.2 hmem]
  · rw [if_neg hcond, if_neg fun h => hcond (List.mem_filter.1 h).2]

/-! ## Routing a message again -/

/-- whether a message of an existing instance is put in a queue in the view -/
def goesToQueue (viewNo : ℕ) (w : WrappedMsg) : Bool :=
  !w.msg.isCheckpoint && decide (w.viewNo ≤ viewNo) && decide (viewNo ≤ w.viewNo + 1)

/-- whether it is kept again -/
def goesToStash (viewNo : ℕ) : Stash → WrappedMsg → Bool
  | .futureReplica _, _ => false
  | .futureView v, w => !w.msg.isCheckpoint && decide (viewNo < w.viewNo) && decide (w.viewNo = v)

/-- **Routed again.** What becomes of messages of existing instances; `st` is the stash they are taken from. -/
structure Released (s s' : RoutingNode) (st : Stash) (ws : List WrappedMsg) : Prop where
  routed : Routed s s'
  puts : s'.puts = s.puts ++ (ws.filter (goesToQueue s.viewNo)).map fun w => ⟨w, w.msg.queue, s.viewNo⟩
  others : ∀ st', st' ≠ st → s'.waiting st' = s.waiting st' ++ ws.filter (goesToStash s.viewNo st')

theorem putToReplica_waiting (s : RoutingNode) (w : WrappedMsg) (st : Stash) :
    (s.putToReplica w).waiting st = s.waiting st := by cases st <;> rfl

theorem putToElector_waiting (s : RoutingNode) (w : WrappedMsg) (st : Stash) :
    (s.putToElector w).waiting st = s.waiting st := by cases st <;> rfl

theorem waiting_keepFor (s : RoutingNode) (st st' : Stash) (w : WrappedMsg) :
    (s.keepFor st w).waiting st' = s.waiting st' ++ if st' = st then [w] else [] := by
  rw [keepFor, waiting_setWaiting]
  split_ifs with h
  · rw [h]
  · rw [List.append_nil]

/-- what a send does to a message of an existing instance; `put` is the last step of the send -/
theorem send_spec {w : WrappedMsg} (hinst : w.instId < s.msgsToReplicas.length)
    (hcheck : w.msg.isCheckpoint = false) (put : RoutingNode → RoutingNode)
    (hputs : (put s).puts = s.puts ++ [⟨w, w.msg.queue, s.viewNo⟩]) (hwaiting : ∀ st, (put s).waiting st = s.waiting st)
    (hs' : s' = match s.acceptable w with
      | (false, s) => s
      | (true, s) => put s) :
    s'.puts = s.puts ++ ([w].filter (goesToQueue s.viewNo)).map (fun w => ⟨w, w.msg.queue, s.viewNo⟩) ∧
      ∀ st, s'.waiting st = s.waiting st ++ [w].filter (goesToStash s.viewNo st) := by
  rcases acceptable_cases s w with ⟨h, -⟩ | ⟨-, hold, hacc⟩ | ⟨-, hahead, hacc⟩ | ⟨-, hle, hge, hacc⟩
  · exact absurd hinst (not_lt.2 h)
  · -- the message is of a view before the last one
    rw [hacc] at hs'
    subst hs'
    have hqueue : goesToQueue s'.viewNo w = false := by
      rw [goesToQueue, decide_eq_false (p := s'.viewNo ≤ w.viewNo + 1) (by omega), Bool.and_false]
    have hstash (st : Stash) : goesToStash s'.viewNo st w = false := by
      cases st with
      | futureReplica instId => rfl
      | futureView v =>
        rw [goesToStash, decide_eq_false (p := s'.viewNo < w.viewNo) (by omega), Bool.and_false, Bool.false_and]
    simp [hqueue, hstash]
  · -- of a later view
    rw [hacc] at hs'
    subst hs'
    have hqueue : goesToQueue s.viewNo w = false := by
      rw [goesToQueue, decide_eq_false (p := w.viewNo ≤ s.viewNo) (by omega), Bool.and_false, Bool.false_and]
    refine ⟨by simp [hqueue, keepFor, setWaiting_puts], fun st => ?_⟩
    rw [waiting_keepFor]
    cases st with
    | futureReplica instId => simp [goesToStash]
    | futureView v =>
      by_cases hv : w.viewNo = v
      · simp [goesToStash, hcheck, hv, hv ▸ hahead]
      · simp [goesToStash, hv, Ne.symm hv]
  · -- of the current view or the last one
    rw [hacc] at hs'
    subst hs'
    have hqueue : goesToQueue s.viewNo w = true := by
      simp [goesToQueue, hcheck, hle, hge]
    have hstash (st : Stash) : goesToStash s.viewNo st w = false := by
      cases st with
      | futureReplica instId => rfl
      | futureView v =>
        rw [goesToStash, decide_eq_false (p := s.viewNo < w.viewNo) (by omega), Bool.and_false, Bool.false_and]
    simp [hqueue, hstash, hputs, hwaiting]

/-- one message: it is put in its queue, kept for its view, or dropped -/
theorem dispatchStashedMsg_spec {w : WrappedMsg} (hinst : w.instId < s.msgsToReplicas.length) :
    (s.dispatchStashedMsg w).2.puts = s.puts ++ ([w].filter (goesToQueue s.viewNo)).map
        (fun w => ⟨w, w.msg.queue, s.viewNo⟩) ∧
      ∀ st, (s.dispatchStashedMsg w).2.waiting st = s.waiting st ++ [w].filter (goesToStash s.viewNo st) := by
  unfold dispatchStashedMsg
  cases hmsg : w.msg with
  | election m =>
    have hqueue : w.msg.queue = .elector := by rw [hmsg]; rfl
    refine send_spec hinst (by rw [hmsg]; rfl) (fun s => s.putToElector w) ?_
      (putToElector_waiting s w) rfl
    rw [hqueue]
    rfl
  | threePhase m =>
    have hqueue : w.msg.queue = .replica w.instId := by
      rw [WrappedMsg.instId, hmsg]
      rfl
    refine send_spec hinst (by rw [hmsg]; rfl) (fun s => s.putToReplica w) ?_
      (putToReplica_waiting s w) rfl
    rw [hqueue]
    rfl
  | checkpoint c =>
    have hcheck : w.msg.isCheckpoint = true := by rw [hmsg]; rfl
    have hstash (st : Stash) : goesToStash s.viewNo st w = false := by
      cases st with
      | futureReplica instId => rfl
      | futureView v => simp [goesToStash, hcheck]
    simp [goesToQueue, hcheck, hstash]

/-- **The loop over a stash** that no message goes back to: it ends with the stash empty. -/
theorem processStashed_released {st : Stash} (ws : List WrappedMsg) (s : RoutingNode) (hws : s.waiting st = ws)
    (hinst : ∀ w ∈ ws, w.instId < s.msgsToReplicas.length) (hback : ∀ w ∈ ws, goesToStash s.viewNo st w = false) :
    Released s (processStashed st ws.length s) st ws ∧ (processStashed st ws.length s).waiting st = [] := by
  induction ws generalizing s with
  | nil => exact ⟨⟨Routed.refl s, by simp [processStashed], by simp [processStashed]⟩, hws⟩
  | cons w rest ih =>
    have hset := setWaiting_routed s rest st
    have hrouted := hset.trans (dispatchStashedMsg_routed (s.setWaiting rest st) w)
    have hqueues := hrouted.queues
    have hview := hrouted.viewNo
    obtain ⟨hputs, hwaiting⟩ := dispatchStashedMsg_spec (s := s.setWaiting rest st) (w := w)
      (by rw [hset.queues]; exact hinst w List.mem_cons_self)
    have hloop : processStashed st (w :: rest).length s =
        processStashed st rest.length ((s.setWaiting rest st).dispatchStashedMsg w).2 := by
      rw [List.length_cons, processStashed, hws]
    -- the rest of the stash is what waits next
    have hrest : ((s.setWaiting rest st).dispatchStashedMsg w).2.waiting st = rest := by
      rw [hwaiting, hset.viewNo, List.filter_cons_of_neg (by rw [hback w List.mem_cons_self]; decide), List.filter_nil,
        List.append_nil, waiting_setWaiting, if_pos rfl]
    obtain ⟨hreleased, hempty⟩ := ih _ hrest (fun w' hw' => by
      rw [hqueues]
      exact hinst w' (List.mem_cons_of_mem _ hw')) fun w' hw' => by
      rw [hview]
      exact hback w' (List.mem_cons_of_mem _ hw')
    rw [hloop]
    refine ⟨⟨hrouted.trans hreleased.routed, ?_, fun st' hst' => ?_⟩, hempty⟩
    · rw [hreleased.puts, hputs, setWaiting_puts, hset.viewNo, hview, List.append_assoc, ← List.map_append,
        ← List.filter_append, List.singleton_append]
    · rw [hreleased.others st' hst', hwaiting, hset.viewNo, hview, waiting_setWaiting, if_neg hst', List.append_assoc,
        ← List.filter_append, List.singleton_append]

/-! ## The invariant -/

/-- **Keeping.** Where each kept message is. What waits for an instance is all that was kept for it; what waits for a
view is of existing instances; what was put in a queue was put there in its own view. -/
structure Keeping (s : RoutingNode) : Prop where
  queues : s.msgsToReplicas.length = s.replicas.length
  ascending : Ascending s.kept
  keptBefore : ∀ w ∈ s.kept, w.arrival < s.arrivals
  putBefore : ∀ p ∈ s.puts, p.wrapped.arrival < s.arrivals
  forReplica : ∀ i, s.replicas.length ≤ i → s.waiting (.futureReplica i) = s.kept.filter fun w => w.instId = i
  forView : ∀ v, s.viewNo < v → ∀ w ∈ s.waiting (.futureView v),
    w ∈ s.kept ∧ w.viewNo = v ∧ w.instId < s.replicas.length
  complete : ∀ w ∈ s.kept, s.viewNo < w.viewNo → w.instId < s.replicas.length → w.msg.isCheckpoint = false →
    w ∈ s.waiting (.futureView w.viewNo)
  viewOrder : ∀ v, s.viewNo < v → ∀ i,
    Ascending ((s.waiting (.futureView v)).filter fun w => w.msg.queue = .replica i)
  put : ∀ p ∈ s.puts, p.wrapped ∈ s.kept → p.queue = p.wrapped.msg.queue ∧ p.viewNo = p.wrapped.viewNo ∧
    p.viewNo ≤ s.viewNo ∧ p.wrapped.instId < s.replicas.length
  putOrder : ∀ q v, Ascending ((s.keptPuts q v).map Put.wrapped)
  reached : ∀ w ∈ s.kept, w.viewNo = s.viewNo → w.instId < s.replicas.length → ∃ p ∈ s.puts, p.wrapped = w

theorem mem_keptPuts {q : MsgQueue} {v : ℕ} {p : Put} :
    p ∈ s.keptPuts q v ↔ p ∈ s.puts ∧ p.queue = q ∧ p.viewNo = v ∧ p.wrapped ∈ s.kept := by
  unfold keptPuts
  rw [List.mem_filter, decide_eq_true_eq]

/-- in a list in the order of arrival no message is there twice -/
theorem Ascending.count_le_one {ps : List Put} (h : Ascending (ps.map Put.wrapped)) (w : WrappedMsg) :
    (ps.filter fun p => p.wrapped = w).length ≤ 1 := by
  have hsorted : (ps.filter fun p => p.wrapped = w).Pairwise fun p p' => p.wrapped.arrival < p'.wrapped.arrival :=
    (List.pairwise_map.1 h).sublist List.filter_sublist
  cases hcase : ps.filter fun p => p.wrapped = w with
  | nil => simp
  | cons p rest =>
    cases rest with
    | nil => simp
    | cons p' rest =>
      rw [hcase] at hsorted
      have hp : p ∈ ps.filter fun p => p.wrapped = w := by rw [hcase]; exact List.mem_cons_self
      have hp' : p' ∈ ps.filter fun p => p.wrapped = w := by
        rw [hcase]
        exact List.mem_cons_of_mem _ List.mem_cons_self
      have heq : p.wrapped = p'.wrapped :=
        (of_decide_eq_true (List.mem_filter.1 hp).2).trans (of_decide_eq_true (List.mem_filter.1 hp').2).symm
      have hlt := List.rel_of_pairwise_cons hsorted List.mem_cons_self
      rw [heq] at hlt
      exact absurd hlt (lt_irrefl _)

/-- what the invariant says of the queues -/
theorem Keeping.deliveredOnce (h : s.Keeping) : s.DeliveredOnce := by
  have hle (w : WrappedMsg) (hw : w ∈ s.kept) : (s.puts.filter fun p => p.wrapped = w).length ≤ 1 := by
    have hown : (s.puts.filter fun p => p.wrapped = w) =
        (s.keptPuts w.msg.queue w.viewNo).filter fun p => p.wrapped = w := by
      rw [keptPuts, List.filter_filter]
      refine List.filter_congr fun p hp => ?_
      by_cases hpw : p.wrapped = w
      · obtain ⟨hq, hv, -⟩ := h.put p hp (hpw ▸ hw)
        simp [hpw, hq, hv, hw]
      · simp [hpw]
    rw [hown]
    exact (h.putOrder _ _).count_le_one w
  refine ⟨fun w hw hinst hview => le_antisymm (hle w hw) ?_, hle, fun p hp hk => (h.put p hp hk).1,
    fun p hp hk => (h.put p hp hk).2.1, h.putOrder⟩
  obtain ⟨p, hp, hpw⟩ := h.reached w hw hview hinst
  exact List.length_pos_of_mem (List.mem_filter.2 ⟨hp, by simpa using hpw⟩)

/-! ## A message comes -/

/-- the four things that can become of a message -/
theorem nodeMsgRouter_cases (s : RoutingNode) (w : WrappedMsg) :
    (s.msgsToReplicas.length ≤ w.instId ∧ s.nodeMsgRouter w = s.keepFor (.futureReplica w.instId) w) ∨
      (w.instId < s.msgsToReplicas.length ∧ w.viewNo ≤ s.viewNo ∧ s.nodeMsgRouter w = s) ∨
      (w.instId < s.msgsToReplicas.length ∧ s.viewNo < w.viewNo ∧
        s.nodeMsgRouter w = s.keepFor (.futureView w.viewNo) w) ∨
      (w.instId < s.msgsToReplicas.length ∧ w.viewNo ≤ s.viewNo ∧
        (∀ st, (s.nodeMsgRouter w).waiting st = s.waiting st) ∧
        (s.nodeMsgRouter w).puts = s.puts ++ [⟨w, w.msg.queue, s.viewNo⟩]) := by
  have hsend : (w.msg.isElection = true ∧ s.nodeMsgRouter w = s.sendToElector w ∧ w.msg.queue = .elector) ∨
      (s.nodeMsgRouter w = s.sendToReplica w ∧ w.msg.queue = .replica w.instId) := by
    unfold nodeMsgRouter WrappedMsg.instId
    cases w.msg with
    | election m => exact Or.inl ⟨rfl, rfl, rfl⟩
    | threePhase m => exact Or.inr ⟨rfl, rfl⟩
    | checkpoint c => exact Or.inr ⟨rfl, rfl⟩
  rcases acceptable_cases s w with ⟨hinst, hacc⟩ | ⟨hinst, hold, hacc⟩ | ⟨hinst, hahead, hacc⟩ | ⟨hinst, hle, -, hacc⟩
  · refine Or.inl ⟨hinst, ?_⟩
    rcases hsend with ⟨-, hroute, -⟩ | ⟨hroute, -⟩
    · rw [hroute, sendToElector, hacc]
    · rw [hroute, sendToReplica, hacc]
  · refine Or.inr (Or.inl ⟨hinst, by omega, ?_⟩)
    rcases hsend with ⟨-, hroute, -⟩ | ⟨hroute, -⟩
    · rw [hroute, sendToElector, hacc]
    · rw [hroute, sendToReplica, hacc]
  · refine Or.inr (Or.inr (Or.inl ⟨hinst, hahead, ?_⟩))
    rcases hsend with ⟨-, hroute, -⟩ | ⟨hroute, -⟩
    · rw [hroute, sendToElector, hacc]
    · rw [hroute, sendToReplica, hacc]
  · refine Or.inr (Or.inr (Or.inr ⟨hinst, hle, ?_⟩))
    rcases hsend with ⟨-, hroute, hqueue⟩ | ⟨hroute, hqueue⟩
    · rw [hroute, sendToElector, hacc, hqueue]
      exact ⟨putToElector_waiting s w, rfl⟩
    · rw [hroute, sendToReplica, hacc, hqueue]
      exact ⟨putToReplica_waiting s w, rfl⟩

theorem Ascending.concat {ws : List WrappedMsg} {w : WrappedMsg} (h : Ascending ws)
    (hw : ∀ w' ∈ ws, w'.arrival < w.arrival) : Ascending (ws ++ [w]) := by
  refine List.pairwise_append.2 ⟨h, List.pairwise_singleton _ _, fun w' hw' w'' hw'' => ?_⟩
  rw [List.mem_singleton.1 hw'']
  exact hw w' hw'

theorem Ascending.filter {ws : List WrappedMsg} (h : Ascending ws) (p : WrappedMsg → Bool) : Ascending (ws.filter p) :=
  h.sublist List.filter_sublist

/-- a new message is none of those put in a queue before -/
theorem Keeping.mem_kept_concat (h : s.Keeping) {w : WrappedMsg} (hnew : w.arrival = s.arrivals) {p : Put}
    (hp : p ∈ s.puts) : p.wrapped ∈ s.kept ++ [w] ↔ p.wrapped ∈ s.kept := by
  rw [List.mem_append, List.mem_singleton]
  refine or_iff_left fun heq => ?_
  have := h.putBefore p hp
  rw [heq, hnew] at this
  exact lt_irrefl _ this

/-- the message has come and waits in the stash -/
structure KeptIn (s s' : RoutingNode) (st : Stash) (w : WrappedMsg) : Prop where
  viewNo : s'.viewNo = s.viewNo
  replicas : s'.replicas = s.replicas
  queues : s'.msgsToReplicas.length = s.msgsToReplicas.length
  arrivals : s'.arrivals = s.arrivals + 1
  kept : s'.kept = s.kept ++ [w]
  puts : s'.puts = s.puts
  waiting : ∀ st', s'.waiting st' = s.waiting st' ++ if st' = st then [w] else []

/-- the message is kept, for its instance or else for its view -/
theorem Keeping.keep (h : s.Keeping) {w : WrappedMsg} {st : Stash} (hnew : w.arrival = s.arrivals)
    (hst : (s.replicas.length ≤ w.instId ∧ st = .futureReplica w.instId) ∨
      (w.instId < s.replicas.length ∧ s.viewNo < w.viewNo ∧ st = .futureView w.viewNo))
    (hkept : KeptIn s s' st w) : s'.Keeping := by
  have hbefore : ∀ w' ∈ s.kept, w'.arrival < w.arrival := hnew ▸ h.keptBefore
  refine ⟨?_, ?_, ?_, ?_, ?_, ?_, ?_, ?_, ?_, ?_, ?_⟩
  · rw [hkept.queues, hkept.replicas, h.queues]
  · rw [hkept.kept]
    exact h.ascending.concat hbefore
  · intro w' hw'
    rw [hkept.kept, List.mem_append, List.mem_singleton] at hw'
    rw [hkept.arrivals]
    rcases hw' with hw' | rfl
    · exact (h.keptBefore w' hw').trans (Nat.lt_succ_self _)
    · rw [hnew]
      exact Nat.lt_succ_self _
  · intro p hp
    rw [hkept.puts] at hp
    rw [hkept.arrivals]
    exact (h.putBefore p hp).trans (Nat.lt_succ_self _)
  · intro i hi
    rw [hkept.replicas] at hi
    rw [hkept.waiting, hkept.kept, h.forReplica i hi, List.filter_append]
    congr 1
    rcases hst with ⟨-, rfl⟩ | ⟨hinst, -, rfl⟩
    · by_cases hiw : w.instId = i
      · simp [hiw]
      · simp [hiw, Ne.symm hiw]
    · have hiw : w.instId ≠ i := by omega
      simp [hiw]
  · intro v hv w' hw'
    rw [hkept.viewNo] at hv
    rw [hkept.waiting, List.mem_append] at hw'
    rw [hkept.kept, hkept.replicas]
    rcases hw' with hw' | hw'
    · obtain ⟨hk, hview, hinst⟩ := h.forView v hv w' hw'
      exact ⟨List.mem_append_left _ hk, hview, hinst⟩
    · rcases hst with ⟨-, rfl⟩ | ⟨hinst, -, rfl⟩
      · simp at hw'
      · split_ifs at hw' with heq
        · rw [List.mem_singleton.1 hw']
          exact ⟨by simp, (Stash.futureView.inj heq).symm, hinst⟩
        · cases hw'
  · intro w' hw' hahead hinst hcheck
    rw [hkept.viewNo] at hahead
    rw [hkept.replicas] at hinst
    rw [hkept.kept, List.mem_append, List.mem_singleton] at hw'
    rw [hkept.waiting, List.mem_append]
    rcases hw' with hw' | rfl
    · exact Or.inl (h.complete w' hw' hahead hinst hcheck)
    · rcases hst with ⟨hle, -⟩ | ⟨-, -, rfl⟩
      · exact absurd hinst (not_lt.2 hle)
      · exact Or.inr (by rw [if_pos rfl]; exact List.mem_singleton_self _)
  · intro v hv i
    rw [hkept.viewNo] at hv
    rw [hkept.waiting, List.filter_append]
    by_cases hqw : Stash.futureView v = st ∧ w.msg.queue = .replica i
    · rw [if_pos hqw.1, List.filter_cons_of_pos (by simpa using hqw.2), List.filter_nil]
      refine (h.viewOrder v hv i).concat fun w' hw' => ?_
      exact hbefore w' (h.forView v hv w' (List.mem_filter.1 hw').1).1
    · have hnone : (if Stash.futureView v = st then [w] else []).filter
          (fun w => decide (w.msg.queue = .replica i)) = [] := by
        split_ifs with hq
        · exact List.filter_cons_of_neg (by simpa using fun h => hqw ⟨hq, h⟩)
        · rfl
      rw [hnone, List.append_nil]
      exact h.viewOrder v hv i
  · intro p hp hk
    rw [hkept.puts] at hp
    rw [hkept.kept, h.mem_kept_concat hnew hp] at hk
    rw [hkept.viewNo, hkept.replicas]
    exact h.put p hp hk
  · intro q v
    have hsame : s'.keptPuts q v = s.keptPuts q v := by
      unfold keptPuts
      rw [hkept.puts, hkept.kept]
      refine List.filter_congr fun p hp => ?_
      simp only [h.mem_kept_concat hnew hp]
    rw [hsame]
    exact h.putOrder q v
  · intro w' hw' hview hinst
    rw [hkept.viewNo] at hview
    rw [hkept.replicas] at hinst
    rw [hkept.kept, List.mem_append, List.mem_singleton] at hw'
    rw [hkept.puts]
    rcases hw' with hw' | rfl
    · exact h.reached w' hw' hview hinst
    · rcases hst with ⟨hle, -⟩ | ⟨-, hahead, -⟩ <;> omega

/-- the message is not kept; it may be put in a queue at once -/
theorem Keeping.notKept (h : s.Keeping) (hviewNo : s'.viewNo = s.viewNo) (hreplicas : s'.replicas = s.replicas)
    (hqueues : s'.msgsToReplicas.length = s.msgsToReplicas.length) (harrivals : s'.arrivals = s.arrivals + 1)
    (hkept : s'.kept = s.kept) (hwaiting : ∀ st, s'.waiting st = s.waiting st) (ps : List Put)
    (hputs : s'.puts = s.puts ++ ps) (hps : ∀ p ∈ ps, p.wrapped.arrival = s.arrivals) : s'.Keeping := by
  have hfresh : ∀ p ∈ ps, p.wrapped ∉ s.kept := by
    intro p hp hk
    have := h.keptBefore _ hk
    rw [hps p hp] at this
    exact lt_irrefl _ this
  have hold : ∀ p ∈ s.puts ++ ps, p.wrapped ∈ s.kept → p ∈ s.puts := by
    intro p hp hk
    exact (List.mem_append.1 hp).resolve_right fun hp => hfresh p hp hk
  constructor
  · rw [hqueues, hreplicas, h.queues]
  · rw [hkept]
    exact h.ascending
  · intro w hw
    rw [hkept] at hw
    rw [harrivals]
    exact (h.keptBefore w hw).trans (Nat.lt_succ_self _)
  · intro p hp
    rw [hputs] at hp
    rw [harrivals]
    rcases List.mem_append.1 hp with hp | hp
    · exact (h.putBefore p hp).trans (Nat.lt_succ_self _)
    · rw [hps p hp]
      exact Nat.lt_succ_self _
  · intro i hi
    rw [hreplicas] at hi
    rw [hwaiting, hkept]
    exact h.forReplica i hi
  · intro v hv
    rw [hviewNo] at hv
    rw [hwaiting, hkept, hreplicas]
    exact h.forView v hv
  · intro w hw
    rw [hkept] at hw
    rw [hviewNo, hreplicas, hwaiting]
    exact h.complete w hw
  · intro v hv i
    rw [hviewNo] at hv
    rw [hwaiting]
    exact h.viewOrder v hv i
  · intro p hp hk
    rw [hputs] at hp
    rw [hkept] at hk
    rw [hviewNo, hreplicas]
    exact h.put p (hold p hp hk) hk
  · intro q v
    have hsame : s'.keptPuts q v = s.keptPuts q v := by
      unfold keptPuts
      have hnone : ps.filter (fun p => decide (p.queue = q ∧ p.viewNo = v ∧ p.wrapped ∈ s.kept)) = [] :=
        List.filter_eq_nil_iff.2 fun p hp => by simpa using fun _ _ => hfresh p hp
      rw [hputs, hkept, List.filter_append, hnone, List.append_nil]
    rw [hsame]
    exact h.putOrder q v
  · intro w hw hview hinst
    rw [hkept] at hw
    rw [hviewNo] at hview
    rw [hreplicas] at hinst
    obtain ⟨p, hp, hpw⟩ := h.reached w hw hview hinst
    exact ⟨p, hputs ▸ List.mem_append_left _ hp, hpw⟩

theorem receive_waiting (s : RoutingNode) (msg : RoutedMsg) (frm : NodeName) (st : Stash) :
    (s.receive msg frm).waiting st = (s.nodeMsgRouter ⟨msg, frm, s.arrivals⟩).waiting st := by cases st <;> rfl

/-- **A message comes**, and the invariant still holds. -/
theorem Keeping.receive (h : s.Keeping) (msg : RoutedMsg) (frm : NodeName) : (s.receive msg frm).Keeping := by
  have hrouted := nodeMsgRouter_routed s ⟨msg, frm, s.arrivals⟩
  rcases nodeMsgRouter_cases s ⟨msg, frm, s.arrivals⟩ with ⟨hinst, hroute⟩ | ⟨hinst, hle, hroute⟩ |
    ⟨hinst, hahead, hroute⟩ | ⟨hinst, hle, hwaiting, hputs⟩
  · refine h.keep (w := ⟨msg, frm, s.arrivals⟩) rfl (Or.inl ⟨h.queues ▸ hinst, rfl⟩)
      ⟨hrouted.viewNo, hrouted.replicas, hrouted.queues, rfl, if_pos (Or.inl hinst), ?_, fun st' => ?_⟩
    · exact (congrArg RoutingNode.puts hroute).trans (setWaiting_puts _ _ _)
    · rw [receive_waiting, hroute, waiting_keepFor]
  · have hnot : ¬ s.IsAhead ⟨msg, frm, s.arrivals⟩ := not_or.2 ⟨not_le.2 hinst, not_lt.2 hle⟩
    refine h.notKept hrouted.viewNo hrouted.replicas hrouted.queues rfl (if_neg hnot) (fun st => ?_) [] ?_ (by simp)
    · rw [receive_waiting, hroute]
    · exact (congrArg RoutingNode.puts hroute).trans (List.append_nil _).symm
  · refine h.keep (w := ⟨msg, frm, s.arrivals⟩) rfl (Or.inr ⟨h.queues ▸ hinst, hahead, rfl⟩)
      ⟨hrouted.viewNo, hrouted.replicas, hrouted.queues, rfl, if_pos (Or.inr hahead), ?_, fun st' => ?_⟩
    · exact (congrArg RoutingNode.puts hroute).trans (setWaiting_puts _ _ _)
    · rw [receive_waiting, hroute, waiting_keepFor]
  · have hnot : ¬ s.IsAhead ⟨msg, frm, s.arrivals⟩ := not_or.2 ⟨not_le.2 hinst, not_lt.2 hle⟩
    refine h.notKept hrouted.viewNo hrouted.replicas hrouted.queues rfl (if_neg hnot) (fun st => ?_) _ hputs (by simp)
    rw [receive_waiting, hwaiting]

/-! ## An instance is added -/

/-- what a step that routes kept messages again leaves of the invariant's facts about the queues: each new entry is of
a kept message, in its own queue and view -/
theorem Keeping.putOrder_append (h : s.Keeping) (hkept : s'.kept = s.kept) {ws : List WrappedMsg} {viewNo : ℕ}
    (hputs : s'.puts = s.puts ++ ws.map fun w => ⟨w, w.msg.queue, viewNo⟩) (hws : ∀ w ∈ ws, w ∈ s.kept)
    (hascending : ∀ q, Ascending (ws.filter fun w => w.msg.queue = q))
    (hbefore : ∀ w ∈ ws, ∀ p ∈ s.keptPuts w.msg.queue viewNo, p.wrapped.arrival < w.arrival) (q : MsgQueue) (v : ℕ) :
    Ascending ((s'.keptPuts q v).map Put.wrapped) := by
  have hnew : (s'.keptPuts q v).map Put.wrapped = (s.keptPuts q v).map Put.wrapped ++
      if viewNo = v then ws.filter fun w => w.msg.queue = q else [] := by
    unfold keptPuts
    rw [hputs, hkept, List.filter_append, List.map_append]
    congr 1
    split_ifs with hv
    · rw [List.filter_map, List.map_map]
      refine (List.map_id _).trans (List.filter_congr fun w hw => ?_)
      simp [hv, hws w hw]
    · rw [List.map_eq_nil_iff, List.filter_eq_nil_iff]
      intro p hp
      obtain ⟨w, -, rfl⟩ := List.mem_map.1 hp
      simp [hv]
  rw [hnew]
  split_ifs with hv
  · subst hv
    refine List.pairwise_append.2 ⟨h.putOrder q viewNo, hascending q, fun w' hw' w hw => ?_⟩
    obtain ⟨p, hp, rfl⟩ := List.mem_map.1 hw'
    obtain ⟨hmem, hq⟩ := List.mem_filter.1 hw
    have hq' : w.msg.queue = q := of_decide_eq_true hq
    exact hbefore w hmem p (hq' ▸ hp)
  · rw [List.append_nil]
    exact h.putOrder q v

theorem addReplica_waiting (s : RoutingNode) (st : Stash) : s.addReplica.waiting st = s.waiting st := by
  cases st <;> rfl

theorem instId_of_queue {w : WrappedMsg} {i : ℕ} (h : w.msg.queue = .replica i) : w.instId = i := by
  unfold RoutedMsg.queue at h
  split_ifs at h
  exact MsgQueue.replica.inj h

theorem isElection_of_queue {w : WrappedMsg} (h : w.msg.queue = .elector) : w.msg.isElection = true := by
  unfold RoutedMsg.queue at h
  split_ifs at h with he
  exact he

/-- what `addAndService` takes from the stash of the new instance -/
theorem Keeping.addAndService_released (h : s.Keeping) :
    Released s.addReplica s.addAndService (.futureReplica s.replicas.length)
      (s.kept.filter fun w => w.instId = s.replicas.length) := by
  have hwaiting : s.addReplica.waiting (.futureReplica s.replicas.length) =
      s.kept.filter fun w => w.instId = s.replicas.length :=
    (addReplica_waiting s _).trans (h.forReplica _ le_rfl)
  have hinst : ∀ w ∈ s.kept.filter fun w => w.instId = s.replicas.length,
      w.instId < s.addReplica.msgsToReplicas.length := by
    intro w hw
    rw [(addReplica_resized s).queues h.queues, of_decide_eq_true (List.mem_filter.1 hw).2]
    exact Nat.lt_succ_self _
  have hloop := (processStashed_released _ _ hwaiting hinst fun _ _ => rfl).1
  rw [← hwaiting] at hloop ⊢
  exact hloop

/-- a message of the new instance is put in its queue only in its own view -/
theorem MayAdd.view_eq {i : ℕ} (hadd : s.MayAdd i) {w : WrappedMsg} (hw : w ∈ s.kept) (hinst : w.instId = i)
    (hgoes : goesToQueue s.viewNo w = true) : w.viewNo = s.viewNo := by
  simp only [goesToQueue, Bool.and_eq_true, Bool.not_eq_true', decide_eq_true_eq] at hgoes
  obtain ⟨⟨hcheck, hle⟩, hge⟩ := hgoes
  by_contra hne
  have := hadd.notPrevious w hw hinst (by omega)
  rw [hcheck] at this
  cases this

/-- **An instance is added**, and the invariant still holds, as long as nothing that waits for it is lost, comes too
late or has been overtaken. -/
theorem Keeping.addAndService (h : s.Keeping) (hadd : s.MayAdd s.replicas.length) : s.addAndService.Keeping := by
  have hreleased := h.addAndService_released
  have hresized := addAndService_resized s
  have hlen : s.addAndService.replicas.length = s.replicas.length + 1 := hresized.replicas
  have hview : s.addAndService.viewNo = s.viewNo := hreleased.routed.viewNo
  have hkept : s.addAndService.kept = s.kept := hreleased.routed.kept
  have harrivals : s.addAndService.arrivals = s.arrivals := hreleased.routed.arrivals
  have hputs := hreleased.puts
  change s.addAndService.puts = s.puts ++ List.map _ (List.filter (goesToQueue s.viewNo) _) at hputs
  -- the messages of the new instance that are put in a queue
  have hnew : ∀ w ∈ (s.kept.filter fun w => w.instId = s.replicas.length).filter (goesToQueue s.viewNo),
      w ∈ s.kept ∧ w.instId = s.replicas.length ∧ w.viewNo = s.viewNo := by
    intro w hw
    obtain ⟨hmem, hgoes⟩ := List.mem_filter.1 hw
    obtain ⟨hk, hinst⟩ := List.mem_filter.1 hmem
    have hinst' := of_decide_eq_true hinst
    exact ⟨hk, hinst', hadd.view_eq hk hinst' hgoes⟩
  have hforView (v : ℕ) : s.addAndService.waiting (.futureView v) = s.waiting (.futureView v) ++
      (s.kept.filter fun w => w.instId = s.replicas.length).filter (goesToStash s.viewNo (.futureView v)) := by
    refine (hreleased.others (.futureView v) (by simp)).trans ?_
    rw [addReplica_waiting]
    rfl
  constructor
  · rw [hresized.queues h.queues, hlen]
  · rw [hkept]
    exact h.ascending
  · rw [hkept, harrivals]
    exact h.keptBefore
  · intro p hp
    rw [hputs] at hp
    rw [harrivals]
    rcases List.mem_append.1 hp with hp | hp
    · exact h.putBefore p hp
    · obtain ⟨w, hw, rfl⟩ := List.mem_map.1 hp
      exact h.keptBefore w (hnew w hw).1
  · intro i hi
    rw [hlen] at hi
    have hother : Stash.futureReplica i ≠ .futureReplica s.replicas.length := by
      intro heq
      have := Stash.futureReplica.inj heq
      omega
    have hnone : ∀ ws : List WrappedMsg, ws.filter (goesToStash s.addReplica.viewNo (.futureReplica i)) = [] :=
      fun ws => List.filter_eq_nil_iff.2 fun _ _ => Bool.false_ne_true
    rw [hkept, hreleased.others _ hother, addReplica_waiting, h.forReplica i (by omega), hnone, List.append_nil]
  · intro v hv w hw
    rw [hview] at hv
    rw [hforView, List.mem_append] at hw
    rw [hkept, hlen]
    rcases hw with hw | hw
    · obtain ⟨hk, hwv, hinst⟩ := h.forView v hv w hw
      exact ⟨hk, hwv, by omega⟩
    · obtain ⟨hmem, hgoes⟩ := List.mem_filter.1 hw
      obtain ⟨hk, hinst⟩ := List.mem_filter.1 hmem
      simp only [goesToStash, Bool.and_eq_true, decide_eq_true_eq] at hgoes
      exact ⟨hk, hgoes.2, (of_decide_eq_true hinst).trans_lt (Nat.lt_succ_self _)⟩
  · intro w hw hahead hinst hcheck
    rw [hkept] at hw
    rw [hview] at hahead
    rw [hlen] at hinst
    rw [hforView, List.mem_append]
    rcases Nat.lt_succ_iff_lt_or_eq.1 hinst with hinst | hinst
    · exact Or.inl (h.complete w hw hahead hinst hcheck)
    · refine Or.inr (List.mem_filter.2 ⟨List.mem_filter.2 ⟨hw, by simpa using hinst⟩, ?_⟩)
      simp [goesToStash, hcheck, hahead]
  · intro v hv i
    rw [hview] at hv
    rw [hforView, List.filter_append]
    refine List.pairwise_append.2
      ⟨h.viewOrder v hv i, ((h.ascending.filter _).filter _).filter _, fun w hw w' hw' => ?_⟩
    -- the messages before are of other instances
    obtain ⟨hold, hq⟩ := List.mem_filter.1 hw
    obtain ⟨hmem, hq'⟩ := List.mem_filter.1 hw'
    have hinst := (h.forView v hv w hold).2.2
    have hinst' : w'.instId = s.replicas.length :=
      of_decide_eq_true (List.mem_filter.1 (List.mem_filter.1 hmem).1).2
    rw [instId_of_queue (of_decide_eq_true hq)] at hinst
    rw [instId_of_queue (of_decide_eq_true hq')] at hinst'
    omega
  · intro p hp hk
    rw [hputs] at hp
    rw [hkept] at hk
    rw [hview, hlen]
    rcases List.mem_append.1 hp with hp | hp
    · obtain ⟨hq, hv, hle, hinst⟩ := h.put p hp hk
      exact ⟨hq, hv, hle, by omega⟩
    · obtain ⟨w, hw, rfl⟩ := List.mem_map.1 hp
      obtain ⟨-, hinst, hwv⟩ := hnew w hw
      exact ⟨rfl, hwv.symm, le_rfl, hinst.trans_lt (Nat.lt_succ_self _)⟩
  · refine h.putOrder_append hkept hputs (fun w hw => (hnew w hw).1) (fun q => ?_) fun w hw p hp => ?_
    · exact ((h.ascending.filter _).filter _).filter _
    · obtain ⟨hk, hinst, hwv⟩ := hnew w hw
      obtain ⟨hp, hpq, hpv, hpk⟩ := mem_keptPuts.1 hp
      obtain ⟨hown, hpview, -, hpinst⟩ := h.put p hp hpk
      have hsame : p.wrapped.msg.queue = w.msg.queue := hown.symm.trans hpq
      cases hq : w.msg.queue with
      | replica i =>
        -- no message was put there before
        rw [instId_of_queue (hsame.trans hq)] at hpinst
        rw [instId_of_queue hq] at hinst
        omega
      | elector =>
        exact hadd.elections w hk hinst hwv (isElection_of_queue hq) p.wrapped hpk hpinst (hpview.symm.trans hpv)
          (isElection_of_queue (hsame.trans hq))
  · intro w hw hwv hinst
    rw [hkept] at hw
    rw [hview] at hwv
    rw [hlen] at hinst
    rw [hputs]
    rcases Nat.lt_succ_iff_lt_or_eq.1 hinst with hinst | hinst
    · obtain ⟨p, hp, hpw⟩ := h.reached w hw hwv hinst
      exact ⟨p, List.mem_append_left _ hp, hpw⟩
    · refine ⟨_, List.mem_append_right _ (List.mem_map.2 ⟨w, List.mem_filter.2 ⟨List.mem_filter.2
        ⟨hw, by simpa using hinst⟩, ?_⟩, rfl⟩), rfl⟩
      simp [goesToQueue, hadd.noCheckpoint w hw hinst hwv, hwv]

/-! ## The replicas are adjusted -/

theorem MayAdd.congr {i : ℕ} (h : s.MayAdd i) (hkept : s'.kept = s.kept) (hview : s'.viewNo = s.viewNo) :
    s'.MayAdd i := by
  constructor
  · rw [hkept, hview]
    exact h.noCheckpoint
  · rw [hkept, hview]
    exact h.notPrevious
  · rw [hkept, hview]
    exact h.elections

theorem Keeping.iterate_addAndService (h : s.Keeping) (k : ℕ)
    (hadd : ∀ i, s.replicas.length ≤ i → i < s.replicas.length + k → s.MayAdd i) :
    (RoutingNode.addAndService^[k] s).Keeping ∧ (RoutingNode.addAndService^[k] s).kept = s.kept ∧
      (RoutingNode.addAndService^[k] s).viewNo = s.viewNo := by
  induction k with
  | zero => exact ⟨h, rfl, rfl⟩
  | succ k ih =>
    obtain ⟨hkeeping, hkept, hview⟩ := ih fun i hle hlt => hadd i hle (by omega)
    have hlen : (RoutingNode.addAndService^[k] s).replicas.length = s.replicas.length + k :=
      (iterate_addAndService_resized k s).replicas
    rw [Function.iterate_succ_apply']
    have hrouted := hkeeping.addAndService_released.routed
    refine ⟨hkeeping.addAndService ?_, hrouted.kept.trans hkept, hrouted.viewNo.trans hview⟩
    rw [hlen]
    exact (hadd _ (by omega) (by omega)).congr hkept hview

/-- what is purged is of existing instances -/
theorem Keeping.popReplicas (h : s.Keeping) :
    Keeping { s with msgsForFutureReplicas := popKeys s.msgsForFutureReplicas (· < s.replicas.length) } := by
  refine ⟨h.queues, h.ascending, h.keptBefore, h.putBefore, fun i hi => ?_, h.forView, h.complete, h.viewOrder, h.put,
    h.putOrder, h.reached⟩
  refine Eq.trans ?_ (h.forReplica i hi)
  unfold waiting
  dsimp only
  rw [popKeys_get?, if_neg (by simpa using hi)]

/-- **The replicas are adjusted** to a larger pool. -/
theorem Keeping.adjustReplicas (h : s.Keeping) (hle : s.replicas.length ≤ s.requiredNumberOfInstances)
    (hadd : ∀ i, s.replicas.length ≤ i → i < s.requiredNumberOfInstances → s.MayAdd i) :
    s.adjustReplicas.2.Keeping ∧ s.adjustReplicas.2.kept = s.kept ∧ s.adjustReplicas.2.viewNo = s.viewNo := by
  obtain ⟨hkeeping, hkept, hview⟩ := h.iterate_addAndService (s.requiredNumberOfInstances - s.replicas.length)
    fun i hi hlt => hadd i hi (by omega)
  have hresized := iterate_addAndService_resized (s.requiredNumberOfInstances - s.replicas.length) s
  have hneeded : (RoutingNode.addAndService^[s.requiredNumberOfInstances - s.replicas.length]
      s).requiredNumberOfInstances = s.requiredNumberOfInstances :=
    congrArg PoolSize.requiredNumberOfInstances hresized.size
  -- no replica is removed
  have hnone : (RoutingNode.addAndService^[s.requiredNumberOfInstances - s.replicas.length] s).replicas.length -
      s.requiredNumberOfInstances = 0 := by
    rw [hresized.replicas]
    omega
  unfold RoutingNode.adjustReplicas
  dsimp only
  rw [hneeded, hnone, Function.iterate_zero_apply]
  exact ⟨hkeeping.popReplicas, hkept, hview⟩

theorem Keeping.startElections (h : s.Keeping) (newReplicas : ℕ) : (s.startElections newReplicas).Keeping :=
  ⟨h.queues, h.ascending, h.keptBefore, h.putBefore, h.forReplica, h.forView, h.complete, h.viewOrder, h.put,
    h.putOrder, h.reached⟩

/-- **A pool change** that only adds. -/
theorem Keeping.poolChange (h : s.Keeping) {nodeReg : Dict NodeName (String × ℤ)}
    (hle : s.replicas.length ≤ (Plenum.setF nodeReg s.name).f + 1)
    (hadd : ∀ i, s.replicas.length ≤ i → i ≤ (Plenum.setF nodeReg s.name).f → s.MayAdd i) :
    (s.setNodeReg nodeReg).newNodeJoined.Keeping ∧ (s.setNodeReg nodeReg).nodeLeft.Keeping := by
  have hset : (s.setNodeReg nodeReg).setF.Keeping :=
    ⟨h.queues, h.ascending, h.keptBefore, h.putBefore, h.forReplica, h.forView, h.complete, h.viewOrder, h.put,
      h.putOrder, h.reached⟩
  have hfirst := (hset.adjustReplicas hle fun i hi hlt => by
    exact (hadd i hi (Nat.le_of_lt_succ hlt)).congr rfl rfl).1
  refine ⟨?_, hfirst⟩
  have hresized := adjustReplicas_resized (s.setNodeReg nodeReg).setF
  have hlen : (s.setNodeReg nodeReg).setF.adjustReplicas.2.replicas.length =
      (s.setNodeReg nodeReg).setF.adjustReplicas.2.requiredNumberOfInstances :=
    hresized.replicas.trans (congrArg PoolSize.requiredNumberOfInstances hresized.size).symm
  have hagain := (hfirst.adjustReplicas hlen.le fun i hi hlt => absurd (hlen ▸ hi) (not_le.2 hlt)).1
  unfold RoutingNode.newNodeJoined
  dsimp only
  split_ifs
  · exact hagain.startElections _
  · exact hagain

/-! ## A view is entered -/

/-- the node in its new view, before what was kept for it is routed again -/
def enterView (s : RoutingNode) (viewNo : ℕ) : RoutingNode :=
  { s with viewChangeInProgress := true, viewNo := viewNo, monitor := s.monitor.reset }

theorem enterView_waiting (s : RoutingNode) (viewNo : ℕ) (st : Stash) :
    (s.enterView viewNo).waiting st = s.waiting st := by cases st <;> rfl

/-- what a view change takes from the stash of the new view -/
theorem Keeping.enterView_released (h : s.Keeping) {v : ℕ} (hv : s.viewNo < v) :
    Released (s.enterView v) ((s.enterView v).processStashedMsgsForView v) (.futureView v)
      (s.waiting (.futureView v)) := by
  have hwaiting := enterView_waiting s v (.futureView v)
  have hloop := (processStashed_released (s.waiting (.futureView v)) (s.enterView v) hwaiting
    (fun w hw => h.queues.symm ▸ (h.forView v hv w hw).2.2) fun w hw => by
      rw [goesToStash, decide_eq_false (p := (s.enterView v).viewNo < w.viewNo)
        (by rw [(h.forView v hv w hw).2.1]; exact lt_irrefl v), Bool.and_false, Bool.false_and]).1
  unfold processStashedMsgsForView
  rw [hwaiting]
  exact hloop

theorem Keeping.processStashedMsgsForView (h : s.Keeping) {v : ℕ} (hv : s.viewNo < v) (henter : s.MayEnter v) :
    ((s.enterView v).processStashedMsgsForView v).Keeping := by
  have hreleased := h.enterView_released hv
  have hrouted := hreleased.routed
  have hview : ((s.enterView v).processStashedMsgsForView v).viewNo = v := hrouted.viewNo
  have hreplicas : ((s.enterView v).processStashedMsgsForView v).replicas = s.replicas := hrouted.replicas
  have hkept : ((s.enterView v).processStashedMsgsForView v).kept = s.kept := hrouted.kept
  have harrivals : ((s.enterView v).processStashedMsgsForView v).arrivals = s.arrivals := hrouted.arrivals
  have hputs : ((s.enterView v).processStashedMsgsForView v).puts = s.puts ++
      ((s.waiting (.futureView v)).filter (goesToQueue v)).map fun w => ⟨w, w.msg.queue, v⟩ := hreleased.puts
  have hnone (v' : ℕ) : (s.waiting (.futureView v)).filter (goesToStash v (.futureView v')) = [] := by
    refine List.filter_eq_nil_iff.2 fun w hw => ?_
    rw [goesToStash, decide_eq_false (p := v < w.viewNo) (by rw [(h.forView v hv w hw).2.1]; exact lt_irrefl v),
      Bool.and_false, Bool.false_and]
    exact Bool.false_ne_true
  have hforView {v' : ℕ} (hv' : v < v') :
      ((s.enterView v).processStashedMsgsForView v).waiting (.futureView v') = s.waiting (.futureView v') := by
    have hne : Stash.futureView v' ≠ .futureView v := fun heq => hv'.ne' (Stash.futureView.inj heq)
    refine (hreleased.others _ hne).trans ?_
    rw [enterView_waiting]
    exact (congrArg (s.waiting (.futureView v') ++ ·) (hnone v')).trans (List.append_nil _)
  -- nothing was put anywhere in the new view
  have hempty (q : MsgQueue) : ∀ p ∈ s.keptPuts q v, False := by
    intro p hp
    obtain ⟨hp, -, hpv, hpk⟩ := mem_keptPuts.1 hp
    have hle := (h.put p hp hpk).2.2.1
    omega
  constructor
  · rw [hreplicas]
    exact hrouted.queues.trans h.queues
  · rw [hkept]
    exact h.ascending
  · rw [hkept, harrivals]
    exact h.keptBefore
  · intro p hp
    rw [hputs] at hp
    rw [harrivals]
    rcases List.mem_append.1 hp with hp | hp
    · exact h.putBefore p hp
    · obtain ⟨w, hw, rfl⟩ := List.mem_map.1 hp
      exact h.keptBefore w (h.forView v hv w (List.mem_filter.1 hw).1).1
  · intro i hi
    rw [hreplicas] at hi
    have hnone' : (s.waiting (.futureView v)).filter (goesToStash v (.futureReplica i)) = [] :=
      List.filter_eq_nil_iff.2 fun _ _ => Bool.false_ne_true
    rw [hkept, ← h.forReplica i hi]
    refine (hreleased.others (.futureReplica i) (by simp)).trans ?_
    rw [enterView_waiting]
    exact (congrArg (s.waiting (.futureReplica i) ++ ·) hnone').trans (List.append_nil _)
  · intro v' hv' w hw
    rw [hview] at hv'
    rw [hforView hv'] at hw
    rw [hkept, hreplicas]
    exact h.forView v' (hv.trans hv') w hw
  · intro w hw hahead hinst hcheck
    rw [hkept] at hw
    rw [hview] at hahead
    rw [hreplicas] at hinst
    rw [hforView hahead]
    exact h.complete w hw (hv.trans hahead) hinst hcheck
  · intro v' hv' i
    rw [hview] at hv'
    rw [hforView hv']
    exact h.viewOrder v' (hv.trans hv') i
  · intro p hp hk
    rw [hputs] at hp
    rw [hkept] at hk
    rw [hview, hreplicas]
    rcases List.mem_append.1 hp with hp | hp
    · obtain ⟨hq, hpv, hle, hinst⟩ := h.put p hp hk
      exact ⟨hq, hpv, hle.trans hv.le, hinst⟩
    · obtain ⟨w, hw, rfl⟩ := List.mem_map.1 hp
      obtain ⟨-, hwv, hinst⟩ := h.forView v hv w (List.mem_filter.1 hw).1
      exact ⟨rfl, hwv.symm, le_rfl, hinst⟩
  · refine h.putOrder_append hkept hputs (fun w hw => (h.forView v hv w (List.mem_filter.1 hw).1).1) (fun q => ?_)
      fun w _ p hp => (hempty _ p hp).elim
    rw [List.filter_filter, List.filter_congr fun w _ => Bool.and_comm _ _, ← List.filter_filter]
    cases q with
    | replica i => exact (h.viewOrder v hv i).filter _
    | elector =>
      have hsame : ((s.waiting (.futureView v)).filter fun w => decide (w.msg.queue = .elector)) =
          (s.waiting (.futureView v)).filter fun w => w.msg.isElection := by
        refine List.filter_congr fun w _ => ?_
        unfold RoutedMsg.queue
        cases w.msg.isElection <;> rfl
      rw [hsame]
      exact henter.elections.filter _
  · intro w hw hwv hinst
    rw [hkept] at hw
    rw [hview] at hwv
    rw [hreplicas] at hinst
    have hcheck := henter.noCheckpoint w hw hwv hinst
    have hmem := h.complete w hw (by omega) hinst hcheck
    rw [hwv] at hmem
    rw [hputs]
    refine ⟨_, List.mem_append_right _ (List.mem_map.2 ⟨w, List.mem_filter.2 ⟨hmem, ?_⟩, rfl⟩), rfl⟩
    simp [goesToQueue, hcheck, hwv]

/-- **A view is entered**, and the invariant still holds, as long as nothing that waits for it is lost or has been
overtaken. -/
theorem Keeping.startViewChange (h : s.Keeping) {v : ℕ} (hv : s.viewNo < v) (henter : s.MayEnter v) :
    (s.startViewChange v).Keeping := by
  have hrouted := h.processStashedMsgsForView hv henter
  have hwaiting (v' : ℕ) (hv' : ((s.enterView v).processStashedMsgsForView v).viewNo < v') :
      (s.startViewChange v).waiting (.futureView v') =
        ((s.enterView v).processStashedMsgsForView v).waiting (.futureView v') := by
    change ((popKeys _ _).get? v').getD [] = _
    rw [popKeys_get?, if_neg (by rw [decide_eq_true_eq]; exact not_le.2 hv')]
    rfl
  refine ⟨hrouted.queues, hrouted.ascending, hrouted.keptBefore, hrouted.putBefore, hrouted.forReplica, ?_, ?_, ?_,
    hrouted.put, hrouted.putOrder, hrouted.reached⟩
  · intro v' hv' w hw
    rw [hwaiting v' hv'] at hw
    exact hrouted.forView v' hv' w hw
  · intro w hw hahead hinst hcheck
    rw [hwaiting _ hahead]
    exact hrouted.complete w hw hahead hinst hcheck
  · intro v' hv' i
    rw [hwaiting v' hv']
    exact hrouted.viewOrder v' hv' i

/-! ## Runs -/

theorem Keeping.handle (h : s.Keeping) {e : Event} (honly : s.OnlyAdds e) (hok : s.Releasable e) :
    (s.handle e).Keeping := by
  cases e with
  | receive msg frm => exact h.receive msg frm
  | viewChange viewNo =>
    simp only [RoutingNode.handle, doViewChangeIfPossible]
    split_ifs with hv
    · exact h.startViewChange hv (hok.1 viewNo rfl hv)
    · exact h
  | newNodeJoined nodeReg => exact (h.poolChange (honly nodeReg rfl) (hok.2 nodeReg rfl)).1
  | nodeLeft nodeReg => exact (h.poolChange (honly nodeReg rfl) (hok.2 nodeReg rfl)).2
  | popReplicaMsg instId =>
    exact ⟨(List.length_modify _ _ _).trans h.queues, h.ascending, h.keptBefore, h.putBefore, h.forReplica, h.forView,
      h.complete, h.viewOrder, h.put, h.putOrder, h.reached⟩
  | popElectorMsg =>
    exact ⟨h.queues, h.ascending, h.keptBefore, h.putBefore, h.forReplica, h.forView, h.complete, h.viewOrder, h.put,
      h.putOrder, h.reached⟩

/-- a new node has kept nothing -/
theorem init_keeping (name : NodeName) (nodeReg : Dict NodeName (String × ℤ)) (monitor : Monitor) :
    (init name nodeReg monitor).Keeping := by
  have hblank : (blank name nodeReg monitor).Keeping := by
    refine ⟨rfl, List.Pairwise.nil, by simp [blank], by simp [blank], fun i _ => rfl, ?_, by simp [blank],
      fun v _ i => List.Pairwise.nil, by simp [blank], fun q v => List.Pairwise.nil, by simp [blank]⟩
    intro v _ w hw
    cases hw
  refine (hblank.adjustReplicas (Nat.zero_le _) fun i _ _ => ?_).1
  constructor
  · intro w hw
    cases hw
  · intro w hw
    cases hw
  · intro w hw
    cases hw

/-- **Kept messages are delivered once.** In every run of messages, view changes and added instances in which nothing
that waits is lost, comes too late or is overtaken. -/
theorem kept_deliveredOnce (name : NodeName) (nodeReg : Dict NodeName (String × ℤ)) (monitor : Monitor)
    (events : List Event)
    (honly : ∀ xs e ys, events = xs ++ e :: ys → ((init name nodeReg monitor).run xs).OnlyAdds e)
    (hok : ∀ xs e ys, events = xs ++ e :: ys → ((init name nodeReg monitor).run xs).Releasable e) :
    ((init name nodeReg monitor).run events).DeliveredOnce := by
  have hrun : ∀ xs ys, events = xs ++ ys → ((init name nodeReg monitor).run xs).Keeping := by
    intro xs
    induction xs using List.reverseRecOn with
    | nil => exact fun _ _ => init_keeping name nodeReg monitor
    | append_singleton xs e ih =>
      intro ys hsplit
      have hsplit' : events = xs ++ e :: ys := by rw [hsplit, List.append_assoc, List.singleton_append]
      rw [run_concat]
      exact (ih _ hsplit').handle (honly xs e ys hsplit') (hok xs e ys hsplit')
  exact (hrun events [] (List.append_nil _).symm).deliveredOnce

/-! ## Witness -/

/-- a vote for an instance that comes with the seventh node -/
def futureVote : RoutedMsg := .threePhase (.commit ⟨2, 1, 1⟩)

/-- the vote waits for its instance and then for its view -/
def voteReached : List Event := [.receive futureVote "Beta", .newNodeJoined seven, .viewChange 1]

theorem releasable_receive (s : RoutingNode) (msg : RoutedMsg) (frm : NodeName) :
    s.OnlyAdds (.receive msg frm) ∧ s.Releasable (.receive msg frm) :=
  ⟨fun _ h => (nomatch h), fun _ h => (nomatch h), fun _ h => (nomatch h)⟩

theorem kept_deliveredOnce_vote : ((init "Alpha" (registryOf ["Alpha", "Beta", "Gamma", "Delta"]) newMonitor).run
    voteReached).DeliveredOnce := by
  refine kept_deliveredOnce _ _ _ _ (forall_split_cons.2 ⟨(releasable_receive _ _ _).1, forall_split_cons.2 ⟨?_,
    forall_split_cons.2 ⟨fun _ h => (nomatch h), by simp⟩⟩⟩) (forall_split_cons.2 ⟨(releasable_receive _ _ _).2,
    forall_split_cons.2 ⟨⟨fun _ h => (nomatch h), ?_⟩, forall_split_cons.2 ⟨⟨?_, fun _ h => (nomatch h)⟩, by simp⟩⟩⟩)
  · intro nodeReg hreg
    cases hreg
    decide +kernel
  · intro nodeReg hreg i hi hle
    cases hreg
    have hlen : 2 ≤ (alpha.run [.receive futureVote "Beta"]).replicas.length := by decide +kernel
    have hf : (Plenum.setF seven (alpha.run [.receive futureVote "Beta"]).name).f = 2 := by decide +kernel
    obtain rfl : i = 2 := le_antisymm (hle.trans hf.le) (hlen.trans hi)
    exact ⟨by decide +kernel, by decide +kernel, by decide +kernel⟩
  · intro v hv _
    cases hv
    exact ⟨by decide +kernel, by decide +kernel⟩

/-- a CHECKPOINT of the next view -/
def nextViewCheckpoint : RoutedMsg := .checkpoint ⟨0, 1, 1, 100, "digest"⟩

/-- **A CHECKPOINT of the next view is discarded** when the view is entered. -/
theorem checkpoint_discarded :
    ¬ (alpha.run [.receive nextViewCheckpoint "Beta", .viewChange 1]).DeliveredOnce := by
  intro h
  have hnever : ((alpha.run [.receive nextViewCheckpoint "Beta", .viewChange 1]).puts.filter
      fun p => p.wrapped = ⟨nextViewCheckpoint, "Beta", 0⟩).length = 0 := by decide +kernel
  have honce := h.once ⟨nextViewCheckpoint, "Beta", 0⟩ (by decide +kernel) (by decide +kernel) (by decide +kernel)
  rw [hnever] at honce
  cases honce

end RoutingNode

end Plenum
