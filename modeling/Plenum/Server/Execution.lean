/-
Execution of the ordered batches of the master.

- `OrderingState.Pending`: the requests of the batches that the replica has accepted and whose `Ordered` message has
  not been taken from the outbox yet.
- Within one servicing of a replica the request store only shrinks, so what is pending afterwards was finalised before
  (`pending_of_steps`, `shrinks_of_steps`).
- `RunningNode.KeepsPending`: garbage collection removes no pending request. Nothing in the code sees to it: a
  request is removed when the last replica has a stable checkpoint over its batch, and the outbox may not have been
  serviced by then.
- `processed_master`: in every run in which this holds, no ordered batch of the master is lost.
- `lost_batch`: where it fails, one is.
-/
import Mathlib.Tactic
import Plenum.Core.Run
import Plenum.Server.NodeProtocol

namespace Plenum

open Plenum.Core Plenum.Core.Exec
open Relation (ReflTransGen)

variable {ω σ τ : Type}

/-! ## Pending requests -/

namespace OrderingState

/-- the request belongs to a batch that is accepted, or ordered and still in the outbox -/
def Pending (c : OrderingState ω) (k : ReqKey) : Prop :=
  (∃ o, .ordered o ∈ c.outBox ∧ k ∈ o.reqIdr) ∨ ∃ key pp, c.Holds key pp ∧ key ∉ c.ordered ∧ k ∈ pp.reqIdr

end OrderingState

variable {D : InMsg → Prop} {c c' : OrderingState ω}

open OrderingState

/-- what is pending after a step that sends no `Ordered` message and takes no PRE-PREPARE in was pending before -/
theorem pending_of_quiet {k : ReqKey} (h : c'.Pending k) {ms : List OutMsg} (hout : c'.outBox = c.outBox ++ ms)
    (hms : ∀ m ∈ ms, m.ordered? = none) (hheld : ∀ key pp, c'.Holds key pp → c.Holds key pp)
    (hord : c.ordered ⊆ c'.ordered) : c.Pending k := by
  rcases h with ⟨o, ho, hk⟩ | ⟨key, pp, hpp, hnew, hk⟩
  · rw [hout] at ho
    rcases List.mem_append.1 ho with ho | ho
    · exact Or.inl ⟨o, ho, hk⟩
    · cases hms _ ho
  · exact Or.inr ⟨key, pp, hheld key pp hpp, fun hmem => hnew (hord hmem), hk⟩

/-- **One step.** What is pending after it was pending before, or is finalised. -/
theorem OrderingStep.pending (hkeyed : c.requests.Keyed) (hs : OrderingStep D c c') {k : ReqKey} (h : c'.Pending k) :
    c.Pending k ∨ c.requests.isFinalised k := by
  have hnone : ∀ (rejects : List Reject) m, m ∈ rejects.map OutMsg.reject → m.ordered? = none := by
    intro rejects m hm
    obtain ⟨r, -, rfl⟩ := List.mem_map.1 hm
    rfl
  cases hs with
  | sendPrePrepare pp rejects _ _ hreqs hidr _ _ _ =>
    rcases h with ⟨o, ho, hk⟩ | ⟨key, pp', hpp, hnew, hk⟩
    · refine Or.inl (Or.inl ⟨o, ?_, hk⟩)
      simpa using ho
    · rcases hpp with hpp | hpp
      · rw [PrePrepareLog.get?_add] at hpp
        split_ifs at hpp with hkey
        · -- the requests of the new batch were finalised when they were taken from the queue
          cases hpp
          have hk' := hidr.mem_iff.1 hk
          rw [hkeyed.keys_of_forall₂ hreqs] at hk'
          exact Or.inr (Requests.isFinalised_of_forall₂ hreqs k hk')
        · exact Or.inl (Or.inr ⟨key, pp', Or.inl hpp, hnew, hk⟩)
      · exact Or.inl (Or.inr ⟨key, pp', Or.inr hpp, hnew, hk⟩)
  | acceptPrePrepare pp sender _ _ _ _ _ hfin =>
    rcases h with ⟨o, ho, hk⟩ | ⟨key, pp', hpp, hnew, hk⟩
    · exact Or.inl (Or.inl ⟨o, ho, hk⟩)
    · rcases hpp with hpp | hpp
      · exact Or.inl (Or.inr ⟨key, pp', Or.inl hpp, hnew, hk⟩)
      · rw [PrePrepareLog.get?_add] at hpp
        split_ifs at hpp with hkey
        · cases hpp
          exact Or.inr (hfin k hk)
        · exact Or.inl (Or.inr ⟨key, pp', Or.inr hpp, hnew, hk⟩)
  | order key pp hpp _ hnew _ =>
    left
    rcases h with ⟨o, ho, hk⟩ | ⟨key', pp', hpp', hnew', hk⟩
    · rcases List.mem_append.1 ho with ho | ho
      · exact Or.inl ⟨o, ho, hk⟩
      · cases List.mem_singleton.1 ho
        exact Or.inr ⟨key, pp, hpp, hnew, List.mem_of_mem_take hk⟩
    · exact Or.inr ⟨key', pp', hpp', fun hmem => hnew' (List.mem_append_left _ hmem), hk⟩
  | stabilise cks seqNo keys _ _ _ =>
    refine Or.inl (pending_of_quiet h (List.append_nil _).symm (fun m hm => absurd hm List.not_mem_nil) ?_
      (List.Subset.refl _))
    intro key pp hpp
    simp only [OrderingState.Holds, PrePrepareLog.get?_eraseAll] at hpp
    refine hpp.imp (fun hpp => ?_) fun hpp => ?_
    · split_ifs at hpp; exact hpp
    · split_ifs at hpp; exact hpp
  | sendRejects rejects => exact Or.inl (pending_of_quiet h rfl (hnone rejects) (fun _ _ => id) (List.Subset.refl _))
  | sendPrepare pp =>
    exact Or.inl (pending_of_quiet h rfl (fun m hm => by rw [List.mem_singleton.1 hm]; rfl) (fun _ _ => id)
      (List.Subset.refl _))
  | sendCommit cm =>
    exact Or.inl (pending_of_quiet h rfl (fun m hm => by rw [List.mem_singleton.1 hm]; rfl) (fun _ _ => id)
      (List.Subset.refl _))
  | checkpoint cks msgs =>
    refine Or.inl (pending_of_quiet h rfl (fun m hm => ?_) (fun _ _ => id) (List.Subset.refl _))
    obtain ⟨r, -, rfl⟩ := List.mem_map.1 hm
    rfl
  | popInBox => exact Or.inl h
  | readyFor3PC => exact Or.inl h
  | dropKeys => exact Or.inl h
  | ownPrepare => exact Or.inl h
  | receivePrepare => exact Or.inl h
  | ownCommit => exact Or.inl h
  | receiveCommit => exact Or.inl h
  | releaseRequest => exact Or.inl h

/-! ## Shrinking request stores -/

/-- requests are only removed; one that stays is finalised if and only if it was -/
structure Requests.Shrinks (rs rs' : Requests ω) : Prop where
  contains : ∀ k, rs'.contains k → rs.contains k
  finalised : ∀ k, rs'.contains k → rs'.finalised? k = rs.finalised? k
  keyed : rs.Keyed → rs'.Keyed

namespace Requests

theorem Shrinks.refl (rs : Requests ω) : rs.Shrinks rs := ⟨fun _ => id, fun _ _ => rfl, id⟩

theorem Shrinks.trans {rs rs' rs'' : Requests ω} (h : rs.Shrinks rs') (h' : rs'.Shrinks rs'') : rs.Shrinks rs'' :=
  ⟨fun k hk => h.contains k (h'.contains k hk),
    fun k hk => (h'.finalised k hk).trans (h.finalised k (h'.contains k hk)), fun hk => h'.keyed (h.keyed hk)⟩

theorem contains_of_isFinalised {rs : Requests ω} {k : ReqKey} (h : rs.isFinalised k) : Dict.contains rs k := by
  obtain ⟨r, hr⟩ := Option.isSome_iff_exists.1 h
  obtain ⟨s, hs, -⟩ := Option.bind_eq_some_iff.1 hr
  rw [Dict.contains, hs]
  rfl

/-- what is finalised afterwards was finalised before -/
theorem Shrinks.isFinalised_of {rs rs' : Requests ω} (h : rs.Shrinks rs') {k : ReqKey} (hk : rs'.isFinalised k) :
    rs.isFinalised k := by
  rw [isFinalised, ← h.finalised k (contains_of_isFinalised hk)]
  exact hk

end Requests

theorem OrderingStep.shrinks (hs : OrderingStep D c c') : c.requests.Shrinks c'.requests := by
  cases hs with
  | releaseRequest k requests hr =>
    exact ⟨fun _ hc => Requests.contains_of_release hr hc, fun k' hc => Requests.finalised?_release hr k' hc,
      fun hk => hk.release hr⟩
  | _ => exact Requests.Shrinks.refl _

theorem shrinks_of_steps (hs : ReflTransGen (OrderingStep D) c c') : c.requests.Shrinks c'.requests :=
  stable_of_steps (I := fun c'' : OrderingState ω => c.requests.Shrinks c''.requests)
    (fun _ _ hstep h => h.trans hstep.shrinks) hs (Requests.Shrinks.refl _)

/-- **A run of steps.** What is pending after it was pending before, or was finalised. -/
theorem pending_of_steps (hkeyed : c.requests.Keyed) (hs : ReflTransGen (OrderingStep D) c c') {k : ReqKey}
    (h : c'.Pending k) : c.Pending k ∨ c.requests.isFinalised k := by
  induction hs generalizing k with
  | refl => exact Or.inl h
  | tail hs hstep ih =>
    have hshrinks := shrinks_of_steps hs
    rcases hstep.pending (hshrinks.keyed hkeyed) h with h | h
    · exact ih h
    · exact Or.inr (hshrinks.isFinalised_of h)

/-! ## The invariant of a node -/

/-- what holds of every replica of a node -/
def RunningReplica.Sound (D : InMsg → Prop) (idx : ℕ) (r : RunningReplica ω σ τ) : Prop :=
  r.Inv D ∧ OfInstance idx r.history

theorem RunningReplica.Sound.input {env : Env ω σ τ} {idx : ℕ} {r : RunningReplica ω σ τ} (h : r.Sound D idx)
    (i : ReplicaInput ω σ τ) (hD : ∀ m, i = .receive m → D m) : (r.input env i).Sound D idx :=
  ⟨h.1.input i hD, h.2.input h.1.ok i hD⟩

theorem RunningReplica.serviceQueues_steps (env : Env ω σ τ) {r : RunningReplica ω σ τ} (hok : Replica.Ok D r.replica)
    (fuel : ℕ) (limit : Option ℕ) (perfCounter time : ℕ) :
    ReflTransGen (OrderingStep D) r.replica.ordering
      (r.input env (.serviceQueues fuel limit perfCounter time)).replica.ordering := by
  have hok' : Replica.Ok D { r.replica with perfCounter := perfCounter, time := time } := ⟨hok.held, hok.inOneView⟩
  have hsteps := Replica.ordering_steps (Replica.serviceQueues_follows env hok' fuel limit).steps
  exact hsteps

/-- the request is pending at the master's replica -/
def NodeCore.Pending (c : NodeCore ω σ τ) (k : ReqKey) : Prop :=
  ∃ r, c.replicas[0]? = some r ∧ r.replica.ordering.Pending k

/-- pending requests are finalised, and every batch of the master taken from the outbox was executed -/
structure Executes (c : NodeCore ω σ τ) : Prop where
  replicas : ReplicasKeep (fun _ => True) (RunningReplica.Sound fun _ => True) c
  keyed : c.requests.Keyed
  pending : ∀ k, c.Pending k → c.requests.isFinalised k
  processed : ∀ o r, (o, r) ∈ c.processed → o.instId = 0 → r = some true

namespace Executes

variable {env : Env ω σ τ} {c c' : NodeCore ω σ τ}

theorem sound_input (env : Env ω σ τ) (idx : ℕ) (r : RunningReplica ω σ τ) (i : ReplicaInput ω σ τ)
    (h : r.Sound (fun _ => True) idx) (_ : ∀ m, i = .receive m → Queued (fun _ => True) idx m) :
    (r.input env i).Sound (fun _ => True) idx := h.input i fun _ _ => trivial

/-- replacing a replica by one with fewer pending requests -/
theorem pending_set {c : NodeCore ω σ τ} {idx : ℕ} {r' : RunningReplica ω σ τ}
    {requests : Requests ω} {msgs : List (List InMsg)} {sent : List (NodeMsg ω)} {forwarded : List ReqKey}
    {processed : List (Ordered × Option Bool)} {k : ReqKey}
    (h : NodeCore.Pending ⟨requests, c.replicas.set idx r', msgs, sent, forwarded, processed⟩ k) :
    c.Pending k ∨ (idx = 0 ∧ r'.replica.ordering.Pending k) := by
  obtain ⟨r0, hr0, hk⟩ := h
  dsimp only at hr0
  rw [List.getElem?_set] at hr0
  split_ifs at hr0 with hidx
  · cases hr0
    exact Or.inr ⟨hidx, hk⟩
  · exact Or.inl ⟨r0, hr0, hk⟩

theorem arrival (h : Executes c) (hs : ArrivalStep env (fun _ => True) c c') : Executes c' := by
  have hrep := h.replicas.arrival (sound_input env) hs
  have hgrows : ∀ {requests}, c.requests.Grows requests → ∀ k, c.requests.isFinalised k →
      Requests.isFinalised requests k := by
    intro requests hg k hk
    obtain ⟨r, hr⟩ := Option.isSome_iff_exists.1 hk
    rw [Requests.isFinalised, hg.finalised k r hr]
    rfl
  cases hs with
  | record requests hg => exact ⟨hrep, hg.keyed h.keyed, fun k hk => hgrows hg k (h.pending k hk), h.processed⟩
  | sendPropagate request client => exact ⟨hrep, h.keyed, h.pending, h.processed⟩
  | forward k requests hg => exact ⟨hrep, hg.keyed h.keyed, fun k hk => hgrows hg k (h.pending k hk), h.processed⟩
  | enqueue m => exact ⟨hrep, h.keyed, h.pending, h.processed⟩
  | deliver idx m rest r hq hr =>
    refine ⟨hrep, h.keyed, fun k hk => ?_, h.processed⟩
    rcases pending_set hk with hk | ⟨rfl, hpending⟩
    · exact h.pending k hk
    · exact h.pending k ⟨r, hr, hpending⟩

theorem take (h : Executes c) (hs : TakeStep env c c') : Executes c' := by
  have hrep := h.replicas.take (sound_input env) hs
  cases hs with
  | take idx m rest r hr hout sent results hsent hresults =>
    have hshrink : (r.input env .takeFromOutBox).replica.ordering = { r.replica.ordering with outBox := rest } := by
      unfold RunningReplica.input
      rw [hout]
      rfl
    refine ⟨hrep, h.keyed, fun k hk => ?_, fun o res ho hmaster => ?_⟩
    · rcases pending_set hk with hk | ⟨rfl, hpending⟩
      · exact h.pending k hk
      · rw [hshrink] at hpending
        refine h.pending k ⟨r, hr, hpending.imp (fun ⟨o, ho, hk⟩ => ⟨o, ?_, hk⟩) id⟩
        change _ ∈ r.replica.outBox
        rw [hout]
        exact List.mem_cons_of_mem m ho
    · rcases List.mem_append.1 ho with ho | ho
      · exact h.processed o res ho hmaster
      · -- the message is of the master's replica, and its requests were pending
        have hresult := hresults _ ho
        cases hresult with
        | ordered _ _ hres =>
          have hmem : OutMsg.ordered o ∈ r.replica.outBox := by rw [hout]; exact List.mem_cons_self
          have hinst := (h.replicas.replicas idx r hr).2.ordered o (List.mem_append_right _ hmem)
          obtain rfl : idx = 0 := hinst.symm.trans hmaster
          exact hres hmaster fun k hk => h.pending k ⟨r, hr, Or.inl ⟨o, hmem, hk⟩⟩

end Executes

/-- `c` is reached from `c₀` by servicing replicas -/
structure Serviced (c₀ c : NodeCore ω σ τ) : Prop where
  replicas : ReplicasKeep (fun _ => True) (RunningReplica.Sound fun _ => True) c
  shrinks : c₀.requests.Shrinks c.requests
  pending : ∀ k, c.Pending k → c₀.requests.isFinalised k
  processed : c.processed = c₀.processed

namespace Serviced

variable {env : Env ω σ τ} {c₀ c c' : NodeCore ω σ τ}

theorem refl (h : Executes c) : Serviced c c := ⟨h.replicas, Requests.Shrinks.refl _, h.pending, rfl⟩

theorem step (hkeyed : c₀.requests.Keyed) (h : Serviced c₀ c) (hs : ServiceStep env c c') : Serviced c₀ c' := by
  have hrep := h.replicas.service (Executes.sound_input env) hs
  cases hs with
  | service idx r r' hr dbs suspicions fuel limit perfCounter time hr' =>
    have hinput : (r.input env (.nodeChanged c.requests dbs suspicions)).Inv (fun _ => True) :=
      (h.replicas.replicas idx r hr).1.input _ fun _ _ => trivial
    have hok := hinput.ok
    have hsteps := RunningReplica.serviceQueues_steps env hok fuel limit perfCounter time
    rw [← hr'] at hsteps
    have hshrinks : c.requests.Shrinks r'.replica.ordering.requests := shrinks_of_steps hsteps
    refine ⟨hrep, h.shrinks.trans hshrinks, fun k hk => ?_, h.processed⟩
    rcases Executes.pending_set hk with hk | ⟨rfl, hpending⟩
    · exact h.pending k hk
    · rcases pending_of_steps (h.shrinks.keyed hkeyed) hsteps hpending with hbefore | hfin
      · exact h.pending k ⟨r, hr, hbefore⟩
      · exact h.shrinks.isFinalised_of hfin

/-- where garbage collection has removed no pending request, the invariant is kept -/
theorem executes (h₀ : Executes c₀) (h : Serviced c₀ c)
    (hkeeps : ∀ k, c.Pending k → Dict.contains c₀.requests k → Dict.contains c.requests k) : Executes c := by
  refine ⟨h.replicas, h.shrinks.keyed h₀.keyed, fun k hk => ?_, fun o r ho => ?_⟩
  · have hfin := h.pending k hk
    have hcontains := hkeeps k hk (Requests.contains_of_isFinalised hfin)
    rw [Requests.isFinalised, h.shrinks.finalised k hcontains]
    exact hfin
  · rw [h.processed] at ho
    exact h₀.processed o r ho

end Serviced

/-! ## Runs of a node -/

/-- the requests of the batches that are accepted, or ordered and still in the outbox -/
def Replica.pendingReqs (s : Replica ω σ τ) : List ReqKey :=
  (s.outBox.filterMap OutMsg.ordered?).flatMap Ordered.reqIdr ++
    ((s.sentPrePrepares.entries ++ s.prePrepares.entries).filter fun e => ! s.hasOrdered e.1).flatMap fun e =>
      e.2.reqIdr

theorem Replica.mem_pendingReqs {s : Replica ω σ τ} {k : ReqKey} : k ∈ s.pendingReqs ↔ s.ordering.Pending k := by
  unfold Replica.pendingReqs OrderingState.Pending
  rw [List.mem_append, List.mem_flatMap, List.mem_flatMap]
  refine or_congr ⟨?_, ?_⟩ ⟨?_, ?_⟩
  · rintro ⟨o, ho, hk⟩
    obtain ⟨m, hm, he⟩ := List.mem_filterMap.1 ho
    cases m with
    | ordered => cases he; exact ⟨_, hm, hk⟩
    | _ => cases he
  · rintro ⟨o, ho, hk⟩
    exact ⟨o, List.mem_filterMap.2 ⟨_, ho, rfl⟩, hk⟩
  · rintro ⟨⟨key, pp⟩, he, hk⟩
    obtain ⟨he, hnew⟩ := List.mem_filter.1 he
    refine ⟨key, pp, ?_, ?_, hk⟩
    · exact (List.mem_append.1 he).imp PrePrepareLog.get?_eq_some.2 PrePrepareLog.get?_eq_some.2
    · have hnew' : key ∉ s.ordered := by simpa [Replica.hasOrdered] using hnew
      exact hnew'
  · rintro ⟨key, pp, hpp, hnew, hk⟩
    refine ⟨(key, pp), List.mem_filter.2 ⟨?_, ?_⟩, hk⟩
    · exact List.mem_append.2 (hpp.imp PrePrepareLog.get?_eq_some.1 PrePrepareLog.get?_eq_some.1)
    · have hnew' : key ∉ s.ordered := hnew
      simpa [Replica.hasOrdered] using hnew'

namespace RunningNode

/-- the pending requests of the master -/
def pendingReqs (s : RunningNode ω σ τ) : List ReqKey := (s.replicas[0]?).elim [] fun r => r.replica.pendingReqs

/-- no request that is pending in `s'` has been removed since `s` -/
def KeepsPending (s s' : RunningNode ω σ τ) : Prop :=
  ∀ k ∈ s'.pendingReqs, Dict.contains s.node.requests k → Dict.contains s'.node.requests k

instance (s s' : RunningNode ω σ τ) : Decidable (s.KeepsPending s') := inferInstanceAs (Decidable (∀ k ∈ _, _))

def step [DecidableEq ω] (env : NodeEnv ω σ τ) (s : RunningNode ω σ τ) (i : NodeInput ω) : Option (RunningNode ω σ τ) :=
  some (s.input env i)

theorem mem_pendingReqs {s : RunningNode ω σ τ} {k : ReqKey} : k ∈ s.pendingReqs ↔ s.core.Pending k := by
  unfold pendingReqs NodeCore.Pending
  change _ ↔ ∃ r, s.replicas[0]? = some r ∧ _
  cases s.replicas[0]? with
  | none => simp
  | some r => simp [Replica.mem_pendingReqs]

/-- **An input that removes no pending request keeps the invariant.** -/
theorem executes_input [DecidableEq ω] {env : NodeEnv ω σ τ} {s : RunningNode ω σ τ} (h : Executes s.core) (i : NodeInput ω)
    (hkeeps : s.KeepsPending (s.input env i)) : Executes (s.input env i).core := by
  rcases input_steps (D := fun _ => True) env s i (fun _ _ => trivial) with hs | hs | hs
  · exact stable_of_steps (fun _ _ hstep h => h.arrival hstep) hs h
  · exact stable_of_steps (fun _ _ hstep h => h.take hstep) hs h
  · have hserviced : Serviced s.core (s.input env i).core :=
      stable_of_steps (I := Serviced s.core) (fun _ _ hstep hc => hc.step h.keyed hstep) hs (Serviced.refl h)
    exact hserviced.executes h fun k hk hc => hkeeps k (mem_pendingReqs.2 hk) hc

/-- the replicas of a new node -/
theorem replicas_init (env : NodeEnv ω σ τ) (node : Node ω σ τ) (primaries : List (Option RepName)) {idx : ℕ}
    {r : RunningReplica ω σ τ} (hr : (init env node primaries).replicas[idx]? = some r) :
    ∃ p, primaries[idx]? = some p ∧
      r = ⟨Replica.init env.toEnv { node with requests := Dict.empty } idx (decide (idx = 0)) p, []⟩ := by
  unfold init at hr
  rw [List.getElem?_mapIdx] at hr
  obtain ⟨p, hp, rfl⟩ := Option.map_eq_some_iff.1 hr
  exact ⟨p, hp, rfl⟩

theorem executes_init (env : NodeEnv ω σ τ) (node : Node ω σ τ) (hpart : node.isParticipating = true)
    (primaries : List (Option RepName)) : Executes (init env node primaries).core := by
  refine ⟨⟨fun idx r hr => ?_, fun idx ms hms m hm => ?_⟩, fun e he => absurd he List.not_mem_nil, fun k hk => ?_,
    fun o r ho => absurd ho List.not_mem_nil⟩
  · obtain ⟨p, -, rfl⟩ := replicas_init env node primaries hr
    exact ⟨RunningReplica.inv_init _ env.toEnv { node with requests := Dict.empty } hpart idx _ p, rfl,
      fun o ho => absurd ho List.not_mem_nil, fun pp hpp => absurd hpp List.not_mem_nil⟩
  · obtain ⟨p, -, rfl⟩ := Option.map_eq_some_iff.1 ((List.getElem?_map).symm.trans hms)
    exact absurd hm List.not_mem_nil
  · obtain ⟨r, hr, hk⟩ := hk
    obtain ⟨p, -, rfl⟩ := replicas_init env node primaries hr
    rcases hk with ⟨o, ho, -⟩ | ⟨key, pp, hpp, -⟩
    · exact absurd ho List.not_mem_nil
    · rcases hpp with hpp | hpp <;> cases hpp

/-- **No ordered batch of the master is lost.** In every run of a participating node in which garbage collection
removes no pending request, every `Ordered` message of the master taken from the outbox was executed, and those still
there have their requests finalised. -/
theorem processed_master [DecidableEq ω] (env : NodeEnv ω σ τ) (node : Node ω σ τ) (hpart : node.isParticipating = true)
    (primaries : List (Option RepName)) {s : RunningNode ω σ τ}
    (hr : Reach (step env) (fun s _ s' => s.KeepsPending s') (init env node primaries) s) :
    (∀ o r, (o, r) ∈ s.processed → o.instId = 0 → r = some true) ∧
      ∀ m, s.replicas[0]? = some m → ∀ o, .ordered o ∈ m.replica.outBox → ∀ k ∈ o.reqIdr,
        s.node.requests.isFinalised k := by
  have hinv : Executes s.core := by
    refine hr.inv (I := fun s => Executes s.core) (executes_init env node hpart primaries) fun w i w' h hs hok => ?_
    cases hs
    exact executes_input h i hok
  exact ⟨hinv.processed, fun m hm o ho k hk => hinv.pending k ⟨m, hm, Or.inl ⟨o, ho, hk⟩⟩⟩

end RunningNode

/-! ## Witnesses -/

namespace FourNodes

/-- a transaction is the key of its request -/
def nodeEnv (chkFreq : ℕ) : NodeEnv Bool ℕ ReqKey where
  toEnv := env chkFreq
  txnKey k := k
  stateAt _ := 0

/-- Alpha has the primary of the master, Gamma that of the backup -/
def primaries : List (Option RepName) := [some primary, some (generateName "Gamma" 1)]

def newNode (chkFreq : ℕ) (name : NodeName) : RunningNode Bool ℕ ReqKey :=
  RunningNode.init (nodeEnv chkFreq) (node name Dict.empty) primaries

/-- the batch of one request in the backup instance, where no roots are known -/
def backupPrePrepare (ppSeqNo : ℕ) (req : Request Bool) : PrePrepare :=
  { prePrepare ppSeqNo req with instId := 1, stateRootHash := none, txnRootHash := none }

/-- with the PROPAGATEs of Alpha and Gamma, Beta forwards a request to its replicas -/
def propagates (req : Request Bool) : List (NodeInput Bool) :=
  ["Alpha", "Gamma"].map fun n => .nodeMsg (.propagate req "client") n

/-- all that a backup gets for a batch, a checkpoint of its own: the PRE-PREPARE, the votes, and the checkpoints -/
def batchMsgs (pp : PrePrepare) (primary : NodeName) (backups : List NodeName) : List (NodeInput Bool) :=
  [.nodeMsg (.threePhase (.prePrepare pp)) primary] ++
    (backups.map fun n => .nodeMsg (.threePhase (.prepare (pp.prepare pp.instId))) n) ++
    ((primary :: backups).map fun n => .nodeMsg (.threePhase (.commit ⟨pp.instId, 0, pp.ppSeqNo⟩)) n) ++
    backups.map fun n => .nodeMsg (.checkpoint ⟨pp.instId, 0, pp.ppSeqNo, pp.ppSeqNo, pp.digest⟩) n

def serviceReplicas : List (NodeInput Bool) :=
  [.serviceReplicaMsgs none, .serviceReplicaInBox 10 none fun _ => (0, 0), .serviceReplicaOutBox none]

/-- both instances order the batch and have it in a stable checkpoint before the outboxes are serviced -/
def checkpointFirst (req : Request Bool) : List (NodeInput Bool) :=
  propagates req ++ batchMsgs (prePrepare 1 req) "Alpha" ["Gamma", "Delta"] ++
    batchMsgs (backupPrePrepare 1 req) "Gamma" ["Alpha", "Delta"] ++ serviceReplicas

/-- the outboxes are serviced before the backup has its stable checkpoint -/
def executionFirst (req : Request Bool) : List (NodeInput Bool) :=
  propagates req ++ batchMsgs (prePrepare 1 req) "Alpha" ["Gamma", "Delta"] ++ serviceReplicas ++
    batchMsgs (backupPrePrepare 1 req) "Gamma" ["Alpha", "Delta"] ++ serviceReplicas

end FourNodes

open FourNodes in
/-- **A stable checkpoint on every replica removes a request before its batch is executed**: Beta orders the batch and
never executes it. -/
theorem lost_batch :
    (newNode 1 "Beta").replicas.length = (newNode 1 "Beta").node.f + 1 ∧
      ∃ s, Reach (RunningNode.step (nodeEnv 1)) (fun _ _ _ => True) (newNode 1 "Beta") s ∧
        ((prePrepare 1 (request 1 "a")).toOrdered 0, none) ∈ s.processed :=
  ⟨rfl, _, reach_get (checkpointFirst (request 1 "a")) (by decide +kernel), by decide +kernel⟩

open FourNodes in
theorem executionFirst_runs : (runAll (RunningNode.step (nodeEnv 1)) (fun s _ s' => s.KeepsPending s')
    (newNode 1 "Beta") (executionFirst (request 1 "a"))).isSome := by decide +kernel

open FourNodes in
theorem processed_master_executionFirst :
    ∃ s : RunningNode Bool ℕ ReqKey, ((prePrepare 1 (request 1 "a")).toOrdered 0, some true) ∈ s.processed ∧
      s.node.requests = Dict.empty ∧ ∀ o r, (o, r) ∈ s.processed → o.instId = 0 → r = some true :=
  ⟨_, by decide +kernel, by decide +kernel, (RunningNode.processed_master (nodeEnv 1) (node "Beta" Dict.empty) rfl
    primaries (reach_get _ executionFirst_runs)).1⟩

end Plenum
