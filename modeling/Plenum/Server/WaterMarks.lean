/-
The batches of a primary and its water marks.

- `Replica.serviceQueues_inputs`: servicing the queues of a replica is a run of its parts, `send3PCBatch` one of them.
- `Replica.batchesDue`: how many batches the queues and the timer call for, as far as the requests are finalised.
- `sentPPs_numbers`: the PRE-PREPAREs that `send3PCBatch` sends are numbered one by one after
  `lastPrePrepareSeqNo`, `batchesDue` of them. The water marks play no part in it.
- `sent_between_waterMarks_iff`: in every run, all PRE-PREPAREs are sent between the water marks exactly if there is
  room for the batches each time.
-/
import Mathlib.Tactic
import Plenum.Scenarios.FourNodes
import Plenum.Server.Batch

namespace Plenum

open Plenum.Core Plenum.Core.Exec

def OutMsg.prePrepare? : OutMsg → Option PrePrepare
  | .threePhase (.prePrepare pp) => some pp
  | _ => none

namespace Replica

variable {ω σ τ : Type} {env : Env ω σ τ} {s s' : Replica ω σ τ}

/-! ## Runs of the parts of `serviceQueues` -/

/-- what happens to a replica, with the parts of `serviceQueues` one by one -/
inductive ServiceInput (ω σ τ : Type) where
  | receive (m : InMsg)
  | dequeuePrePrepares (fuel : ℕ)
  | handleAllSync (fuel : ℕ) (limit : Option ℕ)
  | send3PCBatch
  | serviceActions (fuel : ℕ)
  /-- the node has another state, primary or time -/
  | nodeChanged (node : Node ω σ τ) (primaryName : Option RepName) (perfCounter time : ℕ)
  | caughtUpTill (ppSeqNo : ℕ)
  | takeFromOutBox

/-- a replica makes batches while it is the primary and participates -/
def makesBatches (s : Replica ω σ τ) : Prop := s.isPrimary = some true ∧ s.node.isParticipating

instance (s : Replica ω σ τ) : Decidable s.makesBatches := by unfold makesBatches; infer_instance

/-- one input; what a method wrote before it raised stays -/
def serviceInput (env : Env ω σ τ) (s : Replica ω σ τ) : ServiceInput ω σ τ → Replica ω σ τ
  | .receive m => { s with inBox := s.inBox ++ [m] }
  | .dequeuePrePrepares fuel => (exec (Replica.dequeuePrePrepares env fuel) s).2
  | .handleAllSync fuel limit => (exec (Replica.handleAllSync env fuel limit) s).2
  | .send3PCBatch => if s.makesBatches then (exec (Replica.send3PCBatch env) s).2 else s
  | .serviceActions fuel => (exec (Replica.serviceActions env fuel) s).2
  | .nodeChanged node primaryName perfCounter time =>
    { s with node := node, primaryName := primaryName, perfCounter := perfCounter, time := time }
  | .caughtUpTill ppSeqNo => s.addToOrdered (s.node.viewNo, ppSeqNo)
  | .takeFromOutBox => { s with outBox := s.outBox.tail }

def serviceRun (env : Env ω σ τ) (s : Replica ω σ τ) (inputs : List (ServiceInput ω σ τ)) : Replica ω σ τ :=
  inputs.foldl (serviceInput env) s

theorem serviceRun_append (env : Env ω σ τ) (s : Replica ω σ τ) (l l' : List (ServiceInput ω σ τ)) :
    serviceRun env s (l ++ l') = serviceRun env (serviceRun env s l) l' := List.foldl_append

/-- the state after two programs is reached by the inputs for the first one, and those for the second one where the
first one has returned -/
theorem inputs_seq {α β : Type} {m : ReplicaM ω σ τ α} {f : α → ReplicaM ω σ τ β} {l : List (ServiceInput ω σ τ)}
    (hm : (exec m s).2 = serviceRun env s l)
    (hf : ∀ a, ∃ l', (exec (f a) (serviceRun env s l)).2 = serviceRun env (serviceRun env s l) l') :
    ∃ l', (exec (m >>= f) s).2 = serviceRun env s l' := by
  rw [exec_bind]
  rcases he : exec m s with ⟨e | a, s1⟩
  · rw [he] at hm
    exact ⟨l, hm⟩
  · rw [he] at hm
    obtain ⟨l', hl'⟩ := hf a
    refine ⟨l ++ l', ?_⟩
    dsimp only at hm ⊢
    rw [hm, hl', serviceRun_append]

/-- **Servicing the queues is a run of its parts**, however far it gets. -/
theorem serviceQueues_inputs (env : Env ω σ τ) (fuel : ℕ) (limit : Option ℕ) (s : Replica ω σ τ) :
    ∃ l, (exec (serviceQueues env fuel limit) s).2 = serviceRun env s l := by
  unfold serviceQueues
  rw [exec_bind, exec_get]
  dsimp only
  refine inputs_seq (l := if s.node.isParticipating then [.dequeuePrePrepares fuel] else []) ?_ fun r => ?_
  · split_ifs <;> rfl
  refine inputs_seq (l := [.handleAllSync fuel limit]) rfl fun r1 => ?_
  rw [exec_bind, exec_get]
  dsimp only
  refine inputs_seq (l := [.send3PCBatch]) ?_ fun r2 => ?_
  · generalize serviceRun env _ [.handleAllSync fuel limit] = s2
    change _ = if s2.makesBatches then (exec (Replica.send3PCBatch env) s2).2 else s2
    by_cases h : s2.makesBatches
    · rw [if_pos h]
      exact congrArg (fun m => (exec m s2).2) (if_pos h)
    · rw [if_neg h]
      exact congrArg (fun m => (exec m s2).2) (if_neg h)
  exact inputs_seq (l := [.serviceActions fuel]) rfl fun r3 => ⟨[], rfl⟩

/-! ## The batches that are due -/

/-- enough requests wait for a batch, or some wait long enough -/
def batchDue (env : Env ω σ τ) (s : Replica ω σ τ) (lid : LedgerId) : Prop :=
  env.max3PCBatchSize ≤ (s.requestQueues.get lid).length ∨
    (s.lastBatchCreated + env.max3PCBatchWait < s.perfCounter ∧ 0 < (s.requestQueues.get lid).length)

instance (env : Env ω σ τ) (s : Replica ω σ τ) (lid : LedgerId) : Decidable (s.batchDue env lid) := by
  unfold batchDue; infer_instance

/-- the requests of the next batch are all finalised; otherwise making the batch raises -/
def batchFinalised (env : Env ω σ τ) (s : Replica ω σ τ) (lid : LedgerId) : Prop :=
  ∀ k ∈ (s.requestQueues.get lid).take env.max3PCBatchSize, s.node.requests.isFinalised k

instance (env : Env ω σ τ) (s : Replica ω σ τ) (lid : LedgerId) : Decidable (s.batchFinalised env lid) := by
  unfold batchFinalised; infer_instance

/-- the batches that the queue of a ledger calls for now -/
def batchesDueFor (env : Env ω σ τ) (s : Replica ω σ τ) (lid : LedgerId) : ℕ :=
  if s.batchDue env lid ∧ s.batchFinalised env lid then 1 else 0

/-- the batches that the queues call for now; where the first one raises, there is no second one -/
def batchesDue (env : Env ω σ τ) (s : Replica ω σ τ) : ℕ :=
  if s.batchDue env .pool ∧ ¬ s.batchFinalised env .pool then 0
  else s.batchesDueFor env .pool + s.batchesDueFor env .domain

/-! ## What `send3PCBatch` sends -/

/-- `n` batches of a ledger have been sent -/
structure Sent (lid : LedgerId) (s s' : Replica ω σ τ) (n : ℕ) : Prop where
  numbers : ∃ ms, s'.outBox = s.outBox ++ ms ∧
    (ms.filterMap OutMsg.prePrepare?).map PrePrepare.ppSeqNo = List.range' (s.lastPrePrepareSeqNo + 1) n
  last : s'.lastPrePrepareSeqNo = s.lastPrePrepareSeqNo + n
  otherQueues : ∀ lid', lid' ≠ lid → s'.requestQueues.get lid' = s.requestQueues.get lid'
  requests : s'.node.requests = s.node.requests
  lastBatchCreated : s'.lastBatchCreated = s.lastBatchCreated
  perfCounter : s'.perfCounter = s.perfCounter

/-- rejects are no PRE-PREPAREs -/
theorem prePrepares_of_rejects (rejects : List Reject) :
    (rejects.map OutMsg.reject).filterMap OutMsg.prePrepare? = [] := by
  rw [List.filterMap_eq_nil_iff]
  intro m hm
  obtain ⟨r, -, rfl⟩ := List.mem_map.1 hm
  rfl

/-- the loop of `create3PCBatch` returns exactly if the first `n` requests of the queue are finalised -/
theorem fillBatch_returns_iff (env : Env ω σ τ) (lid : LedgerId) (n : ℕ) (acc : ReqLists ω) (s : Replica ω σ τ) :
    (∃ acc', (exec (fillBatch env lid n acc) s).1 = .ok acc') ↔
      ∀ k ∈ (s.requestQueues.get lid).take n, s.node.requests.isFinalised k := by
  induction n generalizing acc s with
  | zero => simp [fillBatch, exec_pure]
  | succ n ih =>
    unfold fillBatch
    rw [exec_bind, exec_get]
    dsimp only
    cases hq : s.requestQueues.get lid with
    | nil => simp [exec_pure]
    | cons key rest =>
      dsimp only
      rw [exec_bind, exec_modify]
      dsimp only
      rw [exec_bind, List.take_succ_cons, List.forall_mem_cons]
      obtain ⟨e, he⟩ | ⟨req, he, hreq⟩ := exec_finalisedReq key (s.setRequestQueue lid rest)
      · have hkey : ¬ s.node.requests.isFinalised key := by
          intro h
          obtain ⟨req, hreq⟩ := Option.isSome_iff_exists.1 h
          have := exec_finalisedReq_of_some (s := s.setRequestQueue lid rest) hreq
          rw [he] at this
          cases this
        rw [he]
        simp [hkey]
      · have hkey : s.node.requests.isFinalised key := Option.isSome_iff_exists.2 ⟨req, hreq⟩
        obtain ⟨dbs, acc', he', -⟩ := exec_processReqDuringBatch env req acc (s.setRequestQueue lid rest)
        rw [he]
        dsimp only
        rw [exec_bind, he']
        have hrest : ((s.setRequestQueue lid rest).setDbs dbs).requestQueues.get lid = rest :=
          PerLedger.get_set_self _ _ _
        refine (ih acc' _).trans ?_
        rw [hrest]
        exact (and_iff_right hkey).symm

/-- one round of `send3PCBatch` -/
theorem exec_send3PCBatchFor (env : Env ω σ τ) (lid : LedgerId) (s : Replica ω σ τ) :
    (¬ (s.batchDue env lid ∧ ¬ s.batchFinalised env lid) ∧
      ∃ r s', exec (send3PCBatchFor env lid) s = (.ok r, s') ∧ Sent lid s s' (s.batchesDueFor env lid)) ∨
    ((s.batchDue env lid ∧ ¬ s.batchFinalised env lid) ∧
      ∃ e s', exec (send3PCBatchFor env lid) s = (.error e, s') ∧ Sent lid s s' 0) := by
  unfold send3PCBatchFor
  rw [exec_bind, exec_get]
  dsimp only
  by_cases hdue : s.batchDue env lid
  · have hdue' : env.max3PCBatchSize ≤ (s.requestQueues.get lid).length ∨
      (s.lastBatchCreated + env.max3PCBatchWait < s.perfCounter ∧ 0 < (s.requestQueues.get lid).length) := hdue
    obtain ⟨r, popped, rest, dbs, hq, he, -⟩ := exec_fillBatch env lid env.max3PCBatchSize ⟨[], [], []⟩ s
    have hreturns := fillBatch_returns_iff env lid env.max3PCBatchSize ⟨[], [], []⟩ s
    rw [he] at hreturns
    rw [if_pos hdue', batchesDueFor]
    unfold create3PCBatch sendPrePrepare send
    cases r with
    | error e =>
      have hfin : ¬ s.batchFinalised env lid := fun h => by
        obtain ⟨_, h'⟩ := hreturns.2 h
        cases h'
      refine Or.inr ⟨⟨hdue, hfin⟩, e, (s.setDbs dbs).setRequestQueue lid rest, ?_, ?_⟩
      · simp only [exec_bind, exec_get, he]
      · refine ⟨⟨[], (List.append_nil _).symm, rfl⟩, rfl, fun lid' hne => ?_, rfl, rfl, rfl⟩
        exact PerLedger.get_set_ne _ _ hne
    | ok acc =>
      have hfin : s.batchFinalised env lid := hreturns.1 ⟨acc, rfl⟩
      rw [if_pos ⟨hdue, hfin⟩]
      refine Or.inl ⟨fun h => h.2 hfin, 1, _, by simp only [exec_bind, exec_get, exec_modify, exec_pure, he]; rfl, ?_⟩
      refine ⟨⟨_, List.append_assoc _ _ _, ?_⟩, ?_, fun lid' hne => ?_, rfl, rfl, rfl⟩
      · have hrejects : ∀ b : Bool,
            (if b then acc.rejects.map OutMsg.reject else []).filterMap OutMsg.prePrepare? = [] := by
          intro b
          cases b
          · rfl
          · exact prePrepares_of_rejects _
        rw [List.filterMap_append, hrejects]
        rfl
      · exact (setLastPrePrepareSeqNo_lastPrePrepareSeqNo _).trans (max_eq_right (Nat.le_succ _))
      · exact PerLedger.get_set_ne _ _ hne
  · have hdue' : ¬ (env.max3PCBatchSize ≤ (s.requestQueues.get lid).length ∨
      (s.lastBatchCreated + env.max3PCBatchWait < s.perfCounter ∧ 0 < (s.requestQueues.get lid).length)) := hdue
    rw [if_neg hdue', batchesDueFor, if_neg fun h => hdue h.1]
    exact Or.inl ⟨fun h => hdue h.1, 0, s, rfl,
      ⟨⟨[], (List.append_nil _).symm, rfl⟩, rfl, fun _ _ => rfl, rfl, rfl, rfl⟩⟩

/-- the PRE-PREPAREs that `send3PCBatch` puts into the outbox -/
def sentPPs (env : Env ω σ τ) (s : Replica ω σ τ) : List PrePrepare :=
  ((exec (send3PCBatch env) s).2.outBox.drop s.outBox.length).filterMap OutMsg.prePrepare?

/-- two lists of messages one after the other, numbered on -/
theorem Sent.sentPPs_eq {lid : LedgerId} {n m : ℕ} {s1 s2 : Replica ω σ τ} (h1 : Sent .pool s s1 n) (h2 : Sent lid s1 s2 m)
    (he : (exec (send3PCBatch env) s).2.outBox = s2.outBox) :
    (s.sentPPs env).map PrePrepare.ppSeqNo = List.range' (s.lastPrePrepareSeqNo + 1) (n + m) := by
  obtain ⟨ms, hms, hnums⟩ := h1.numbers
  obtain ⟨ms', hms', hnums'⟩ := h2.numbers
  rw [h1.last] at hnums'
  rw [sentPPs, he, hms', hms, List.append_assoc, List.drop_left, List.filterMap_append, List.map_append, hnums, hnums']
  have h : List.range' (s.lastPrePrepareSeqNo + 1) n ++ List.range' (s.lastPrePrepareSeqNo + 1 + 1 * n) m =
      List.range' (s.lastPrePrepareSeqNo + 1) (n + m) := List.range'_append
  rw [Nat.one_mul, Nat.add_right_comm] at h
  exact h

/-- **What `send3PCBatch` sends**: PRE-PREPAREs numbered on from `lastPrePrepareSeqNo`, as many as batches are due. -/
theorem sentPPs_numbers (env : Env ω σ τ) (s : Replica ω σ τ) :
    (s.sentPPs env).map PrePrepare.ppSeqNo = List.range' (s.lastPrePrepareSeqNo + 1) (s.batchesDue env) := by
  rcases exec_send3PCBatchFor env .pool s with ⟨hpool, r, s1, he1, h1⟩ | ⟨hpool, e, s1, he1, h1⟩
  · rw [batchesDue, if_neg hpool]
    have hdomain : s1.batchDue env .domain = s.batchDue env .domain := by
      rw [batchDue, batchDue, h1.otherQueues _ (by decide), h1.lastBatchCreated, h1.perfCounter]
    have hfin : s1.batchFinalised env .domain = s.batchFinalised env .domain := by
      rw [batchFinalised, batchFinalised, h1.otherQueues _ (by decide), h1.requests]
    rcases exec_send3PCBatchFor env .domain s1 with ⟨-, r', s2, he2, h2⟩ | ⟨hraise, e, s2, he2, h2⟩
    · have hfor : s1.batchesDueFor env .domain = s.batchesDueFor env .domain := by
        simp only [batchesDueFor, hdomain, hfin]
      rw [hfor] at h2
      refine h1.sentPPs_eq h2 ?_
      unfold send3PCBatch
      rw [exec_bind, he1]
      dsimp only
      rw [exec_bind, he2]
      dsimp only
      split_ifs <;> rfl
    · rw [hdomain, hfin] at hraise
      have hfor : s.batchesDueFor env .domain = 0 := if_neg fun h => hraise.2 h.2
      rw [hfor]
      refine h1.sentPPs_eq h2 ?_
      unfold send3PCBatch
      rw [exec_bind, he1]
      dsimp only
      rw [exec_bind, he2]
  · rw [batchesDue, if_pos hpool]
    have h2 : Sent .pool s1 s1 0 := ⟨⟨[], (List.append_nil _).symm, rfl⟩, rfl, fun _ _ => rfl, rfl, rfl, rfl⟩
    refine h1.sentPPs_eq h2 ?_
    unfold send3PCBatch
    rw [exec_bind, he1]

/-! ## The water marks -/

/-- no batch is due, or all the batches due fit between the water marks -/
def HasRoom (env : Env ω σ τ) (s : Replica ω σ τ) : Prop :=
  s.batchesDue env = 0 ∨ (s.h ≤ s.lastPrePrepareSeqNo ∧ s.lastPrePrepareSeqNo + s.batchesDue env ≤ s.H)

instance (env : Env ω σ τ) (s : Replica ω σ τ) : Decidable (s.HasRoom env) := by unfold HasRoom; infer_instance

/-- the numbers sent lie between the water marks exactly if there is room for them -/
theorem sentPPs_between_iff (env : Env ω σ τ) (s : Replica ω σ τ) :
    (∀ pp ∈ s.sentPPs env, s.h < pp.ppSeqNo ∧ pp.ppSeqNo ≤ s.H) ↔ s.HasRoom env := by
  have hmem : (∀ pp ∈ s.sentPPs env, s.h < pp.ppSeqNo ∧ pp.ppSeqNo ≤ s.H) ↔
      ∀ n ∈ List.range' (s.lastPrePrepareSeqNo + 1) (s.batchesDue env), s.h < n ∧ n ≤ s.H := by
    rw [← sentPPs_numbers, List.forall_mem_map]
  rw [hmem, HasRoom]
  simp only [List.mem_range'_1]
  constructor
  · intro h
    by_cases hdue : s.batchesDue env = 0
    · exact Or.inl hdue
    · have hfirst := h (s.lastPrePrepareSeqNo + 1) (by omega)
      have hlast := h (s.lastPrePrepareSeqNo + s.batchesDue env) (by omega)
      exact Or.inr ⟨by omega, hlast.2⟩
  · rintro (hdue | ⟨hh, hH⟩) n hn <;> omega

/-- **When a primary stays inside its water marks.** In every run, from any state, with any number of queued requests
and whatever the other replicas send: each PRE-PREPARE that `send3PCBatch` sends lies between the water marks at that
moment if and only if each time there is room for the batches that are due. -/
theorem sent_between_waterMarks_iff (env : Env ω σ τ) (s : Replica ω σ τ) (inputs : List (ServiceInput ω σ τ)) :
    (∀ past rest, inputs = past ++ .send3PCBatch :: rest → (serviceRun env s past).makesBatches →
      ∀ pp ∈ (serviceRun env s past).sentPPs env,
        (serviceRun env s past).h < pp.ppSeqNo ∧ pp.ppSeqNo ≤ (serviceRun env s past).H) ↔
    ∀ past rest, inputs = past ++ .send3PCBatch :: rest → (serviceRun env s past).makesBatches →
      (serviceRun env s past).HasRoom env := by
  constructor
  · intro h past rest hinputs hmakes
    exact (sentPPs_between_iff env _).1 (h past rest hinputs hmakes)
  · intro h past rest hinputs hmakes
    exact (sentPPs_between_iff env _).2 (h past rest hinputs hmakes)

end Replica

/-! ## Witness -/

namespace FourNodes

/-- four finalised requests -/
def waitingRequests : List (Request Bool) := [request 1 "a", request 2 "b", request 3 "c", request 4 "d"]

/-- the primary, with the four requests -/
def busyPrimary : Replica Bool ℕ ReqKey :=
  master 1 "Alpha" (waitingRequests.foldl (fun d req => d.set req.key (forwarded req 2 [])) Dict.empty)

/-- the requests reach the primary; no other replica ever answers -/
def unanswered : List (Replica.ServiceInput Bool ℕ ReqKey) :=
  (waitingRequests.map fun req => .receive (.reqKey req.key)) ++
    [.handleAllSync 10 none, .send3PCBatch, .send3PCBatch, .send3PCBatch]

end FourNodes

open FourNodes in
/-- with three batches outstanding and a log of three, the primary sends the fourth one -/
theorem sent_beyond_waterMarks :
    (Replica.serviceRun (env 1) busyPrimary unanswered).makesBatches ∧
      ∃ pp ∈ (Replica.serviceRun (env 1) busyPrimary unanswered).sentPPs (env 1),
        ¬ (pp.ppSeqNo ≤ (Replica.serviceRun (env 1) busyPrimary unanswered).H) := by
  decide +kernel

end Plenum
