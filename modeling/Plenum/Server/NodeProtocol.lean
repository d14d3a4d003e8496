/-
The protocol between a node and its replicas as a transition system, and the proof that the code of the node follows
it.

- `NodeCore`: the request store, the replicas, their queues, and the histories of the node.
- `ArrivalStep D`: what messages and requests do to it. `D` are the messages that may arrive.
- `TakeStep`: one message is taken from an outbox and handled. `ServiceStep`: one replica is serviced.
- `input_steps`: every input of a node makes steps of one of the three kinds only.
- `ReplicasKeep`: what every input to a replica preserves, every input to its node preserves.
- `OfInstance`: a replica sends messages of its own instance only.
-/
import Mathlib.Tactic
import Plenum.Server.Node

namespace Plenum

open Plenum.Core Plenum.Core.Exec
open Relation (ReflTransGen)

variable {ω σ τ : Type}

/-! ## Growing request stores -/

/-- what is finalised stays so -/
structure Requests.Grows (rs rs' : Requests ω) : Prop where
  finalised : ∀ k r, rs.finalised? k = some r → rs'.finalised? k = some r
  keyed : rs.Keyed → rs'.Keyed

namespace Requests

theorem finalised?_of_get? {rs rs' : Requests ω} {k : ReqKey} {r : Request ω} (h : rs.finalised? k = some r)
    (hget : ∀ s, rs.get? k = some s → s.finalised = some r → ∃ s', rs'.get? k = some s' ∧ s'.finalised = some r) :
    rs'.finalised? k = some r := by
  obtain ⟨s, hs, hf⟩ := Option.bind_eq_some_iff.1 h
  obtain ⟨s', hs', hf'⟩ := hget s hs hf
  exact Option.bind_eq_some_iff.2 ⟨s', hs', hf'⟩

theorem grows_add (rs : Requests ω) (req : Request ω) : rs.Grows (rs.add req) := by
  refine ⟨fun k r h => finalised?_of_get? h fun s hs hf => ?_, fun h => h.add req⟩
  refine ⟨s, ?_, hf⟩
  rw [get?_add, hs]
  split_ifs <;> rfl

theorem grows_update (rs : Requests ω) (k : ReqKey) (g : ReqState ω → ReqState ω)
    (hg : ∀ s, (g s).finalised = s.finalised) (hkeyed : ∀ s : ReqState ω, s.Keyed k → (g s).Keyed k) :
    rs.Grows (rs.update k g) := by
  refine ⟨fun k' r h => finalised?_of_get? h fun s hs hf => ?_, fun h => h.update hkeyed⟩
  rw [get?_update]
  split_ifs with hk
  · subst hk
    exact ⟨g s, by rw [hs]; rfl, (hg s).trans hf⟩
  · exact ⟨s, hs, hf⟩

theorem Grows.trans {rs rs' rs'' : Requests ω} (h : rs.Grows rs') (h' : rs'.Grows rs'') : rs.Grows rs'' :=
  ⟨fun k r hr => h'.finalised k r (h.finalised k r hr), fun hk => h'.keyed (h.keyed hk)⟩

theorem grows_flagAsForwarded (rs : Requests ω) (req : Request ω) (count : ℕ) :
    rs.Grows (rs.flagAsForwarded req count) :=
  grows_update rs req.key _ (fun _ => rfl) fun _ hs => ⟨hs.propagates, hs.finalised⟩

theorem grows_addPropagate (rs : Requests ω) (req : Request ω) (sender : NodeName) :
    rs.Grows (rs.addPropagate req sender) :=
  ⟨fun k r h => (grows_update _ req.key (fun s => { s with propagates := s.propagates.set sender req })
      (fun _ => rfl) (fun s hs => ⟨fun e he => by
        rcases Dict.mem_set.1 he with rfl | ⟨he, -⟩
        · rfl
        · exact hs.propagates e he, hs.finalised⟩)).finalised k r ((grows_add rs req).finalised k r h),
    fun h => h.addPropagate req sender⟩

theorem grows_canForward [DecidableEq ω] (rs : Requests ω) (req : Request ω) (requiredVotes : ℕ) :
    rs.Grows (rs.canForward req requiredVotes).2 := by
  refine ⟨fun k r h => ?_, fun h => h.canForward req requiredVotes⟩
  unfold canForward
  cases hs : rs.get? req.key with
  | none => exact h
  | some s =>
    dsimp only
    split_ifs
    · exact h
    · refine finalised?_of_get? h fun s' hs' hf => ?_
      rw [Dict.get?_set]
      split_ifs with hk
      · subst hk
        rw [hs, Option.some.injEq] at hs'
        subst hs'
        exact ⟨_, rfl, by rw [ReqState.finalise_of_finalised hf]; exact hf⟩
      · exact ⟨s', hs', hf⟩

end Requests

/-! ## Steps -/

/-- what the results below are about -/
structure NodeCore (ω σ τ : Type) where
  requests : Requests ω
  replicas : List (RunningReplica ω σ τ)
  msgsToReplicas : List (List InMsg)
  sent : List (NodeMsg ω)
  forwarded : List ReqKey
  processed : List (Ordered × Option Bool)

def RunningNode.core (s : RunningNode ω σ τ) : NodeCore ω σ τ :=
  ⟨s.node.requests, s.replicas, s.msgsToReplicas, s.sent, s.forwarded, s.processed⟩

/-- messages and requests arrive, and queues are moved to the inboxes -/
inductive ArrivalStep (env : Env ω σ τ) (D : InMsg → Prop) : NodeCore ω σ τ → NodeCore ω σ τ → Prop
  | record {c} (requests) (hgrows : c.requests.Grows requests) : ArrivalStep env D c { c with requests := requests }
  | sendPropagate {c} (request client) :
      ArrivalStep env D c { c with sent := c.sent ++ [.propagate request client] }
  | forward {c} (k requests) (hgrows : c.requests.Grows requests) :
      ArrivalStep env D c
        { c with requests := requests, msgsToReplicas := c.msgsToReplicas.map (· ++ [.reqKey k]),
                 forwarded := c.forwarded ++ [k] }
  | enqueue {c} (m : InMsg) (hD : D m) (hkey : ∀ k, m ≠ .reqKey k) :
      ArrivalStep env D c
        { c with msgsToReplicas := c.msgsToReplicas.set m.instId (c.msgsToReplicas.getD m.instId [] ++ [m]) }
  | deliver {c} (idx m rest r) (hq : c.msgsToReplicas[idx]? = some (m :: rest)) (hr : c.replicas[idx]? = some r) :
      ArrivalStep env D c
        { c with msgsToReplicas := c.msgsToReplicas.set idx rest,
                 replicas := c.replicas.set idx (r.input env (.receive m)) }

/-- what a node sends for a message of a replica -/
inductive SentFor : OutMsg → NodeMsg ω → Prop
  | threePhase (m) : SentFor (.threePhase m) (.threePhase m)
  | checkpoint (c) : SentFor (.checkpoint c) (.checkpoint c)

/-- the result of `processOrdered` for a message of a replica: a batch of the master with its requests finalised is
executed -/
inductive ResultFor (requests : Requests ω) : OutMsg → Ordered × Option Bool → Prop
  | ordered (o r) (h : o.instId = 0 → (∀ k ∈ o.reqIdr, requests.isFinalised k) → r = some true) :
      ResultFor requests (.ordered o) (o, r)

/-- the first message of an outbox is taken and handled -/
inductive TakeStep (env : Env ω σ τ) : NodeCore ω σ τ → NodeCore ω σ τ → Prop
  | take {c} (idx m rest r) (hr : c.replicas[idx]? = some r) (hout : r.replica.outBox = m :: rest) (sent results)
      (hsent : ∀ x ∈ sent, SentFor m x) (hresults : ∀ x ∈ results, ResultFor c.requests m x) :
      TakeStep env c
        { c with replicas := c.replicas.set idx (r.input env .takeFromOutBox), sent := c.sent ++ sent,
                 processed := c.processed ++ results }

/-- a replica works on the shared requests -/
inductive ServiceStep (env : Env ω σ τ) : NodeCore ω σ τ → NodeCore ω σ τ → Prop
  | service {c} (idx r r') (hr : c.replicas[idx]? = some r) (dbs suspicions fuel limit perfCounter time)
      (hr' : r' = (r.input env (.nodeChanged c.requests dbs suspicions)).input env
        (.serviceQueues fuel limit perfCounter time)) :
      ServiceStep env c { c with replicas := c.replicas.set idx r', requests := r'.replica.node.requests }

namespace RunningNode

variable {env : NodeEnv ω σ τ} {D : InMsg → Prop} {s : RunningNode ω σ τ}

/-! ## Arrivals -/

section Arrival

variable (env D)

theorem send_propagate_follows (request : Request ω) (client : String) :
    Follows (Via core (ArrivalStep env.toEnv D)) (send (.propagate request client) : NodeM ω σ τ Unit) s
      fun _ _ => True :=
  (Via.write (.sendPropagate (c := s.core) request client)).mono fun _ _ _ _ => trivial

theorem record_follows {g : RunningNode ω σ τ → Requests ω} (hgrows : s.node.requests.Grows (g s)) :
    Follows (Via core (ArrivalStep env.toEnv D)) (modify fun s => s.setRequests (g s) : NodeM ω σ τ Unit) s
      fun _ _ => True :=
  (Via.write (.record (c := s.core) _ hgrows)).mono fun _ _ _ _ => trivial

theorem ensureProcessingReq_follows {S : NodeCore ω σ τ → NodeCore ω σ τ → Prop} (key : ReqKey) (frm : String) :
    Follows (Via core S) (ensureProcessingReq key frm : NodeM ω σ τ Unit) s fun _ _ => True := by
  unfold ensureProcessingReq
  refine Follows.get_seq (Follows.cond (fun _ => Follows.ret trivial) fun _ => ?_)
  exact (Via.quiet rfl).mono fun _ _ _ _ => trivial

theorem transmitToClient_follows {S : NodeCore ω σ τ → NodeCore ω σ τ → Prop} (m : ClientMsg τ) (client : String) :
    Follows (Via core S) (transmitToClient m client : NodeM ω σ τ Unit) s fun _ _ => True :=
  (Via.quiet rfl).mono fun _ _ _ _ => trivial

theorem propagate_follows (request : Request ω) (clientName : String) :
    Follows (Via core (ArrivalStep env.toEnv D)) (propagate request clientName : NodeM ω σ τ Unit) s
      fun _ _ => True := by
  unfold propagate
  refine Follows.get_seq (Follows.cond (fun _ => Follows.ret trivial) fun _ => ?_)
  refine (record_follows env D (Requests.grows_addPropagate _ _ _)).seq fun _ s' _ _ => ?_
  exact Follows.cond (fun _ => send_propagate_follows env D request clientName) fun _ => Follows.ret trivial

theorem forward_follows (request : Request ω) :
    Follows (Via core (ArrivalStep env.toEnv D)) (forward request : NodeM ω σ τ Unit) s fun _ _ => True :=
  (Via.write (.forward (c := s.core) request.key _ (Requests.grows_flagAsForwarded _ request _))).mono
    fun _ _ _ _ => trivial

variable [DecidableEq ω]

theorem tryForwarding_follows (request : Request ω) :
    Follows (Via core (ArrivalStep env.toEnv D)) (tryForwarding request : NodeM ω σ τ Unit) s fun _ _ => True := by
  unfold tryForwarding
  refine Follows.get_seq ?_
  dsimp only
  refine (record_follows env D (Requests.grows_canForward _ _ _)).seq fun _ s' _ _ => ?_
  exact Follows.cond (fun _ => forward_follows env D request) fun _ => Follows.ret trivial

theorem recordAndPropagate_follows (request : Request ω) (clientName : String) :
    Follows (Via core (ArrivalStep env.toEnv D)) (recordAndPropagate request clientName : NodeM ω σ τ Unit) s
      fun _ _ => True := by
  unfold recordAndPropagate
  refine (record_follows env D (Requests.grows_add _ _)).seq fun _ s' _ _ => ?_
  refine (propagate_follows env D request clientName).seq fun _ s'' _ _ => ?_
  exact tryForwarding_follows env D request

theorem processPropagate_follows (request : Request ω) (clientName : String) (frm : NodeName) :
    Follows (Via core (ArrivalStep env.toEnv D)) (processPropagate request clientName frm : NodeM ω σ τ Unit) s
      fun _ _ => True := by
  unfold processPropagate
  refine (ensureProcessingReq_follows _ _).seq fun _ s1 _ _ => ?_
  refine (record_follows env D (Requests.grows_addPropagate _ _ _)).seq fun _ s2 _ _ => ?_
  refine (propagate_follows env D request clientName).seq fun _ s3 _ _ => ?_
  exact tryForwarding_follows env D request

theorem processRequest_follows (request : Request ω) (frm : String) :
    Follows (Via core (ArrivalStep env.toEnv D)) (processRequest env request frm) s fun _ _ => True := by
  unfold processRequest
  refine Follows.get_seq ?_
  dsimp only
  cases s.getReplyFromLedger env (s.node.dbs.ledgers.get (env.ledgerIdForRequest request)) request with
  | some reply => exact transmitToClient_follows _ _
  | none =>
    refine (ensureProcessingReq_follows _ _).seq fun _ s1 _ _ => ?_
    refine (recordAndPropagate_follows env D request frm).seq fun _ s2 _ _ => ?_
    exact transmitToClient_follows _ _

end Arrival

/-- a message for a replica arrives -/
theorem sendToReplica_follows {m : InMsg} (hD : D m) (hkey : ∀ k, m ≠ .reqKey k) :
    Follows (Via core (ArrivalStep env.toEnv D)) (sendToReplica m : NodeM ω σ τ Unit) s fun _ _ => True := by
  have hinst : Follows (Via core (ArrivalStep env.toEnv D)) (msgHasAcceptableInstId m : NodeM ω σ τ Bool) s
      fun _ _ => True := by
    unfold msgHasAcceptableInstId
    refine Follows.get_seq (Follows.cond (fun _ => ?_) fun _ => Follows.ret trivial)
    exact (Via.quiet rfl).seq fun _ _ _ _ => Follows.ret trivial
  have hview : ∀ s, Follows (Via core (ArrivalStep env.toEnv D)) (msgHasAcceptableViewNo m : NodeM ω σ τ Bool) s
      fun _ _ => True := by
    intro s
    unfold msgHasAcceptableViewNo
    refine Follows.get_seq (Follows.cond (fun _ => Follows.ret trivial) fun _ => ?_)
    refine Follows.cond (fun _ => ?_) fun _ => Follows.ret trivial
    exact (Via.quiet rfl).seq fun _ _ _ _ => Follows.ret trivial
  unfold sendToReplica
  refine hinst.seq fun _ s1 _ _ => Follows.cond (fun _ => ?_) fun _ => Follows.ret trivial
  refine (hview s1).seq fun _ s2 _ _ => Follows.cond (fun _ => ?_) fun _ => Follows.ret trivial
  exact (Via.write (.enqueue (c := s2.core) m hD hkey)).mono fun _ _ _ _ => trivial

theorem repeatM_follows {R : RunningNode ω σ τ → RunningNode ω σ τ → Prop} {m : NodeM ω σ τ Unit}
    (hm : ∀ s, Follows R m s fun _ _ => True) (n : ℕ) : Follows R (repeatM m n) s fun _ _ => True := by
  induction n generalizing s with
  | zero => exact Follows.ret trivial
  | succ n ih =>
    rw [repeatM]
    exact (hm s).seq fun _ s' _ _ => ih

theorem deliverMsg_follows (idx : ℕ) :
    Follows (Via core (ArrivalStep env.toEnv D)) (deliverMsg env idx) s fun _ _ => True := by
  unfold deliverMsg
  refine Follows.get_seq ?_
  split
  · rename_i m rest r hq hr
    exact (Via.write (.deliver (c := s.core) idx m rest r hq hr)).mono fun _ _ _ _ => trivial
  · exact Follows.raise _

theorem deliverMsgs_follows (limit : Option ℕ) (idxs : List ℕ) (msgCount : ℕ) :
    Follows (Via core (ArrivalStep env.toEnv D)) (deliverMsgs env limit idxs msgCount) s fun _ _ => True := by
  induction idxs generalizing s msgCount with
  | nil => exact Follows.ret trivial
  | cons idx idxs ih =>
    rw [deliverMsgs]
    refine Follows.get_seq ?_
    dsimp only
    exact (repeatM_follows (fun _ => deliverMsg_follows idx) _).seq fun _ s' _ _ => ih _

/-! ## Taking messages from the outboxes -/

/-- the methods that execute a batch leave the core as it is -/
theorem commit_follows {S : NodeCore ω σ τ → NodeCore ω σ τ → Prop} (lid : LedgerId) (reqCount : ℕ)
    (stateRoot txnRoot : Option String) :
    Follows (Via core S) (commit env lid reqCount stateRoot txnRoot) s fun _ _ => True := by
  unfold commit
  refine Follows.get_seq ?_
  refine (Via.quiet rfl).seq fun _ s1 _ _ => ?_
  split
  · refine Follows.cond (fun _ => Follows.raise _) fun _ => ?_
    exact (Via.quiet rfl).seq fun _ _ _ _ => Follows.ret trivial
  · exact Follows.raise _

theorem doneProcessingReq_follows {S : NodeCore ω σ τ → NodeCore ω σ τ → Prop} (key : ReqKey) :
    Follows (Via core S) (doneProcessingReq key : NodeM ω σ τ Unit) s fun _ _ => True := by
  unfold doneProcessingReq
  refine Follows.get_seq (Follows.cond (fun _ => ?_) fun _ => Follows.raise _)
  exact (Via.quiet rfl).mono fun _ _ _ _ => trivial

theorem sendReplyToClient_follows {S : NodeCore ω σ τ → NodeCore ω σ τ → Prop} (reply : ClientMsg τ) (key : ReqKey) :
    Follows (Via core S) (sendReplyToClient reply key : NodeM ω σ τ Unit) s fun _ _ => True := by
  unfold sendReplyToClient
  refine Follows.get_seq ?_
  split
  · exact (transmitToClient_follows _ _).seq fun _ _ _ _ => doneProcessingReq_follows key
  · exact Follows.ret trivial

variable (env) in
theorem executeBatch_follows {S : NodeCore ω σ τ → NodeCore ω σ τ → Prop} (ppSeqNo ppTime : ℕ)
    (reqs : List (Request ω)) (lid : LedgerId) (stateRoot txnRoot : Option String) :
    Follows (Via core S) (executeBatch env ppSeqNo ppTime reqs lid stateRoot txnRoot) s fun _ _ => True := by
  have hcommit : Follows (Via core S) (commitAndSendReplies env lid ppTime reqs stateRoot txnRoot) s
      fun _ _ => True := by
    unfold commitAndSendReplies
    refine (commit_follows lid reqs.length stateRoot txnRoot).seq fun txns s1 _ _ => ?_
    refine Follows.seq (Q := fun _ _ => True) ((Via.quiet rfl).mono fun _ _ _ _ => trivial) fun _ s2 _ _ => ?_
    refine Follows.seq (Q := fun _ _ => True) ?_ fun _ _ _ _ => Follows.ret trivial
    exact Follows.each fun e _ s3 _ => sendReplyToClient_follows _ _
  unfold executeBatch
  refine hcommit.seq fun txns s1 _ _ => ?_
  split
  · exact (Via.quiet rfl).mono fun _ _ _ _ => trivial
  · exact Follows.ret trivial

theorem core_of_quiet {α : Type} {m : NodeM ω σ τ α} {Q : α → RunningNode ω σ τ → Prop}
    (h : Follows (Via core fun _ _ => False) m s Q) : (exec m s).2.core = s.core :=
  stable_of_steps (I := fun s' : RunningNode ω σ τ => s'.core = s.core)
    (fun _ _ hstep hs => hstep.elim (fun he => he.trans hs) False.elim) h.steps rfl

/-- a batch whose requests are all finalised has them all found -/
theorem length_filterMap_finalised {requests : Requests ω} {keys : List ReqKey}
    (h : ∀ k ∈ keys, requests.isFinalised k) : (keys.filterMap requests.finalised?).length = keys.length := by
  induction keys with
  | nil => rfl
  | cons k keys ih =>
    obtain ⟨r, hr⟩ := Option.isSome_iff_exists.1 (h k List.mem_cons_self)
    rw [List.filterMap_cons_some hr, List.length_cons, List.length_cons,
      ih fun k' hk' => h k' (List.mem_cons_of_mem k hk')]

variable (env) in
/-- `processOrdered` leaves the core as it is; a batch of the master with its requests finalised is executed -/
theorem processOrdered_spec (o : Ordered) :
    (exec (processOrdered env o) s).2.core = s.core ∧ ∀ r, (exec (processOrdered env o) s).1 = .ok r →
      ResultFor s.core.requests (.ordered o) (o, r) := by
  unfold processOrdered
  by_cases hmaster : o.instId = 0
  · rw [if_pos hmaster, exec_bind, exec_get]
    dsimp only
    by_cases hlen : (o.reqIdr.filterMap s.node.requests.finalised?).length = o.reqIdr.length
    · rw [if_pos hlen, exec_bind]
      have hcore := core_of_quiet (s := s) (executeBatch_follows env o.ppSeqNo o.ppTime
        (o.reqIdr.filterMap s.node.requests.finalised?) o.ledgerId o.stateRootHash o.txnRootHash)
      rcases he : exec (executeBatch env o.ppSeqNo o.ppTime (o.reqIdr.filterMap s.node.requests.finalised?) o.ledgerId
        o.stateRootHash o.txnRootHash) s with ⟨e | u, s'⟩
      · rw [he] at hcore
        exact ⟨hcore, fun r hr => by cases hr⟩
      · rw [he] at hcore
        refine ⟨hcore, fun r hr => ?_⟩
        cases hr
        exact .ordered o _ fun _ _ => rfl
    · rw [if_neg hlen]
      refine ⟨rfl, fun r hr => ?_⟩
      cases hr
      exact .ordered o _ fun _ hfin => absurd (length_filterMap_finalised hfin) hlen
  · rw [if_neg hmaster]
    refine ⟨rfl, fun r hr => ?_⟩
    cases hr
    exact .ordered o _ fun h _ => absurd h hmaster

variable (env) in
/-- handling a message changes the histories only -/
theorem handleOutMsg_spec (m : OutMsg) :
    ∃ sent results, (exec (handleOutMsg env m) s).2.core =
        { s.core with sent := s.core.sent ++ sent, processed := s.core.processed ++ results } ∧
      (∀ x ∈ sent, SentFor m x) ∧ ∀ x ∈ results, ResultFor s.core.requests m x := by
  have hnone : ∀ s' : RunningNode ω σ τ, s'.core = s.core →
      s'.core = { s.core with sent := s.core.sent ++ [], processed := s.core.processed ++ [] } := by
    intro s' hs'
    rw [hs', List.append_nil, List.append_nil]
  cases m with
  | threePhase m =>
    refine ⟨[.threePhase m], [], ?_, fun x hx => ?_, fun x hx => absurd hx List.not_mem_nil⟩
    · rw [List.append_nil]; rfl
    · rw [List.mem_singleton.1 hx]; exact .threePhase m
  | checkpoint c =>
    refine ⟨[.checkpoint c], [], ?_, fun x hx => ?_, fun x hx => absurd hx List.not_mem_nil⟩
    · rw [List.append_nil]; rfl
    · rw [List.mem_singleton.1 hx]; exact .checkpoint c
  | reject r =>
    refine ⟨[], [], hnone _ ?_, fun x hx => absurd hx List.not_mem_nil, fun x hx => absurd hx List.not_mem_nil⟩
    refine core_of_quiet (Q := fun _ _ => True) ?_
    unfold handleOutMsg senderOf
    refine Follows.seq (Q := fun _ _ => True) ?_ fun _ s1 _ _ => ?_
    · refine Follows.get_seq ?_
      split
      · exact Follows.ret trivial
      · exact Follows.raise _
    · exact (transmitToClient_follows _ _).seq fun _ _ _ _ => doneProcessingReq_follows _
  | ordered o =>
    unfold handleOutMsg
    rw [exec_bind, exec_get]
    dsimp only
    split_ifs
    · obtain ⟨hcore, hres⟩ := processOrdered_spec env (s := s) o
      rw [exec_bind]
      rcases he : exec (processOrdered env o) s with ⟨e | r, s'⟩
      · rw [he] at hcore
        exact ⟨[], [], hnone _ hcore, fun x hx => absurd hx List.not_mem_nil, fun x hx => absurd hx List.not_mem_nil⟩
      · rw [he] at hcore hres
        refine ⟨[], [(o, r)], ?_, fun x hx => absurd hx List.not_mem_nil, fun x hx => ?_⟩
        · rw [List.append_nil, ← hcore]; rfl
        · rw [List.mem_singleton.1 hx]; exact hres r rfl
    · exact ⟨[], [], hnone _ rfl, fun x hx => absurd hx List.not_mem_nil, fun x hx => absurd hx List.not_mem_nil⟩

theorem takeOutMsg_follows (idx : ℕ) : Follows (Via core (TakeStep env.toEnv)) (takeOutMsg env idx) s fun _ _ => True := by
  unfold takeOutMsg
  refine Follows.get_seq ?_
  split
  · exact Follows.raise _
  · rename_i r hr
    split
    · exact Follows.raise _
    · rename_i m rest hout
      obtain ⟨sent, results, hcore, hsent, hresults⟩ :=
        handleOutMsg_spec env (s := s.setReplica idx (r.input env.toEnv .takeFromOutBox)) m
      refine ⟨ReflTransGen.single (Or.inr ?_), fun _ _ => trivial⟩
      rw [exec_bind, exec_modify]
      dsimp only
      rw [hcore]
      exact .take (c := s.core) idx m rest r hr hout sent results hsent hresults

theorem takeOutMsgs_follows (limit : Option ℕ) (idxs : List ℕ) (msgCount : ℕ) :
    Follows (Via core (TakeStep env.toEnv)) (takeOutMsgs env limit idxs msgCount) s fun _ _ => True := by
  induction idxs generalizing s msgCount with
  | nil => exact Follows.ret trivial
  | cons idx idxs ih =>
    rw [takeOutMsgs]
    refine Follows.get_seq ?_
    dsimp only
    exact (repeatM_follows (fun _ => takeOutMsg_follows idx) _).seq fun _ s' _ _ => ih _

/-! ## Servicing the replicas -/

theorem serviceReplica_follows (fuel : ℕ) (limit : Option ℕ) (clock : ℕ × ℕ) (idx : ℕ) :
    Follows (Via core (ServiceStep env.toEnv)) (serviceReplica env fuel limit clock idx) s fun _ _ => True := by
  unfold serviceReplica
  refine Follows.get_seq ?_
  split
  · exact Follows.raise _
  · rename_i r hr
    refine Follows.seq (Q := fun _ _ => True) ?_ fun _ _ _ _ => ?_
    · exact (Via.write (.service (c := s.core) idx r _ hr s.node.dbs s.node.suspicions fuel limit clock.1 clock.2
        rfl)).mono fun _ _ _ _ => trivial
    · split
      · exact Follows.ret trivial
      · exact Follows.raise _

end RunningNode

/-! ## Inputs -/

/-- the messages for replicas that an input brings from other nodes -/
def NodeInput.brings : NodeInput ω → InMsg → Prop
  | .nodeMsg (.threePhase m) frm, x => x = .threePhase m frm
  | .nodeMsg (.checkpoint c) frm, x => x = .checkpoint c frm
  | _, _ => False

namespace RunningNode

variable [DecidableEq ω] {env : NodeEnv ω σ τ} {D : InMsg → Prop} {s : RunningNode ω σ τ}

/-- **An input makes steps of one kind only.** -/
theorem input_steps (env : NodeEnv ω σ τ) (s : RunningNode ω σ τ) (i : NodeInput ω) (hD : ∀ m, i.brings m → D m) :
    ReflTransGen (ArrivalStep env.toEnv D) s.core (s.input env i).core ∨
      ReflTransGen (TakeStep env.toEnv) s.core (s.input env i).core ∨
        ReflTransGen (ServiceStep env.toEnv) s.core (s.input env i).core := by
  cases i with
  | nodeMsg m frm =>
    left
    refine Via.steps (Follows.steps (Q := fun _ _ => True) ?_)
    cases m with
    | propagate request client => exact processPropagate_follows env D request client frm
    | threePhase m => exact sendToReplica_follows (hD _ rfl) fun _ h => by cases h
    | checkpoint c => exact sendToReplica_follows (hD _ rfl) fun _ h => by cases h
  | request request frm => exact Or.inl (Via.steps (processRequest_follows env D request frm).steps)
  | serviceReplicaMsgs limit =>
    left
    refine Via.steps (Follows.steps (Q := fun _ _ => True) ?_)
    refine Follows.seq (Q := fun _ _ => True) ?_ fun _ _ _ _ => Follows.ret trivial
    exact Follows.get_seq (deliverMsgs_follows limit _ 0)
  | serviceReplicaOutBox limit =>
    right; left
    refine Via.steps (Follows.steps (Q := fun _ _ => True) ?_)
    refine Follows.seq (Q := fun _ _ => True) ?_ fun _ _ _ _ => Follows.ret trivial
    exact Follows.get_seq (takeOutMsgs_follows limit _ 0)
  | serviceReplicaInBox fuel limit clock =>
    right; right
    refine Via.steps (Follows.steps (Q := fun _ _ => True) ?_)
    refine Follows.get_seq (Follows.each fun idx _ s' _ => ?_)
    exact serviceReplica_follows fuel limit (clock idx) idx

/-- what every step preserves, every input preserves -/
theorem input_keeps {I : NodeCore ω σ τ → Prop} (i : NodeInput ω) (hD : ∀ m, i.brings m → D m)
    (harrive : ∀ c c', ArrivalStep env.toEnv D c c' → I c → I c') (htake : ∀ c c', TakeStep env.toEnv c c' → I c → I c')
    (hservice : ∀ c c', ServiceStep env.toEnv c c' → I c → I c') (h : I s.core) : I (s.input env i).core := by
  rcases input_steps env s i hD with hs | hs | hs
  · exact stable_of_steps harrive hs h
  · exact stable_of_steps htake hs h
  · exact stable_of_steps hservice hs h

end RunningNode

/-! ## The replicas of a node -/

/-- a message that may wait for the replica of instance `idx` -/
def Queued (D : InMsg → Prop) (idx : ℕ) (m : InMsg) : Prop := (∃ k, m = .reqKey k) ∨ (D m ∧ m.instId = idx)

/-- `J` holds of every replica of the node, and the waiting messages may arrive -/
structure ReplicasKeep (D : InMsg → Prop) (J : ℕ → RunningReplica ω σ τ → Prop) (c : NodeCore ω σ τ) : Prop where
  replicas : ∀ (idx : ℕ) r, c.replicas[idx]? = some r → J idx r
  msgs : ∀ (idx : ℕ) ms, c.msgsToReplicas[idx]? = some ms → ∀ m ∈ ms, Queued D idx m

namespace ReplicasKeep

variable {D : InMsg → Prop} {env : Env ω σ τ} {J : ℕ → RunningReplica ω σ τ → Prop} {c c' : NodeCore ω σ τ}

theorem set_replica (h : ReplicasKeep D J c) {idx : ℕ} {r : RunningReplica ω σ τ} (hr : J idx r) (idx' : ℕ)
    (r' : RunningReplica ω σ τ) (hr' : (c.replicas.set idx r)[idx']? = some r') : J idx' r' := by
  rw [List.getElem?_set] at hr'
  split_ifs at hr' with hidx
  · cases hr'
    exact hidx ▸ hr
  · exact h.replicas idx' r' hr'

theorem set_msgs (h : ReplicasKeep D J c) {idx : ℕ} {ms : List InMsg} (hms : ∀ m ∈ ms, Queued D idx m) (idx' : ℕ)
    (ms' : List InMsg) (hms' : (c.msgsToReplicas.set idx ms)[idx']? = some ms') : ∀ m ∈ ms', Queued D idx' m := by
  rw [List.getElem?_set] at hms'
  split_ifs at hms' with hidx
  · cases hms'
    exact hidx ▸ hms
  · exact h.msgs idx' ms' hms'

section Steps

variable (hJ : ∀ idx r (i : ReplicaInput ω σ τ), J idx r → (∀ m, i = .receive m → Queued D idx m) →
  J idx (r.input env i))

include hJ

theorem arrival (h : ReplicasKeep D J c) (hs : ArrivalStep env D c c') : ReplicasKeep D J c' := by
  cases hs with
  | record requests => exact ⟨h.replicas, h.msgs⟩
  | sendPropagate request client => exact ⟨h.replicas, h.msgs⟩
  | forward k requests =>
    refine ⟨h.replicas, fun idx ms hms m hm => ?_⟩
    obtain ⟨ms', hms', rfl⟩ := Option.map_eq_some_iff.1 ((List.getElem?_map).symm.trans hms)
    rcases List.mem_append.1 hm with hm | hm
    · exact h.msgs idx ms' hms' m hm
    · exact Or.inl ⟨k, List.mem_singleton.1 hm⟩
  | enqueue m hD hkey =>
    refine ⟨h.replicas, h.set_msgs fun m' hm' => ?_⟩
    rcases List.mem_append.1 hm' with hm' | hm'
    · rw [List.getD_eq_getElem?_getD] at hm'
      cases hms : c.msgsToReplicas[m.instId]? with
      | none => rw [hms] at hm'; exact absurd hm' List.not_mem_nil
      | some ms => rw [hms] at hm'; exact h.msgs _ ms hms m' hm'
    · rw [List.mem_singleton.1 hm']; exact Or.inr ⟨hD, rfl⟩
  | deliver idx m rest r hq hr =>
    have hmsgs := h.msgs idx _ hq
    refine ⟨h.set_replica ?_, h.set_msgs fun m' hm' => hmsgs m' (List.mem_cons_of_mem m hm')⟩
    refine hJ idx r _ (h.replicas idx r hr) fun m' hm' => ?_
    cases hm'
    exact hmsgs m List.mem_cons_self

theorem take (h : ReplicasKeep D J c) (hs : TakeStep env c c') : ReplicasKeep D J c' := by
  cases hs with
  | take idx m rest r hr hout sent results =>
    exact ⟨h.set_replica (hJ idx r _ (h.replicas idx r hr) fun _ hm => by cases hm), h.msgs⟩

theorem service (h : ReplicasKeep D J c) (hs : ServiceStep env c c') : ReplicasKeep D J c' := by
  cases hs with
  | service idx r r' hr dbs suspicions fuel limit perfCounter time hr' =>
    have hshared := hJ idx r (.nodeChanged c.requests dbs suspicions) (h.replicas idx r hr) fun _ hm => by cases hm
    have hserviced := hJ idx _ (.serviceQueues fuel limit perfCounter time) hshared fun _ hm => by cases hm
    rw [← hr'] at hserviced
    exact ⟨h.set_replica hserviced, h.msgs⟩

end Steps

/-- **What every input to a replica preserves, every input to its node preserves.** -/
theorem input [DecidableEq ω] {env : NodeEnv ω σ τ}
    (hJ : ∀ idx r (i : ReplicaInput ω σ τ), J idx r → (∀ m, i = .receive m → Queued D idx m) →
      J idx (r.input env.toEnv i))
    {s : RunningNode ω σ τ} (h : ReplicasKeep D J s.core) (i : NodeInput ω) (hD : ∀ m, i.brings m → D m) :
    ReplicasKeep D J (s.input env i).core :=
  RunningNode.input_keeps i hD (fun _ _ hs h => h.arrival hJ hs) (fun _ _ hs h => h.take hJ hs)
    (fun _ _ hs h => h.service hJ hs) h

end ReplicasKeep

/-! ## Messages of an instance -/

/-- the replica is of instance `idx`, and so are the PRE-PREPAREs and `Ordered` messages it has emitted -/
structure OfInstance (idx : ℕ) (c : OrderingState ω) : Prop where
  instId : c.cfg.instId = idx
  ordered : ∀ o, .ordered o ∈ c.outBox → o.instId = idx
  prePrepares : ∀ pp, .threePhase (.prePrepare pp) ∈ c.outBox → pp.instId = idx

namespace OfInstance

variable {idx : ℕ} {D : InMsg → Prop} {c c' : OrderingState ω}

theorem of_send (h : OfInstance idx c) {ms : List OutMsg} (hcfg : c'.cfg = c.cfg) (hout : c'.outBox = c.outBox ++ ms)
    (hordered : ∀ o, .ordered o ∈ ms → o.instId = idx)
    (hprePrepares : ∀ pp, .threePhase (.prePrepare pp) ∈ ms → pp.instId = idx) : OfInstance idx c' := by
  refine ⟨by rw [hcfg]; exact h.instId, fun o ho => ?_, fun pp hpp => ?_⟩
  · rw [hout] at ho
    exact (List.mem_append.1 ho).elim (h.ordered o) (hordered o)
  · rw [hout] at hpp
    exact (List.mem_append.1 hpp).elim (h.prePrepares pp) (hprePrepares pp)

theorem step (h : OfInstance idx c) (hs : OrderingStep D c c') : OfInstance idx c' := by
  cases hs with
  | sendPrePrepare pp rejects _ _ _ _ _ _ hinst =>
    refine h.of_send rfl (List.append_assoc _ _ _) (fun o ho => ?_) fun pp' hpp' => ?_
    · simp at ho
    · simp only [List.mem_append, List.mem_map, reduceCtorEq, and_false, exists_false, List.mem_singleton,
        OutMsg.threePhase.injEq, ThreePhaseMsg.prePrepare.injEq, false_or] at hpp'
      rw [hpp', hinst, h.instId]
  | sendRejects rejects => exact h.of_send rfl rfl (fun o ho => by simp at ho) fun pp hpp => by simp at hpp
  | sendPrepare pp => exact h.of_send rfl rfl (fun o ho => by simp at ho) fun pp hpp => by simp at hpp
  | sendCommit cm => exact h.of_send rfl rfl (fun o ho => by simp at ho) fun pp hpp => by simp at hpp
  | order key pp =>
    refine h.of_send rfl rfl (fun o ho => ?_) fun pp hpp => by simp at hpp
    cases List.mem_singleton.1 ho
    exact h.instId
  | checkpoint cks msgs => exact h.of_send rfl rfl (fun o ho => by simp at ho) fun pp hpp => by simp at hpp
  | _ => exact ⟨h.instId, h.ordered, h.prePrepares⟩

theorem input {env : Env ω σ τ} {r : RunningReplica ω σ τ} (h : OfInstance idx r.history)
    (hok : Replica.Ok D r.replica) (i : ReplicaInput ω σ τ) (hD : ∀ m, i = .receive m → D m) :
    OfInstance idx (r.input env i).history := by
  obtain ⟨-, hsteps⟩ := RunningReplica.input_steps env hok i hD
  refine stable_of_steps (fun _ _ hstep h => h.step hstep) hsteps ?_
  obtain ⟨inBox, requests, he⟩ := i.arrive_eq r.history
  rw [he]
  exact ⟨h.instId, h.ordered, h.prePrepares⟩

end OfInstance

end Plenum
