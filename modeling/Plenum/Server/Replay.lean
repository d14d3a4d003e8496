/-
Whether a primary can have a request applied twice.

- `accepts_any_reqIdr`: no check looks at whether a key is repeated. For any list of finalised requests, in any
  multiplicity, there is a PRE-PREPARE that a backup accepts.
- `RepeatsNothing`: the primary lists each key once in a PRE-PREPARE, and no key in the PRE-PREPAREs of two batches.
- `no_request_twice`: then no key is twice in the batches that a replica takes in, over any run.
- `same_request_twice`: a primary that sends one request in two batches has both accepted, and the request applied twice.
-/
import Mathlib.Tactic
import Plenum.Server.Votes
import Plenum.Server.VoteOrder
import Plenum.Server.Batch

namespace Plenum

open Plenum.Core Plenum.Core.Exec

variable {ω σ τ : Type}

/-! ## Every list of finalised requests is accepted -/

namespace Replica

variable {s : Replica ω σ τ} {E : Electorate} {pp : PrePrepare}

/-- the loop over finalised requests returns, whatever is repeated -/
theorem exec_processReqs_finalised (env : Env ω σ τ) (keys : List ReqKey) (acc : ReqLists ω) (s : Replica ω σ τ)
    (h : ∀ key ∈ keys, s.node.requests.isFinalised key = true) :
    ∃ acc' s', exec (processReqs env keys acc) s = (.ok acc', s') := by
  induction keys generalizing acc s with
  | nil => exact ⟨acc, s, rfl⟩
  | cons key keys ih =>
    obtain ⟨req, hfinalised⟩ := Option.isSome_iff_exists.1 (h key List.mem_cons_self)
    have hreq := exec_finalisedReq_of_some hfinalised
    obtain ⟨dbs, acc1, hbatch, -⟩ := exec_processReqDuringBatch env req acc s
    obtain ⟨acc', s', hrest⟩ := ih acc1 (s.setDbs dbs) fun key' hkey' => h key' (List.mem_cons_of_mem key hkey')
    refine ⟨acc', s', ?_⟩
    unfold processReqs
    rw [exec_bind, hreq]
    dsimp only
    rw [exec_bind, hbatch]
    exact hrest

/-- the PRE-PREPARE of a primary that says of the keys what they come to -/
def prePrepareOf (env : Env ω σ τ) (pp : PrePrepare) (keys : List ReqKey) (acc : ReqLists ω) (s : Replica ω σ τ) :
    PrePrepare :=
  { pp with reqIdr := keys, discarded := acc.validReqs.length,
            digest := batchDigest env (acc.validReqs ++ acc.inValidReqs),
            stateRootHash := s.stateRootHash env pp.ledgerId, txnRootHash := s.txnRootHash env pp.ledgerId }

/-- **Any list of finalised requests is accepted.** A backup that has got nothing for the next batch yet accepts for it a
PRE-PREPARE with this list, whichever keys are repeated in it or were in batches before. -/
theorem accepts_any_reqIdr (env : Env ω σ τ) (h : Fresh E pp s) (hnext : s.isNextPrePrepare pp.ppSeqNo = true)
    (keys : List ReqKey) (hkeys : ∀ key ∈ keys, s.node.requests.isFinalised key = true) :
    ∃ pp', pp'.key = pp.key ∧ pp'.reqIdr = keys ∧
      (exec (canProcessPrePrepare env pp' E.primary) s).1 = .ok true := by
  obtain ⟨acc, s1, hreqs⟩ := exec_processReqs_finalised env keys ⟨[], [], []⟩ s hkeys
  have hfresh : Fresh E (prePrepareOf env pp keys acc s1) s :=
    ⟨⟨h.name, h.instId, h.primaryName, h.backup, h.participating, h.viewNo, h.faults, h.unstable, h.between, h.unstashed,
      h.unsent⟩, h.noPrePrepare, h.noPrepares, h.noCommits, h.noPreparesWaiting, h.unordered⟩
  have hvalid : (exec (validatePrePrepare env (prePrepareOf env pp keys acc s1) E.primary) s).1 = .ok () := by
    unfold validatePrePrepare
    rw [exec_bind, exec_get]
    dsimp only [prePrepareOf]
    rw [exec_bind, hreqs]
    simp only [ne_eq, not_true_eq_false, if_false]
    rw [exec_bind, exec_get]
    by_cases hmaster : s1.isMaster = true
    · simp only [hmaster, if_true, not_true_eq_false, if_false]
      rfl
    · simp only [hmaster]
      rfl
  have hfinalised : s.nonFinalisedReqs keys = [] := by
    unfold nonFinalisedReqs
    rw [List.filter_eq_nil_iff]
    intro key hkey
    simp [hkeys key hkey]
  obtain ⟨s', hs', -⟩ := hfresh.exec_canProcessPrePrepare ⟨hfinalised, hnext, hvalid⟩
  refine ⟨prePrepareOf env pp keys acc s1, rfl, rfl, ?_⟩
  rw [hs']

end Replica

/-! ## Runs with a primary that repeats nothing -/

/-- the PRE-PREPAREs of the primary among the messages `D`: each lists a key once, and two batches share none -/
structure RepeatsNothing (D : InMsg → Prop) (primaryNode : NodeName) : Prop where
  nodup : ∀ pp, D (.threePhase (.prePrepare pp) primaryNode) → pp.reqIdr.Nodup
  disjoint : ∀ pp pp', D (.threePhase (.prePrepare pp) primaryNode) → D (.threePhase (.prePrepare pp') primaryNode) →
    pp.key ≠ pp'.key → ∀ key ∈ pp.reqIdr, key ∉ pp'.reqIdr

/-- the keys in batches with different keys, none of which repeats one -/
theorem nodup_flatMap_reqIdr {D : InMsg → Prop} {primaryNode : NodeName} (h : RepeatsNothing D primaryNode)
    {pps : List PrePrepare} (hpps : ∀ pp ∈ pps, D (.threePhase (.prePrepare pp) primaryNode))
    (hkeys : (pps.map PrePrepare.key).Nodup) : (pps.flatMap PrePrepare.reqIdr).Nodup := by
  rw [List.nodup_flatMap]
  refine ⟨fun pp hpp => h.nodup pp (hpps pp hpp), ?_⟩
  rw [List.Nodup, List.pairwise_map] at hkeys
  refine hkeys.imp_of_mem fun hpp hpp' hne => ?_
  exact fun key hkey hkey' => h.disjoint _ _ (hpps _ hpp) (hpps _ hpp') hne key hkey hkey'

namespace RunningReplica

/-- the invariants hold over a run in which only messages of `D` are delivered -/
theorem votes_run {D : InMsg → Prop} (env : Env ω σ τ) {r : RunningReplica ω σ τ} {n : NodeName} (hinv : r.Inv D)
    (hvotes : Votes n D r.history) (inputs : List (ReplicaInput ω σ τ)) (hD : ∀ m, .receive m ∈ inputs → D m) :
    Votes n D (r.run env inputs).history ∧ (r.run env inputs).history.cfg = r.history.cfg := by
  induction inputs generalizing r with
  | nil => exact ⟨hvotes, rfl⟩
  | cons i inputs ih =>
    have hi : ∀ m, i = .receive m → D m := fun m hm => hD m (hm ▸ List.mem_cons_self)
    obtain ⟨hvotes', hcfg⟩ := votes_input env hinv hvotes i hi
    obtain ⟨hrun, hcfg'⟩ := ih (hinv.input i hi) hvotes' fun m hm => hD m (List.mem_cons_of_mem i hm)
    exact ⟨hrun, hcfg'.trans hcfg⟩

end RunningReplica

/-- **No request twice.** In every run of a backup whose primary repeats nothing, the requests of all the batches that it
has taken in are different; these are all the batches that it has answered with a PREPARE. -/
theorem no_request_twice (env : Env ω σ τ) (node : Node ω σ τ) (hpart : node.isParticipating = true) (instId : ℕ)
    (isMaster : Bool) (primaryNode : NodeName) (hbackup : primaryNode ≠ node.name) (inputs : List (ReplicaInput ω σ τ))
    (hprimary : RepeatsNothing (fun m => .receive m ∈ inputs) primaryNode) :
    let r := RunningReplica.run env
      ⟨Replica.init env node instId isMaster (some (generateName primaryNode instId)), []⟩ inputs
    (r.replica.accepted.flatMap PrePrepare.reqIdr).Nodup ∧
      ∀ p, .threePhase (.prepare p) ∈ r.emitted → ∃ pp ∈ r.replica.accepted, p = pp.prepare instId := by
  intro r
  obtain ⟨hvotes, hcfg⟩ := RunningReplica.votes_run env
    (RunningReplica.inv_init (fun m => .receive m ∈ inputs) env node hpart instId isMaster _)
    (RunningReplica.votes_init _ env node rfl instId isMaster (some (generateName primaryNode instId)))
    inputs fun _ => id
  have hne : r.history.cfg.primaryName ≠ some r.history.cfg.name := by
    rw [hcfg]
    change some (generateName primaryNode instId) ≠ some (generateName node.name instId)
    intro he
    exact hbackup (congrArg RepName.node (Option.some.inj he))
  refine ⟨nodup_flatMap_reqIdr hprimary (fun pp hpp => ?_) ?_, fun p hp => ?_⟩
  · obtain ⟨j, hj, hmem⟩ := hvotes.received hne pp hpp
    rw [hcfg] at hj
    have hj' : primaryNode = j := congrArg RepName.node (Option.some.inj hj)
    subst hj'
    exact hmem
  · have hacc := hvotes.accepted
    change r.replica.accepted.map PrePrepare.key = _ at hacc
    rw [hacc]
    exact (List.nodup_range').map fun p q hpq => congrArg Prod.snd hpq
  · obtain ⟨-, pp, hpp, he⟩ := hvotes.prepares p hp
    refine ⟨pp, hpp, ?_⟩
    rw [hcfg] at he
    exact he

/-! ## Witnesses -/

namespace FourNodes

/-- Beta, the master of a node with two finalised requests, gets the PRE-PREPAREs of Alpha -/
def betaGets (pps : List PrePrepare) : RunningReplica Bool ℕ ReqKey :=
  RunningReplica.run (env 100) ⟨Replica.init (env 100) (twoRequests "Beta") 0 true (some (generateName "Alpha" 0)), []⟩
    ((pps.map fun pp => .receive (.threePhase (.prePrepare pp) "Alpha")) ++ [.serviceQueues 10 none 0 0])

def batchOf (ppSeqNo : ℕ) (reqs : List (Request Bool)) (digest : String) : PrePrepare :=
  ⟨0, 0, ppSeqNo, 0, reqs.map Request.key, reqs.length, digest, .domain, some "state", some "root"⟩

end FourNodes

open FourNodes in
theorem no_request_twice_twoBatches :
    let r := betaGets [batchOf 1 [request 1 "a"] "a", batchOf 2 [request 2 "b"] "b"]
    (r.replica.accepted.flatMap PrePrepare.reqIdr).Nodup ∧ r.replica.accepted.length = 2 := by
  refine ⟨?_, by decide +kernel⟩
  refine (no_request_twice (env 100) (twoRequests "Beta") rfl 0 true "Alpha" (by decide) _ ?_).1
  constructor
  · intro pp hpp
    simp only [List.map_cons, List.map_nil, List.mem_append, List.mem_cons, ReplicaInput.receive.injEq,
      InMsg.threePhase.injEq, ThreePhaseMsg.prePrepare.injEq, and_true, List.not_mem_nil, or_false, reduceCtorEq] at hpp
    rcases hpp with rfl | rfl <;> decide
  · intro pp pp' hpp hpp' hne
    simp only [List.map_cons, List.map_nil, List.mem_append, List.mem_cons, ReplicaInput.receive.injEq,
      InMsg.threePhase.injEq, ThreePhaseMsg.prePrepare.injEq, and_true, List.not_mem_nil, or_false, reduceCtorEq]
      at hpp hpp'
    rcases hpp with rfl | rfl <;> rcases hpp' with rfl | rfl <;> revert hne <;> decide

open FourNodes in
/-- **The same request twice.** Alpha sends the first request in two batches; Beta answers both with a PREPARE, and has the
transaction of the request in its ledger twice. -/
theorem same_request_twice :
    let pps := [batchOf 1 [request 1 "a"] "a", batchOf 2 [request 1 "a"] "a"]
    let r := betaGets pps
    ¬ (r.replica.accepted.flatMap PrePrepare.reqIdr).Nodup ∧
      (∀ pp ∈ pps, .threePhase (.prepare (pp.prepare 0)) ∈ r.emitted) ∧
      (r.replica.node.dbs.ledgers.get .domain).uncommittedTxns = [("client", 1), ("client", 1)] := by
  decide +kernel

end Plenum
