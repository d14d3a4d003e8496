/-
Batches: what the master does with the requests of a batch, and how a backup replays and reverts it.

- `Dbs.validReqs`, `Dbs.inValidReqs`: the requests that dynamic validation accepts, and refuses, each at its place in
  the batch. `Dbs.applyAll` applies requests one after the other.
- `exec_processReqs`, `exec_fillBatch_master`: the loops of `validatePrePrepare` and of `create3PCBatch` compute these.
- `exec_validatePrePrepare`: `validatePrePrepare` ends in the first fault of the PRE-PREPARE (`fault`) after undoing
  the batch, or accepts it.
- `validatePrePrepare_atomic_iff`: a rejection restores the databases exactly when every valid request of the batch
  is of the PRE-PREPARE's ledger, and one is valid or that ledger had nothing uncommitted.
- `validatePrePrepare_create3PCBatch_iff`: the batch of an honest primary is accepted exactly when no request that the
  primary refused is valid after the batch.
-/
import Mathlib.Tactic
import Plenum.Server.ReplicaRefinement
import Plenum.Server.ReqHandler
import Plenum.Scenarios.FourNodes

namespace Plenum

open Plenum.Core Plenum.Core.Exec

variable {ω σ τ : Type}

/-! ## Requests in turn -/

namespace Dbs

/-- the requests that dynamic validation accepts, the accepted ones before each being applied -/
def validReqs (env : Env ω σ τ) : Dbs σ τ → List (Request ω) → List (Request ω)
  | _, [] => []
  | dbs, req :: reqs =>
    if dbs.doDynamicValidation env req = none then req :: validReqs env (dbs.applyReq env req) reqs
    else validReqs env dbs reqs

/-- the requests that dynamic validation refuses -/
def inValidReqs (env : Env ω σ τ) : Dbs σ τ → List (Request ω) → List (Request ω)
  | _, [] => []
  | dbs, req :: reqs =>
    if dbs.doDynamicValidation env req = none then inValidReqs env (dbs.applyReq env req) reqs
    else req :: inValidReqs env dbs reqs

/-- the rejects of the refused requests -/
def rejects (env : Env ω σ τ) : Dbs σ τ → List (Request ω) → List Reject
  | _, [] => []
  | dbs, req :: reqs =>
    match dbs.doDynamicValidation env req with
    | none => rejects env (dbs.applyReq env req) reqs
    | some reason => ⟨req.identifier, req.reqId, reason⟩ :: rejects env dbs reqs

def applyAll (env : Env ω σ τ) (dbs : Dbs σ τ) (reqs : List (Request ω)) : Dbs σ τ :=
  reqs.foldl (applyReq env) dbs

variable {env : Env ω σ τ} {dbs : Dbs σ τ}

theorem validReqs_append (env : Env ω σ τ) (dbs : Dbs σ τ) (reqs reqs' : List (Request ω)) :
    validReqs env dbs (reqs ++ reqs') =
      validReqs env dbs reqs ++ validReqs env (applyAll env dbs (validReqs env dbs reqs)) reqs' := by
  induction reqs generalizing dbs with
  | nil => rfl
  | cons req reqs ih =>
    simp only [List.cons_append, validReqs]
    split_ifs with h
    · rw [ih]; rfl
    · exact ih dbs

theorem inValidReqs_append (env : Env ω σ τ) (dbs : Dbs σ τ) (reqs reqs' : List (Request ω)) :
    inValidReqs env dbs (reqs ++ reqs') =
      inValidReqs env dbs reqs ++ inValidReqs env (applyAll env dbs (validReqs env dbs reqs)) reqs' := by
  induction reqs generalizing dbs with
  | nil => rfl
  | cons req reqs ih =>
    simp only [List.cons_append, validReqs, inValidReqs]
    split_ifs with h
    · rw [ih]; rfl
    · rw [ih]; rfl

/-- the accepted requests are accepted again without the refused ones between them -/
theorem validReqs_validReqs (reqs : List (Request ω)) :
    validReqs env dbs (validReqs env dbs reqs) = validReqs env dbs reqs := by
  induction reqs generalizing dbs with
  | nil => rfl
  | cons req reqs ih =>
    by_cases h : dbs.doDynamicValidation env req = none
    · simp only [validReqs, h, if_true, ih]
    · simp only [validReqs, h, if_false, ih]

theorem inValidReqs_validReqs (reqs : List (Request ω)) : inValidReqs env dbs (validReqs env dbs reqs) = [] := by
  induction reqs generalizing dbs with
  | nil => rfl
  | cons req reqs ih =>
    by_cases h : dbs.doDynamicValidation env req = none
    · simp only [validReqs, inValidReqs, h, if_true, ih]
    · simp only [validReqs, h, if_false, ih]

/-- no request is accepted in turn if and only if none is accepted at the start -/
theorem validReqs_eq_nil {reqs : List (Request ω)} :
    validReqs env dbs reqs = [] ↔ ∀ req ∈ reqs, dbs.doDynamicValidation env req ≠ none := by
  induction reqs with
  | nil => simp [validReqs]
  | cons req reqs ih =>
    by_cases h : dbs.doDynamicValidation env req = none
    · simp [validReqs, h]
    · simp [validReqs, h, ih]

theorem inValidReqs_of_none {reqs : List (Request ω)} (h : ∀ req ∈ reqs, dbs.doDynamicValidation env req ≠ none) :
    inValidReqs env dbs reqs = reqs := by
  induction reqs with
  | nil => rfl
  | cons req reqs ih =>
    have hreq := h req List.mem_cons_self
    simp only [inValidReqs, hreq, if_false]
    rw [ih fun r hr => h r (List.mem_cons_of_mem req hr)]

/-- applying requests appends one transaction for each to the ledger of its type, and touches no other -/
theorem applyAll_ledger (env : Env ω σ τ) (dbs : Dbs σ τ) (reqs : List (Request ω)) (lid : LedgerId) :
    ((applyAll env dbs reqs).ledgers.get lid).txns = (dbs.ledgers.get lid).txns ∧
      ∃ txns, ((applyAll env dbs reqs).ledgers.get lid).uncommittedTxns =
          (dbs.ledgers.get lid).uncommittedTxns ++ txns ∧
        txns.length = reqs.countP fun req => env.ledgerIdForRequest req = lid := by
  induction reqs generalizing dbs with
  | nil => exact ⟨rfl, [], by simp [applyAll], rfl⟩
  | cons req reqs ih =>
    obtain ⟨htxns, txns, hun, hlen⟩ := ih (dbs.applyReq env req)
    by_cases hlid : lid = env.ledgerIdForRequest req
    · have hget : (dbs.applyReq env req).ledgers.get lid =
          (dbs.ledgers.get lid).appendTxns env.merkleRoot [(env.apply dbs req).1] := by
        rw [hlid]
        exact PerLedger.get_set_self _ _ _
      rw [hget] at htxns hun
      refine ⟨htxns, (env.apply dbs req).1 :: txns, ?_, ?_⟩
      · refine hun.trans ?_
        rw [Ledger.appendTxns_uncommittedTxns, List.append_assoc]
        rfl
      · rw [List.length_cons, hlen, List.countP_cons_of_pos (by simp [hlid])]
    · have hget : (dbs.applyReq env req).ledgers.get lid = dbs.ledgers.get lid := PerLedger.get_set_ne _ _ hlid
      rw [hget] at htxns hun
      refine ⟨htxns, txns, hun, ?_⟩
      rw [hlen, List.countP_cons_of_neg]
      simpa using fun h : env.ledgerIdForRequest req = lid => hlid h.symm

/-- a batch is split into its valid and its invalid requests -/
theorem perm_validReqs_inValidReqs (reqs : List (Request ω)) :
    (validReqs env dbs reqs ++ inValidReqs env dbs reqs).Perm reqs := by
  induction reqs generalizing dbs with
  | nil => exact List.Perm.nil
  | cons req reqs ih =>
    by_cases h : dbs.doDynamicValidation env req = none
    · simp only [validReqs, inValidReqs, h, if_true, List.cons_append]
      exact ih.cons req
    · simp only [validReqs, inValidReqs, h, if_false]
      exact List.perm_middle.trans (ih.cons req)

theorem applyAll_committedHeadHash (env : Env ω σ τ) (dbs : Dbs σ τ) (reqs : List (Request ω)) (lid : LedgerId) :
    ((applyAll env dbs reqs).states.get lid).committedHeadHash = (dbs.states.get lid).committedHeadHash := by
  induction reqs generalizing dbs with
  | nil => rfl
  | cons req reqs ih =>
    refine (ih _).trans ?_
    rw [Dbs.applyReq, PerLedger.get_set]
    split_ifs with h
    · rw [h]
    · rfl

/-- what is not of a ledger leaves the ledger and its state as they are -/
theorem applyAll_of_other (env : Env ω σ τ) (dbs : Dbs σ τ) {reqs : List (Request ω)} {lid : LedgerId}
    (h : ∀ req ∈ reqs, env.ledgerIdForRequest req ≠ lid) :
    (applyAll env dbs reqs).ledgers.get lid = dbs.ledgers.get lid ∧
      (applyAll env dbs reqs).states.get lid = dbs.states.get lid := by
  induction reqs generalizing dbs with
  | nil => exact ⟨rfl, rfl⟩
  | cons req reqs ih =>
    have hne : lid ≠ env.ledgerIdForRequest req := fun hh => h req List.mem_cons_self hh.symm
    obtain ⟨h1, h2⟩ := ih (dbs.applyReq env req) fun r hr => h r (List.mem_cons_of_mem req hr)
    exact ⟨h1.trans (PerLedger.get_set_ne _ _ hne), h2.trans (PerLedger.get_set_ne _ _ hne)⟩

/-- undo the valid requests of a batch of a ledger -/
def undo (env : Env ω σ τ) (dbs : Dbs σ τ) (lid : LedgerId) (reqs : List (Request ω)) : Dbs σ τ :=
  (applyAll env dbs reqs).revert env lid (dbs.states.get lid).headHash reqs.length

/-- **Undoing a batch restores the databases** if its requests are of one ledger, and there are some or that ledger has
nothing uncommitted. -/
theorem undo_eq (hc : dbs.Consistent env) {lid : LedgerId} {reqs : List (Request ω)}
    (hlid : ∀ req ∈ reqs, env.ledgerIdForRequest req = lid)
    (hne : reqs = [] → (dbs.ledgers.get lid).uncommittedTxns = []) : dbs.undo env lid reqs = dbs := by
  have hledger : ((applyAll env dbs reqs).ledgers.get lid).discardTxns env.merkleRoot reqs.length =
      dbs.ledgers.get lid := by
    obtain ⟨htxns, txns, hun, hlen⟩ := applyAll_ledger env dbs reqs lid
    have hcount : txns.length = reqs.length := by
      rw [hlen, List.countP_eq_length]
      simpa using hlid
    by_cases hreqs : reqs = []
    · refine (Ledger.discardTxns_consistent _ _).eq_of_txns (hc lid) (by rw [Ledger.discardTxns_txns, htxns]) ?_
      rw [Ledger.discardTxns_uncommittedTxns, hreqs, hne hreqs]
      rfl
    · have htxns_ne : txns ≠ [] := by
        intro h0
        rw [h0] at hcount
        exact hreqs (List.length_eq_zero_iff.1 hcount.symm)
      rw [← hcount]
      exact Ledger.discardTxns_appendTxns (hc lid) htxns_ne htxns hun
  have hstate : ((applyAll env dbs reqs).states.get lid).revertToHead (dbs.states.get lid).headHash =
      dbs.states.get lid := by
    have hcommitted := applyAll_committedHeadHash env dbs reqs lid
    rw [State.revertToHead, hcommitted]
  have hother : ∀ l, l ≠ lid → (applyAll env dbs reqs).ledgers.get l = dbs.ledgers.get l ∧
      (applyAll env dbs reqs).states.get l = dbs.states.get l := by
    intro l hl
    exact applyAll_of_other env dbs fun req hreq he => hl (he.symm.trans (hlid req hreq))
  unfold undo revert
  rw [hledger, hstate]
  cases dbs with
  | mk ledgers states =>
    rw [mk.injEq]
    refine ⟨PerLedger.ext_get fun l => ?_, PerLedger.ext_get fun l => ?_⟩
    · rw [PerLedger.get_set]
      split_ifs with h
      · rw [h]
      · exact (hother l h).1
    · rw [PerLedger.get_set]
      split_ifs with h
      · rw [h]
      · exact (hother l h).2

end Dbs

/-! ## The loops of the master -/

namespace Replica

variable {env : Env ω σ τ} {s : Replica ω σ τ}

/-- the requests of a batch added to lists that are already there -/
def ReqLists.extend (env : Env ω σ τ) (acc : ReqLists ω) (dbs : Dbs σ τ) (reqs : List (Request ω)) : ReqLists ω :=
  ⟨acc.validReqs ++ dbs.validReqs env reqs, acc.inValidReqs ++ dbs.inValidReqs env reqs,
    acc.rejects ++ dbs.rejects env reqs⟩

/-- what the requests of a batch come to -/
def ReqLists.ofBatch (env : Env ω σ τ) (dbs : Dbs σ τ) (reqs : List (Request ω)) : ReqLists ω :=
  ⟨dbs.validReqs env reqs, dbs.inValidReqs env reqs, dbs.rejects env reqs⟩

theorem ReqLists.extend_nil (acc : ReqLists ω) (dbs : Dbs σ τ) : acc.extend env dbs [] = acc := by
  simp [ReqLists.extend, Dbs.validReqs, Dbs.inValidReqs, Dbs.rejects]

/-- a request is processed as the first one of the rest of the batch, whatever that is -/
theorem exec_processReqDuringBatch_master (env : Env ω σ τ) (hmaster : s.isMaster = true) (req : Request ω) (acc : ReqLists ω) :
    ∃ acc' dbs, exec (processReqDuringBatch env req acc) s = (.ok acc', s.setDbs dbs) ∧
      ∀ reqs, acc'.extend env dbs reqs = acc.extend env s.node.dbs (req :: reqs) ∧
        dbs.applyAll env (dbs.validReqs env reqs) =
          s.node.dbs.applyAll env (s.node.dbs.validReqs env (req :: reqs)) := by
  unfold processReqDuringBatch
  rw [exec_bind, exec_get]
  dsimp only
  rw [if_pos hmaster]
  cases hv : s.node.dbs.doDynamicValidation env req with
  | some reason =>
    refine ⟨_, s.node.dbs, rfl, fun reqs => ⟨?_, ?_⟩⟩
    · simp [ReqLists.extend, Dbs.validReqs, Dbs.inValidReqs, Dbs.rejects, hv]
    · simp [Dbs.validReqs, hv]
  | none =>
    refine ⟨_, s.node.dbs.applyReq env req, rfl, fun reqs => ⟨?_, ?_⟩⟩
    · simp [ReqLists.extend, Dbs.validReqs, Dbs.inValidReqs, Dbs.rejects, hv]
    · simp [Dbs.validReqs, Dbs.applyAll, hv]

/-- a finalised request is found -/
theorem exec_finalisedReq_of_some {key : ReqKey} {req : Request ω} (h : s.node.requests.finalised? key = some req) :
    exec (finalisedReq key) s = (.ok req, s) := by
  unfold Requests.finalised? at h
  obtain ⟨state, hs, hf⟩ := Option.bind_eq_some_iff.1 h
  unfold finalisedReq
  rw [exec_bind, exec_get]
  simp only [hs, hf]
  rfl

/-- the loop of `validatePrePrepare` over finalised requests -/
theorem exec_processReqs_master (hmaster : s.isMaster = true) {keys : List ReqKey} {reqs : List (Request ω)}
    (hreqs : List.Forall₂ (fun k r => s.node.requests.finalised? k = some r) keys reqs) (acc : ReqLists ω) :
    exec (processReqs env keys acc) s = (.ok (acc.extend env s.node.dbs reqs),
      s.setDbs (s.node.dbs.applyAll env (s.node.dbs.validReqs env reqs))) := by
  induction keys generalizing s reqs acc with
  | nil =>
    cases hreqs
    rw [ReqLists.extend_nil]
    rfl
  | cons key keys ih =>
    obtain ⟨req, reqs', hreq, hrest, rfl⟩ := List.forall₂_cons_left_iff.1 hreqs
    rename' reqs' => reqs
    obtain ⟨acc', dbs, he, hrestDbs⟩ := exec_processReqDuringBatch_master env hmaster req acc
    obtain ⟨hacc, hdbs⟩ := hrestDbs reqs
    unfold processReqs
    rw [exec_bind, exec_finalisedReq_of_some hreq]
    dsimp only
    rw [exec_bind, he]
    dsimp only
    refine (ih (s := s.setDbs dbs) hmaster hrest acc').trans ?_
    change (Except.ok (acc'.extend env dbs reqs), s.setDbs (dbs.applyAll env (dbs.validReqs env reqs))) = _
    rw [hacc, hdbs]

/-- the loop raises only where a request is not finalised, and then no suspicion -/
theorem processReqs_outcome (env : Env ω σ τ) (keys : List ReqKey) (acc : ReqLists ω) (s : Replica ω σ τ) :
    (∃ reqs, List.Forall₂ (fun k r => s.node.requests.finalised? k = some r) keys reqs) ∨
      ∃ e s', exec (processReqs env keys acc) s = (.error e, s') ∧ (e = .keyError ∨ e = .attributeError) := by
  induction keys generalizing acc s with
  | nil => exact Or.inl ⟨[], List.Forall₂.nil⟩
  | cons key keys ih =>
    unfold processReqs
    rw [exec_bind]
    cases hs : s.node.requests.get? key with
    | none =>
      refine Or.inr ⟨.keyError, s, ?_, Or.inl rfl⟩
      unfold finalisedReq
      rw [exec_bind, exec_get]
      simp only [hs]
      rfl
    | some state =>
      cases hf : state.finalised with
      | none =>
        refine Or.inr ⟨.attributeError, s, ?_, Or.inr rfl⟩
        unfold finalisedReq
        rw [exec_bind, exec_get]
        simp only [hs, hf]
        rfl
      | some req =>
        have hreq : s.node.requests.finalised? key = some req := by rw [Requests.finalised?, hs]; exact hf
        obtain ⟨dbs, acc', he, -⟩ := exec_processReqDuringBatch env req acc s
        rw [exec_finalisedReq_of_some hreq]
        dsimp only
        rw [exec_bind, he]
        rcases ih acc' (s.setDbs dbs) with ⟨reqs, hreqs⟩ | h
        · exact Or.inl ⟨req :: reqs, List.Forall₂.cons hreq hreqs⟩
        · exact Or.inr h

/-! ## Validating a PRE-PREPARE -/

theorem stateRootHash_setDbs (hmaster : s.isMaster = true) (dbs : Dbs σ τ) (lid : LedgerId) :
    (s.setDbs dbs).stateRootHash env lid = some (env.stateRoot (dbs.states.get lid).headHash) := if_pos hmaster

theorem txnRootHash_setDbs (hmaster : s.isMaster = true) (dbs : Dbs σ τ) (lid : LedgerId) :
    (s.setDbs dbs).txnRootHash env lid = some ((dbs.ledgers.get lid).uncommittedRoot env.merkleRoot) := if_pos hmaster

/-- the first thing that is wrong with a PRE-PREPARE whose requests came to `acc` and led to `s` -/
def fault (env : Env ω σ τ) (s : Replica ω σ τ) (pp : PrePrepare) (acc : ReqLists ω) : Option Suspicion :=
  if acc.validReqs.length ≠ pp.discarded then some .PPR_REJECT_WRONG
  else if batchDigest env acc.all ≠ pp.digest then some .PPR_DIGEST_WRONG
  else if pp.stateRootHash ≠ s.stateRootHash env pp.ledgerId then some .PPR_STATE_WRONG
  else if pp.txnRootHash ≠ s.txnRootHash env pp.ledgerId then some .PPR_TXN_WRONG
  else none

theorem fault_eq_none {pp : PrePrepare} {acc : ReqLists ω} :
    fault env s pp acc = none ↔ acc.validReqs.length = pp.discarded ∧ batchDigest env acc.all = pp.digest ∧
      pp.stateRootHash = s.stateRootHash env pp.ledgerId ∧ pp.txnRootHash = s.txnRootHash env pp.ledgerId := by
  unfold fault
  split_ifs with h1 h2 h3 h4
  · simp [h1]
  · simp [h2]
  · simp [h3]
  · simp [h4]
  · simp [not_not.1 h1, not_not.1 h2, not_not.1 h3, not_not.1 h4]

/-- a master either finds a fault and undoes the batch, or keeps it -/
theorem exec_validatePrePrepare (hmaster : s.isMaster = true) {pp : PrePrepare} {reqs : List (Request ω)}
    (hreqs : List.Forall₂ (fun k r => s.node.requests.finalised? k = some r) pp.reqIdr reqs) (sender : RepName) :
    exec (validatePrePrepare env pp sender) s =
      match fault env (s.setDbs (s.node.dbs.applyAll env (s.node.dbs.validReqs env reqs))) pp
        (.ofBatch env s.node.dbs reqs) with
      | some suspicion => (.error (.suspiciousNode sender suspicion (.prePrepare pp)),
          s.setDbs (s.node.dbs.undo env pp.ledgerId (s.node.dbs.validReqs env reqs)))
      | none => (.ok (), (s.setDbs (s.node.dbs.applyAll env (s.node.dbs.validReqs env reqs))).appendOutBox
          ((s.node.dbs.rejects env reqs).map OutMsg.reject)) := by
  have hhead : s.stateHead pp.ledgerId = some (s.node.dbs.states.get pp.ledgerId).headHash := if_pos hmaster
  have hacc : (⟨[], [], []⟩ : ReqLists ω).extend env s.node.dbs reqs = .ofBatch env s.node.dbs reqs := by
    simp [ReqLists.extend, ReqLists.ofBatch]
  unfold validatePrePrepare fault
  rw [exec_bind, exec_get]
  dsimp only
  rw [exec_bind, exec_processReqs_master hmaster hreqs, hacc, hhead]
  dsimp only
  by_cases h1 : (ReqLists.ofBatch env s.node.dbs reqs).validReqs.length ≠ pp.discarded
  · rw [if_pos h1, if_pos h1]
    rfl
  rw [if_neg h1, if_neg h1]
  by_cases h2 : batchDigest env (ReqLists.ofBatch env s.node.dbs reqs).all ≠ pp.digest
  · rw [if_pos h2]
    unfold ReqLists.all at h2
    rw [if_pos h2]
    rfl
  rw [if_neg h2]
  unfold ReqLists.all at h2
  rw [if_neg h2, exec_bind, exec_get]
  dsimp only
  have hm : (s.setDbs (s.node.dbs.applyAll env (s.node.dbs.validReqs env reqs))).isMaster = true := hmaster
  rw [if_pos hm]
  split_ifs <;> rfl

/-! ## Rejection -/

/-- the finalised requests of a PRE-PREPARE -/
def batchReqs (s : Replica ω σ τ) (pp : PrePrepare) : List (Request ω) :=
  pp.reqIdr.filterMap s.node.requests.finalised?

theorem filterMap_of_forall₂ {κ α : Type} {f : κ → Option α} {ks : List κ} {as : List α}
    (h : List.Forall₂ (fun k a => f k = some a) ks as) : ks.filterMap f = as := by
  induction h with
  | nil => rfl
  | cons h _ ih => rw [List.filterMap_cons_some h, ih]

/-- what a rejected PRE-PREPARE may not touch: uncommitted transactions and roots, state heads, the outbox -/
structure Untouched (env : Env ω σ τ) (s s' : Replica ω σ τ) : Prop where
  uncommittedTxns : ∀ lid, (s'.node.dbs.ledgers.get lid).uncommittedTxns = (s.node.dbs.ledgers.get lid).uncommittedTxns
  uncommittedRoot : ∀ lid, (s'.node.dbs.ledgers.get lid).uncommittedRoot env.merkleRoot =
    (s.node.dbs.ledgers.get lid).uncommittedRoot env.merkleRoot
  stateHead : ∀ lid, (s'.node.dbs.states.get lid).headHash = (s.node.dbs.states.get lid).headHash
  outBox : s'.outBox = s.outBox

theorem untouched_undo_iff (hc : s.node.dbs.Consistent env) (lid : LedgerId) (reqs : List (Request ω)) :
    Untouched env s (s.setDbs (s.node.dbs.undo env lid reqs)) ↔
      (∀ req ∈ reqs, env.ledgerIdForRequest req = lid) ∧
        (reqs = [] → (s.node.dbs.ledgers.get lid).uncommittedTxns = []) := by
  constructor
  · intro h
    refine ⟨fun req hreq => ?_, fun hnil => ?_⟩
    · by_contra hne
      -- the transaction of a request of another ledger stays
      obtain ⟨-, txns, hun, hlen⟩ :=
        Dbs.applyAll_ledger env s.node.dbs reqs (env.ledgerIdForRequest req)
      have hget : (s.node.dbs.undo env lid reqs).ledgers.get (env.ledgerIdForRequest req) =
          (s.node.dbs.applyAll env reqs).ledgers.get (env.ledgerIdForRequest req) := PerLedger.get_set_ne _ _ hne
      have hsame := h.uncommittedTxns (env.ledgerIdForRequest req)
      change ((s.node.dbs.undo env lid reqs).ledgers.get _).uncommittedTxns = _ at hsame
      rw [hget, hun, List.append_right_eq_self] at hsame
      rw [hsame, List.length_nil] at hlen
      exact List.countP_eq_zero.1 hlen.symm req hreq (by simp)
    · have hsame := h.uncommittedTxns lid
      change ((s.node.dbs.undo env lid reqs).ledgers.get lid).uncommittedTxns = _ at hsame
      rw [← hsame, hnil, Dbs.undo, Dbs.revert, PerLedger.get_set_self, Ledger.discardTxns_uncommittedTxns]
      rfl
  · rintro ⟨hlid, hne⟩
    rw [Dbs.undo_eq hc hlid hne]
    exact ⟨fun _ => rfl, fun _ => rfl, fun _ => rfl, rfl⟩

/-- **When rejecting a PRE-PREPARE is atomic.** A master that raises a suspicion on a PRE-PREPARE has left its
uncommitted transactions, roots, state heads and outbox as they were if and only if every valid request of the batch is
of the PRE-PREPARE's ledger, and some request is valid or nothing was uncommitted in that ledger. -/
theorem validatePrePrepare_atomic_iff (env : Env ω σ τ) {s s' : Replica ω σ τ} (hmaster : s.isMaster = true)
    (hc : s.node.dbs.Consistent env) (pp : PrePrepare) (sender node : RepName) (suspicion : Suspicion)
    (msg : ThreePhaseMsg)
    (hraise : exec (validatePrePrepare env pp sender) s = (.error (.suspiciousNode node suspicion msg), s')) :
    Untouched env s s' ↔
      (∀ req ∈ s.node.dbs.validReqs env (s.batchReqs pp), env.ledgerIdForRequest req = pp.ledgerId) ∧
        ((∃ req ∈ s.batchReqs pp, s.node.dbs.doDynamicValidation env req = none) ∨
          (s.node.dbs.ledgers.get pp.ledgerId).uncommittedTxns = []) := by
  rcases processReqs_outcome env pp.reqIdr ⟨[], [], []⟩ s with ⟨reqs, hreqs⟩ | ⟨e, s1, he, hkind⟩
  · have hbatch : s.batchReqs pp = reqs := filterMap_of_forall₂ hreqs
    have hs' : s' = s.setDbs (s.node.dbs.undo env pp.ledgerId (s.node.dbs.validReqs env reqs)) := by
      rw [exec_validatePrePrepare hmaster hreqs sender] at hraise
      cases hf : fault env (s.setDbs (s.node.dbs.applyAll env (s.node.dbs.validReqs env reqs))) pp
          (.ofBatch env s.node.dbs reqs) with
      | none => rw [hf] at hraise; cases hraise
      | some sus =>
        rw [hf] at hraise
        exact (congrArg Prod.snd hraise).symm
    rw [hs', untouched_undo_iff hc, hbatch]
    refine and_congr_right fun _ => ?_
    rw [Dbs.validReqs_eq_nil, or_iff_not_imp_left, not_exists]
    simp only [not_and, ne_eq]
  · exfalso
    have herr : exec (validatePrePrepare env pp sender) s = (.error e, s1) := by
      unfold validatePrePrepare
      rw [exec_bind, exec_get]
      dsimp only
      rw [exec_bind, he]
    rw [herr] at hraise
    have he' : e = .suspiciousNode node suspicion msg := by
      injection congrArg Prod.fst hraise
    rcases hkind with rfl | rfl <;> cases he'

section Witnesses

open FourNodes

/-- Beta with the valid request 1 applied but not committed, and the requests 2, valid, and 3, invalid, finalised -/
def oneUncommitted : Replica Bool ℕ ReqKey :=
  let invalid : Request Bool := { request 3 "c" with operation := false }
  let requests : Requests Bool := [request 1 "a", request 2 "b", invalid].foldl
    (fun d req => d.set req.key (forwarded req 2 [])) Dict.empty
  let s := master 100 "Beta" requests
  s.setDbs (s.node.dbs.applyReq (FourNodes.env 100) (request 1 "a"))

/-- a PRE-PREPARE that miscounts the valid requests of its one request -/
def miscounted (reqId discarded : ℕ) : PrePrepare :=
  { prePrepare 2 (request reqId "b") with discarded := discarded }

theorem oneUncommitted_consistent : oneUncommitted.node.dbs.Consistent (FourNodes.env 100) := by
  refine Dbs.Consistent.applyReq (fun lid => ?_) _
  cases lid <;> exact Ledger.empty_consistent

/-- **Rejecting a batch without a valid request drops the batch before it.** -/
theorem rejection_drops_earlier_batch :
    oneUncommitted.isMaster = true ∧ oneUncommitted.node.dbs.Consistent (FourNodes.env 100) ∧
      (exec (validatePrePrepare (FourNodes.env 100) (miscounted 3 1) primary) oneUncommitted).1 =
        .error (.suspiciousNode primary .PPR_REJECT_WRONG (.prePrepare (miscounted 3 1))) ∧
      (oneUncommitted.node.dbs.ledgers.get .domain).uncommittedTxns = [("client", 1)] ∧
      ((exec (validatePrePrepare (FourNodes.env 100) (miscounted 3 1) primary)
        oneUncommitted).2.node.dbs.ledgers.get .domain).uncommittedTxns = [] :=
  ⟨rfl, oneUncommitted_consistent, by decide +kernel, by decide +kernel, by decide +kernel⟩

theorem validatePrePrepare_atomic_iff_valid :
    Untouched (FourNodes.env 100) oneUncommitted
      (exec (validatePrePrepare (FourNodes.env 100) (miscounted 2 0) primary) oneUncommitted).2 :=
  (validatePrePrepare_atomic_iff (FourNodes.env 100) rfl oneUncommitted_consistent (miscounted 2 0) primary primary
    .PPR_REJECT_WRONG (.prePrepare (miscounted 2 0)) (Prod.ext (by decide +kernel) rfl)).2
    ⟨fun _ _ => rfl, Or.inl ⟨request 2 "b", by decide +kernel, by decide +kernel⟩⟩

end Witnesses

/-! ## The batch of an honest primary -/

/-- the loop of `create3PCBatch`: it takes the first keys of the queue, all of them finalised -/
theorem exec_fillBatch_master {lid : LedgerId} {n : ℕ} {acc acc' : ReqLists ω} {s' : Replica ω σ τ}
    (hmaster : s.isMaster = true) (h : exec (fillBatch env lid n acc) s = (.ok acc', s')) :
    ∃ reqs, List.Forall₂ (fun k r => s.node.requests.finalised? k = some r) ((s.requestQueues.get lid).take n) reqs ∧
      acc' = acc.extend env s.node.dbs reqs ∧
      s'.node.dbs = s.node.dbs.applyAll env (s.node.dbs.validReqs env reqs) ∧ s'.isMaster = true := by
  induction n generalizing s acc with
  | zero =>
    cases h
    exact ⟨[], by rw [List.take_zero]; exact List.Forall₂.nil, (ReqLists.extend_nil _ _).symm, rfl, hmaster⟩
  | succ n ih =>
    unfold fillBatch at h
    rw [exec_bind, exec_get] at h
    dsimp only at h
    cases hq : s.requestQueues.get lid with
    | nil =>
      rw [hq] at h
      cases h
      exact ⟨[], by rw [List.take_nil]; exact List.Forall₂.nil, (ReqLists.extend_nil _ _).symm, rfl, hmaster⟩
    | cons key rest =>
      rw [hq] at h
      dsimp only at h
      rw [exec_bind, exec_modify] at h
      dsimp only at h
      rw [exec_bind] at h
      obtain ⟨e, he⟩ | ⟨req, he, hreq⟩ := exec_finalisedReq key (s.setRequestQueue lid rest)
      · rw [he] at h
        cases h
      · rw [he] at h
        dsimp only at h
        obtain ⟨acc1, dbs1, he1, hfirst⟩ :=
          exec_processReqDuringBatch_master env (s := s.setRequestQueue lid rest) hmaster req acc
        rw [exec_bind, he1] at h
        dsimp only at h
        obtain ⟨reqs, hreqs, hacc', hdbs, hm⟩ := ih (s := (s.setRequestQueue lid rest).setDbs dbs1) hmaster h
        have hrest : ((s.setRequestQueue lid rest).setDbs dbs1).requestQueues.get lid = rest :=
          PerLedger.get_set_self _ _ _
        rw [hrest] at hreqs
        obtain ⟨hacc1, hdbs1⟩ := hfirst reqs
        exact ⟨req :: reqs, List.Forall₂.cons hreq hreqs, hacc'.trans hacc1, hdbs.trans hdbs1, hm⟩

/-- what a PRE-PREPARE of `create3PCBatch` says, and the databases that it leaves -/
theorem exec_create3PCBatch {lid : LedgerId} {pp : PrePrepare} {s' : Replica ω σ τ} (hmaster : s.isMaster = true)
    (h : exec (create3PCBatch env lid) s = (.ok pp, s')) :
    ∃ reqs, List.Forall₂ (fun k r => s.node.requests.finalised? k = some r)
        ((s.requestQueues.get lid).take env.max3PCBatchSize) reqs ∧
      pp.reqIdr = (ReqLists.ofBatch env s.node.dbs reqs).all.map Request.key ∧
      s'.node.dbs = s.node.dbs.applyAll env (s.node.dbs.validReqs env reqs) ∧
      fault env (s.setDbs s'.node.dbs) pp (.ofBatch env s.node.dbs reqs) = none := by
  unfold create3PCBatch at h
  rw [exec_bind, exec_get] at h
  dsimp only at h
  rw [exec_bind] at h
  rcases hf : exec (fillBatch env lid env.max3PCBatchSize ⟨[], [], []⟩) s with ⟨e | acc, s1⟩
  · rw [hf] at h
    cases h
  · rw [hf] at h
    obtain ⟨reqs, hreqs, hacc, hdbs, hm⟩ := exec_fillBatch_master hmaster hf
    have hacc' : acc = .ofBatch env s.node.dbs reqs := by
      rw [hacc]
      simp [ReqLists.extend, ReqLists.ofBatch]
    simp only [exec_bind, exec_get, exec_modify, exec_pure, Prod.mk.injEq, Except.ok.injEq] at h
    obtain ⟨rfl, rfl⟩ := h
    refine ⟨reqs, hreqs, by rw [← hacc']; rfl, hdbs, ?_⟩
    rw [← hacc', fault_eq_none]
    refine ⟨rfl, rfl, ?_, ?_⟩
    · exact (stateRootHash_setDbs hm _ _).trans (stateRootHash_setDbs hmaster _ _).symm
    · exact (txnRootHash_setDbs hm _ _).trans (txnRootHash_setDbs hmaster _ _).symm

/-- **When the batch of an honest primary is accepted.** A master in the state of the primary, with the same requests
finalised, accepts the PRE-PREPARE of `create3PCBatch` and ends in the databases of the primary if and only if no
request of the batch that the primary refused is valid once the accepted ones are applied. -/
theorem validatePrePrepare_create3PCBatch_iff (env : Env ω σ τ) {primary primary' backup : Replica ω σ τ}
    (lid : LedgerId) (pp : PrePrepare) (sender : RepName) (hprimary : primary.isMaster = true)
    (hbackup : backup.isMaster = true) (hkeyed : primary.node.requests.Keyed)
    (hdbs : backup.node.dbs = primary.node.dbs)
    (hrequests : ∀ k, backup.node.requests.finalised? k = primary.node.requests.finalised? k)
    (hcreate : exec (create3PCBatch env lid) primary = (.ok pp, primary')) :
    ((∀ node suspicion msg, (exec (validatePrePrepare env pp sender) backup).1 ≠
        .error (.suspiciousNode node suspicion msg)) ∧
      (exec (validatePrePrepare env pp sender) backup).2.node.dbs = primary'.node.dbs) ↔
    ∀ req ∈ primary.node.dbs.inValidReqs env
        (((primary.requestQueues.get lid).take env.max3PCBatchSize).filterMap primary.node.requests.finalised?),
      (primary.node.dbs.applyAll env (primary.node.dbs.validReqs env
        (((primary.requestQueues.get lid).take env.max3PCBatchSize).filterMap
          primary.node.requests.finalised?))).doDynamicValidation env req ≠ none := by
  obtain ⟨reqs, hreqs, hidr, hdbs', hfault⟩ := exec_create3PCBatch hprimary hcreate
  rw [filterMap_of_forall₂ hreqs]
  have hpublished : List.Forall₂ (fun k r => backup.node.requests.finalised? k = some r) pp.reqIdr
      (ReqLists.ofBatch env primary.node.dbs reqs).all := by
    rw [hidr, List.forall₂_map_left_iff, List.forall₂_same]
    intro req hreq
    obtain ⟨k, -, hk⟩ : ∃ k ∈ (primary.requestQueues.get lid).take env.max3PCBatchSize,
        primary.node.requests.finalised? k = some req := by
      have hmem : req ∈ reqs := (Dbs.perm_validReqs_inValidReqs reqs).subset hreq
      rw [← filterMap_of_forall₂ hreqs] at hmem
      exact List.mem_filterMap.1 hmem
    rw [hrequests, hkeyed.finalised?_key hk]
    exact hk
  -- the published order: the accepted requests are accepted again, the refused ones are tried after all of them
  have hvalid := Dbs.validReqs_append env primary.node.dbs
    (primary.node.dbs.validReqs env reqs) (primary.node.dbs.inValidReqs env reqs)
  have hinvalid := Dbs.inValidReqs_append env primary.node.dbs
    (primary.node.dbs.validReqs env reqs) (primary.node.dbs.inValidReqs env reqs)
  rw [Dbs.validReqs_validReqs] at hvalid hinvalid
  rw [Dbs.inValidReqs_validReqs, List.nil_append] at hinvalid
  rw [exec_validatePrePrepare hbackup hpublished sender, hdbs]
  change _ ↔ ∀ req ∈ primary.node.dbs.inValidReqs env reqs, _
  constructor
  · rintro ⟨hquiet, -⟩
    by_contra hsome
    rw [← Dbs.validReqs_eq_nil] at hsome
    have hcount : pp.discarded = (primary.node.dbs.validReqs env reqs).length := (fault_eq_none.1 hfault).1.symm
    have hwrong : fault env (backup.setDbs (primary.node.dbs.applyAll env (primary.node.dbs.validReqs env
        (ReqLists.ofBatch env primary.node.dbs reqs).all))) pp
        (.ofBatch env primary.node.dbs (ReqLists.ofBatch env primary.node.dbs reqs).all) =
          some .PPR_REJECT_WRONG := by
      refine if_pos ?_
      change (primary.node.dbs.validReqs env (primary.node.dbs.validReqs env reqs ++
        primary.node.dbs.inValidReqs env reqs)).length ≠ pp.discarded
      rw [hvalid, hcount, List.length_append]
      intro h
      exact hsome (List.length_eq_zero_iff.1 (by omega))
    rw [hwrong] at hquiet
    exact hquiet sender .PPR_REJECT_WRONG (.prePrepare pp) rfl
  · intro hnone
    rw [Dbs.validReqs_eq_nil.2 hnone, List.append_nil] at hvalid
    rw [Dbs.inValidReqs_of_none hnone] at hinvalid
    have hall : (ReqLists.ofBatch env primary.node.dbs (ReqLists.ofBatch env primary.node.dbs reqs).all).all =
        (ReqLists.ofBatch env primary.node.dbs reqs).all := congrArg₂ (· ++ ·) hvalid hinvalid
    have hright : fault env (backup.setDbs (primary.node.dbs.applyAll env (primary.node.dbs.validReqs env
        (ReqLists.ofBatch env primary.node.dbs reqs).all))) pp
        (.ofBatch env primary.node.dbs (ReqLists.ofBatch env primary.node.dbs reqs).all) = none := by
      obtain ⟨h1, h2, h3, h4⟩ := fault_eq_none.1 hfault
      rw [hdbs'] at h3 h4
      rw [stateRootHash_setDbs hprimary] at h3
      rw [txnRootHash_setDbs hprimary] at h4
      refine fault_eq_none.2 ⟨(congrArg List.length hvalid).trans h1, by rw [hall]; exact h2, ?_, ?_⟩
      · rw [stateRootHash_setDbs hbackup, h3, ← hvalid]
        rfl
      · rw [txnRootHash_setDbs hbackup, h4, ← hvalid]
        rfl
    rw [hright]
    refine ⟨fun _ _ _ h => (by cases h), ?_⟩
    change primary.node.dbs.applyAll env (primary.node.dbs.validReqs env (primary.node.dbs.validReqs env reqs ++
      primary.node.dbs.inValidReqs env reqs)) = _
    rw [hvalid, hdbs']

section Witnesses

open FourNodes

/-- a pool with the steward alice and the client bob -/
def stewards : Dict String NymData :=
  (Dict.empty.set "alice" ⟨"", some STEWARD, none, some 1⟩).set "bob" ⟨"alice", none, none, some 2⟩

def stewardsEnv : Env DomainOperation (Dict String NymData) DomainTxn :=
  domainEnv 20
    { CHK_FREQ := 100, LOG_SIZE := 300, max3PCBatchSize := 2, max3PCBatchWait := 0, second := 1,
      batchHash := fun digests => digests.headD "", checkpointHash := fun digests => digests.headD "",
      merkleRoot := fun txns => toString txns.length, stateRoot := fun state => toString state.size,
      ledgerIdForRequest := fun _ => .domain, validate := fun _ _ => none,
      apply := fun _ req => (DomainRequestHandler.reqToTxn req, Dict.empty) }

/-- bob adds carol -/
def bobAddsCarol : Request DomainOperation := ⟨"bob", 1, ⟨NYM, "carol", none, none⟩, "a", ""⟩

/-- alice makes bob a steward -/
def alicePromotesBob : Request DomainOperation := ⟨"alice", 1, ⟨NYM, "bob", some (some STEWARD), none⟩, "b", ""⟩

/-- the master replica of a node with some requests finalised and queued in this order -/
def withQueue (name : NodeName) (reqs : List (Request DomainOperation)) :
    Replica DomainOperation (Dict String NymData) DomainTxn :=
  let requests : Requests DomainOperation := reqs.foldl
    (fun d req => d.set req.key ⟨req, true, 2, Dict.empty, some req⟩) Dict.empty
  let node : Node DomainOperation (Dict String NymData) DomainTxn :=
    ⟨name, 0, 1, true, requests, ⟨⟨Ledger.empty, Ledger.empty⟩, ⟨⟨Dict.empty, Dict.empty⟩, ⟨stewards, stewards⟩⟩⟩, []⟩
  { Replica.init stewardsEnv node 0 true (some primary) with requestQueues := ⟨[], reqs.map Request.key⟩ }

/-- the PRE-PREPARE that Alpha makes of the queue -/
def madeBatch (reqs : List (Request DomainOperation)) : Except Exn PrePrepare :=
  (exec (create3PCBatch stewardsEnv .domain) (withQueue "Alpha" reqs)).1

/-- **An honest batch can be refused**: bob's request is refused before alice's makes him a steward, but it is published
after it. -/
theorem honest_batch_refused :
    ∃ pp, madeBatch [bobAddsCarol, alicePromotesBob] = .ok pp ∧ pp.reqIdr = [("alice", 1), ("bob", 1)] ∧
      pp.discarded = 1 ∧
      (withQueue "Beta" [bobAddsCarol, alicePromotesBob]).node.dbs =
        (withQueue "Alpha" [bobAddsCarol, alicePromotesBob]).node.dbs ∧
      (withQueue "Beta" [bobAddsCarol, alicePromotesBob]).node.requests =
        (withQueue "Alpha" [bobAddsCarol, alicePromotesBob]).node.requests ∧
      (exec (validatePrePrepare stewardsEnv pp primary) (withQueue "Beta" [bobAddsCarol, alicePromotesBob])).1 =
        .error (.suspiciousNode primary .PPR_REJECT_WRONG (.prePrepare pp)) :=
  ⟨⟨0, 0, 1, 0, [("alice", 1), ("bob", 1)], 1, "b", .domain, some "2", some "1"⟩, by decide +kernel, rfl, rfl, rfl, rfl,
    by decide +kernel⟩

theorem withQueue_keyed (name : NodeName) (reqs : List (Request DomainOperation)) :
    (withQueue name reqs).node.requests.Keyed := by
  suffices h : ∀ d : Requests DomainOperation, d.Keyed → Requests.Keyed (reqs.foldl
      (fun d req => d.set req.key ⟨req, true, 2, Dict.empty, some req⟩) d) from
    h Dict.empty fun e he => by cases he
  induction reqs with
  | nil => exact fun d hd => hd
  | cons req reqs ih =>
    refine fun d hd => ih _ (hd.set ⟨fun e he => ?_, fun r hr => ?_⟩)
    · cases he
    · cases hr; rfl

/-- in the other order both requests are valid, and the batch is accepted -/
theorem validatePrePrepare_create3PCBatch_iff_accepted :
    ∃ pp primary', exec (create3PCBatch stewardsEnv .domain) (withQueue "Alpha" [alicePromotesBob, bobAddsCarol]) =
        (.ok pp, primary') ∧ pp.discarded = 2 ∧
      (exec (validatePrePrepare stewardsEnv pp primary)
        (withQueue "Beta" [alicePromotesBob, bobAddsCarol])).2.node.dbs = primary'.node.dbs :=
  ⟨⟨0, 0, 1, 0, [("alice", 1), ("bob", 1)], 2, "b", .domain, some "3", some "2"⟩, _,
    Prod.ext (by decide +kernel) rfl, rfl,
    ((validatePrePrepare_create3PCBatch_iff stewardsEnv .domain _ primary rfl rfl
      (withQueue_keyed "Alpha" [alicePromotesBob, bobAddsCarol]) rfl (fun _ => rfl)
      (Prod.ext (by decide +kernel) rfl)).2 (by decide +kernel)).2⟩

end Witnesses

end Replica

end Plenum
