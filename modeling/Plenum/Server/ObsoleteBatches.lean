/-
What the ledgers hold after a former primary has dropped its unsupported batches.

- `HoldsBatches`: the ledgers and states of the master hold the batches that it sent and that are not ordered yet, one
  after the other, and `batches` says how to undo each.
- `removePpReqs_runs`: the loop of `removeObsoletePpReqs` raises nothing there and undoes the batches one by one.
- `undoAll_txns`, `undoAll_head`: a ledger loses as many transactions as its dropped batches have, from its end, or all if
  one of them has none; its state goes back to what the oldest of them found.
- `holdsKept_iff`: what is left is what the kept batches applied exactly if, for each ledger, the transactions of the kept
  batches come first, no dropped batch is empty unless nothing is kept, and the oldest dropped batch found the state root
  of the last kept one. `undoable_of_newest`: so it is where the dropped batches are the newest, each with a transaction.
- `empty_batch_drops_all`: an empty batch takes the transactions of a prepared one with it.
-/
import Mathlib.Tactic
import Plenum.Server.Batch
import Plenum.Server.PrimaryChange

namespace Plenum

open Plenum.Core Plenum.Core.Exec

variable {ω σ τ : Type}

/-! ## Batches that are not ordered yet -/

/-- a batch that the primary sent: its PRE-PREPARE, the transactions of its valid requests, and the head that it found -/
structure SentBatch (σ τ : Type) where
  pp : PrePrepare
  txns : List τ
  prevStateRoot : σ
deriving DecidableEq

namespace SentBatch

variable (lid : LedgerId) (bs : List (SentBatch σ τ))

def ofLedger : List (SentBatch σ τ) := bs.filter fun b => b.pp.ledgerId = lid

/-- the valid transactions of the batches of a ledger, one batch after the other -/
def txnsOf : List τ := (ofLedger lid bs).flatMap SentBatch.txns

/-- the state root recorded in the last batch of a ledger, `committed` if there is none -/
def lastRoot (committed : Option String) : Option String :=
  ((ofLedger lid bs).getLast?.map fun b => b.pp.stateRootHash).getD committed

def undo (env : Env ω σ τ) (b : SentBatch σ τ) (dbs : Dbs σ τ) : Dbs σ τ :=
  dbs.revert env b.pp.ledgerId b.prevStateRoot b.pp.discarded

variable {lid bs}

theorem ofLedger_cons (b : SentBatch σ τ) :
    ofLedger lid (b :: bs) = if b.pp.ledgerId = lid then b :: ofLedger lid bs else ofLedger lid bs := by
  unfold ofLedger
  rw [List.filter_cons]
  simp only [decide_eq_true_eq]

theorem ofLedger_filter (p : SentBatch σ τ → Bool) : ofLedger lid (bs.filter p) = (ofLedger lid bs).filter p :=
  List.filter_comm _ _ _

theorem txnsOf_concat (b : SentBatch σ τ) :
    txnsOf lid (bs ++ [b]) = txnsOf lid bs ++ if b.pp.ledgerId = lid then b.txns else [] := by
  unfold txnsOf ofLedger
  rw [List.filter_append, List.flatMap_append, List.filter_singleton]
  by_cases h : b.pp.ledgerId = lid <;> simp [h]

theorem lastRoot_concat (b : SentBatch σ τ) (committed : Option String) :
    lastRoot lid (bs ++ [b]) committed = if b.pp.ledgerId = lid then b.pp.stateRootHash else lastRoot lid bs committed := by
  unfold lastRoot ofLedger
  rw [List.filter_append, List.filter_singleton]
  by_cases h : b.pp.ledgerId = lid <;> simp [h]

/-! ## Undoing several batches, the newest first -/

theorem undoAll_txns (env : Env ω σ τ) (bs : List (SentBatch σ τ)) (dbs : Dbs σ τ) (lid : LedgerId) :
    ((bs.foldr (undo env) dbs).ledgers.get lid).uncommittedTxns =
      ((ofLedger lid bs).map fun b => b.pp.discarded).foldr (fun n l => dropLastSlice l n)
        (dbs.ledgers.get lid).uncommittedTxns := by
  induction bs with
  | nil => rfl
  | cons b bs ih =>
    rw [List.foldr_cons, undo, Dbs.revert, ofLedger_cons]
    dsimp only
    by_cases h : b.pp.ledgerId = lid
    · rw [if_pos h, List.map_cons, List.foldr_cons, ← ih, h, PerLedger.get_set_self, Ledger.discardTxns_uncommittedTxns]
    · rw [if_neg h, PerLedger.get_set_ne _ _ (Ne.symm h), ih]

@[simp] theorem undoAll_committedHeadHash (env : Env ω σ τ) (bs : List (SentBatch σ τ)) (dbs : Dbs σ τ) (lid : LedgerId) :
    ((bs.foldr (undo env) dbs).states.get lid).committedHeadHash = (dbs.states.get lid).committedHeadHash := by
  induction bs with
  | nil => rfl
  | cons b bs ih =>
    rw [List.foldr_cons, undo, Dbs.revert]
    dsimp only
    by_cases h : b.pp.ledgerId = lid
    · rw [h, PerLedger.get_set_self, State.revertToHead, ih]
    · rw [PerLedger.get_set_ne _ _ (Ne.symm h), ih]

theorem undoAll_head (env : Env ω σ τ) (bs : List (SentBatch σ τ)) (dbs : Dbs σ τ) (lid : LedgerId) :
    ((bs.foldr (undo env) dbs).states.get lid).headHash =
      ((ofLedger lid bs).head?.map SentBatch.prevStateRoot).getD (dbs.states.get lid).headHash := by
  induction bs with
  | nil => rfl
  | cons b bs ih =>
    rw [List.foldr_cons, undo, Dbs.revert, ofLedger_cons]
    dsimp only
    by_cases h : b.pp.ledgerId = lid
    · rw [if_pos h, h, PerLedger.get_set_self]
      rfl
    · rw [if_neg h, PerLedger.get_set_ne _ _ (Ne.symm h), ih]

end SentBatch

/-- positive counts take their sum off the end -/
theorem foldr_dropLastSlice {α : Type} (l : List α) {ns : List ℕ} (hpos : 0 ∉ ns) :
    ns.foldr (fun n l => dropLastSlice l n) l = l.take (l.length - ns.sum) := by
  induction ns with
  | nil => rw [List.foldr_nil, List.sum_nil, Nat.sub_zero, List.take_length]
  | cons n ns ih =>
    rw [List.mem_cons, not_or] at hpos
    rw [List.foldr_cons, ih hpos.2, dropLastSlice, if_neg (Ne.symm hpos.1), List.length_take, List.take_take,
      List.sum_cons]
    congr 1
    omega

/-- one count of zero drops all -/
theorem foldr_dropLastSlice_zero {α : Type} (l : List α) {ns : List ℕ} (hzero : 0 ∈ ns) :
    ns.foldr (fun n l => dropLastSlice l n) l = [] := by
  induction ns with
  | nil => cases hzero
  | cons n ns ih =>
    rw [List.foldr_cons, dropLastSlice]
    split_ifs with hn
    · rfl
    · rw [ih ((List.mem_cons.1 hzero).resolve_left (Ne.symm hn)), List.take_nil]

/-- the elements of two complementary selections -/
theorem length_flatMap_filter {α β : Type} (f : α → List β) (p : α → Bool) (l : List α) :
    (l.flatMap f).length = ((l.filter p).flatMap f).length + ((l.filter fun a => ! p a).map fun a => (f a).length).sum := by
  induction l with
  | nil => rfl
  | cons a l ih =>
    rw [List.flatMap_cons, List.length_append, ih]
    cases hp : p a with
    | true =>
      rw [List.filter_cons_of_pos hp, List.filter_cons_of_neg (by simp [hp]), List.flatMap_cons, List.length_append]
      omega
    | false =>
      rw [List.filter_cons_of_neg (by simp [hp]), List.filter_cons_of_pos (by simp [hp]), List.map_cons, List.sum_cons]
      omega

namespace Replica

open SentBatch

/-! ## The replica that was the primary -/

/-- the master replica that was the primary of the last view -/
structure FormerPrimary (s : Replica ω σ τ) (lastViewNo : ℕ) : Prop where
  isMaster : s.isMaster = true
  lastView : s.primaryNames.keys.dropLast.getLast? = some lastViewNo
  primary : s.primaryNames.get? lastViewNo = some (some s.name)

def committedRoot (env : Env ω σ τ) (s : Replica ω σ τ) (lid : LedgerId) : Option String :=
  some (env.stateRoot (s.node.dbs.states.get lid).committedHeadHash)

/-- the ledgers and states hold the sent batches `bs` that are not ordered, in the order of their `ppSeqNo` -/
structure HoldsBatches (env : Env ω σ τ) (s : Replica ω σ τ) (bs : List (SentBatch σ τ)) : Prop where
  sent : (s.sentPrePrepares.entries.filter fun e => e.1 ∉ s.ordered) = bs.map fun b => (b.pp.key, b.pp)
  ascending : bs.Pairwise fun b c => b.pp.ppSeqNo < c.pp.ppSeqNo
  /-- `trackBatches` -/
  tracked : ∀ b ∈ bs, s.batches.get? b.pp.ppSeqNo = some (b.pp.discarded, b.pp.ppTime, some b.prevStateRoot)
  discarded : ∀ b ∈ bs, b.pp.discarded = b.txns.length
  uncommitted : ∀ lid, (s.node.dbs.ledgers.get lid).uncommittedTxns = txnsOf lid bs
  head : ∀ lid, some (env.stateRoot (s.node.dbs.states.get lid).headHash) = lastRoot lid bs (s.committedRoot env lid)
  /-- each batch found the state that the batches of its ledger before it had left -/
  found : ∀ i b, bs[i]? = some b →
    some (env.stateRoot b.prevStateRoot) = lastRoot b.pp.ledgerId (bs.take i) (s.committedRoot env b.pp.ledgerId)
  /-- an ordered batch had its PREPAREs -/
  prepared : ∀ e ∈ s.sentPrePrepares.entries, e.1 ∈ s.ordered → s.prepares.hasEnoughVotes e.1 s.node.f = true

/-- the batches that `removeObsoletePpReqs` keeps: those of earlier views, and those with `f` PREPAREs -/
def keepsBatch (s : Replica ω σ τ) (lastViewNo : ℕ) (b : SentBatch σ τ) : Bool :=
  ! decide (b.pp.viewNo = lastViewNo) || s.prepares.hasEnoughVotes b.pp.key s.node.f

def keptBatches (s : Replica ω σ τ) (lastViewNo : ℕ) (bs : List (SentBatch σ τ)) : List (SentBatch σ τ) :=
  bs.filter (s.keepsBatch lastViewNo)

def droppedBatches (s : Replica ω σ τ) (lastViewNo : ℕ) (bs : List (SentBatch σ τ)) : List (SentBatch σ τ) :=
  bs.filter fun b => ! s.keepsBatch lastViewNo b

/-- a ledger holds the transactions of the batches `bs`, and its state is at the root of the last of them -/
structure HoldsLedger (env : Env ω σ τ) (s : Replica ω σ τ) (bs : List (SentBatch σ τ)) (lid : LedgerId) : Prop where
  uncommitted : (s.node.dbs.ledgers.get lid).uncommittedTxns = txnsOf lid bs
  head : some (env.stateRoot (s.node.dbs.states.get lid).headHash) = lastRoot lid bs (s.committedRoot env lid)

/-- the dropped batches of a ledger can be counted off its end -/
structure Undoable (env : Env ω σ τ) (s : Replica ω σ τ) (lastViewNo : ℕ) (bs : List (SentBatch σ τ)) (lid : LedgerId) :
    Prop where
  /-- the transactions of the kept batches come first -/
  keptFirst : txnsOf lid (s.keptBatches lastViewNo bs) <+: txnsOf lid bs
  /-- no dropped batch is without valid requests, unless the kept ones are -/
  nonempty : ∀ b ∈ ofLedger lid (s.droppedBatches lastViewNo bs), b.pp.discarded = 0 →
    txnsOf lid (s.keptBatches lastViewNo bs) = []
  /-- the oldest dropped batch found the state root of the last kept one -/
  root : ∀ b, (ofLedger lid (s.droppedBatches lastViewNo bs)).head? = some b →
    some (env.stateRoot b.prevStateRoot) = lastRoot lid (s.keptBatches lastViewNo bs) (s.committedRoot env lid)

/-! ## Sending a batch -/

variable {env : Env ω σ τ} {s : Replica ω σ τ} {lastViewNo : ℕ} {bs : List (SentBatch σ τ)}

theorem HoldsBatches.get?_sent (h : HoldsBatches env s bs) {b : SentBatch σ τ} (hb : b ∈ bs) :
    s.sentPrePrepares.get? b.pp.key = some b.pp := by
  have hmem : (b.pp.key, b.pp) ∈ s.sentPrePrepares.entries.filter fun e => e.1 ∉ s.ordered := by
    rw [h.sent]
    exact List.mem_map_of_mem hb
  exact PrePrepareLog.get?_eq_some.2 (List.mem_filter.1 hmem).1

/-- the state after the batch of the valid requests `valid` of a ledger was sent -/
structure SentOne (env : Env ω σ τ) (s : Replica ω σ τ) (lid : LedgerId) (valid : List (Request ω)) (pp : PrePrepare)
    (s' : Replica ω σ τ) : Prop where
  ledgerId : pp.ledgerId = lid
  ppSeqNo : pp.ppSeqNo = s.lastPrePrepareSeqNo + 1
  viewNo : pp.viewNo = s.node.viewNo
  discarded : pp.discarded = valid.length
  ofLedger : ∀ req ∈ valid, env.ledgerIdForRequest req = lid
  dbs : s'.node.dbs = s.node.dbs.applyAll env valid
  stateRootHash : pp.stateRootHash = some (env.stateRoot (s'.node.dbs.states.get lid).headHash)
  sent : s'.sentPrePrepares = s.sentPrePrepares.add pp
  tracked : s'.batches = s.batches.set pp.ppSeqNo (pp.discarded, pp.ppTime, some (s.node.dbs.states.get lid).headHash)
  ordered : s'.ordered = s.ordered
  prepares : s'.prepares = s.prepares
  f : s'.node.f = s.node.f

theorem exec_send3PCBatchFor_one {lid : LedgerId} (hmaster : s.isMaster = true)
    (hlid : ∀ k ∈ s.requestQueues.get lid, ∀ req, s.node.requests.finalised? k = some req →
      env.ledgerIdForRequest req = lid) {s' : Replica ω σ τ} (he : exec (send3PCBatchFor env lid) s = (.ok 1, s')) :
    ∃ valid pp, SentOne env s lid valid pp s' := by
  unfold send3PCBatchFor at he
  rw [exec_bind, exec_get] at he
  dsimp only at he
  split_ifs at he with hdue
  · obtain ⟨r, popped, rest, dbs, hq, hf, -⟩ := exec_fillBatch env lid env.max3PCBatchSize ⟨[], [], []⟩ s
    unfold create3PCBatch sendPrePrepare send at he
    cases r with
    | error e =>
      simp only [exec_bind, exec_get, hf] at he
      cases he
    | ok acc =>
      obtain ⟨reqs, hreqs, hacc, hdbs, hm⟩ := exec_fillBatch_master hmaster hf
      have hacc' : acc = .ofBatch env s.node.dbs reqs := by
        rw [hacc]
        simp [ReqLists.extend, ReqLists.ofBatch]
      simp only [exec_bind, exec_get, exec_modify, exec_pure, hf] at he
      obtain rfl := congrArg Prod.snd he
      have hofLedger : ∀ req ∈ s.node.dbs.validReqs env reqs, env.ledgerIdForRequest req = lid := by
        intro req hreq
        have hmem : req ∈ reqs := (Dbs.perm_validReqs_inValidReqs reqs).subset (List.mem_append_left _ hreq)
        rw [← filterMap_of_forall₂ hreqs] at hmem
        obtain ⟨k, hk, hfin⟩ := List.mem_filterMap.1 hmem
        exact hlid k (List.mem_of_mem_take hk) req hfin
      refine ⟨s.node.dbs.validReqs env reqs, _, rfl, rfl, rfl, ?_, hofLedger, hdbs, ?_, rfl, ?_, rfl, rfl, rfl⟩
      · rw [hacc']
        rfl
      · exact if_pos hm
      · change s.batches.set _ _ = _
        rw [stateHead, if_pos hmaster]
  · rw [exec_pure] at he
    cases he

/-- **A sent batch is one batch more that the ledgers hold.** -/
theorem HoldsBatches.send (h : HoldsBatches env s bs) (hmaster : s.isMaster = true) {lid : LedgerId}
    (hlast : ∀ e ∈ s.sentPrePrepares.entries, e.1.2 ≤ s.lastPrePrepareSeqNo)
    (hnew : (s.node.viewNo, s.lastPrePrepareSeqNo + 1) ∉ s.ordered)
    (hlid : ∀ k ∈ s.requestQueues.get lid, ∀ req, s.node.requests.finalised? k = some req →
      env.ledgerIdForRequest req = lid) {s' : Replica ω σ τ} (he : exec (send3PCBatchFor env lid) s = (.ok 1, s')) :
    ∃ b : SentBatch σ τ, b.pp.ledgerId = lid ∧ HoldsBatches env s' (bs ++ [b]) := by
  obtain ⟨valid, pp, hs⟩ := exec_send3PCBatchFor_one hmaster hlid he
  obtain ⟨-, txns, htxns, hlength⟩ := Dbs.applyAll_ledger env s.node.dbs valid lid
  rw [List.countP_eq_length.2 fun req hreq => decide_eq_true (hs.ofLedger req hreq)] at hlength
  have hkey : pp.key = (s.node.viewNo, s.lastPrePrepareSeqNo + 1) := Prod.ext hs.viewNo hs.ppSeqNo
  have hentries : s'.sentPrePrepares.entries = s.sentPrePrepares.entries ++ [(pp.key, pp)] := by
    rw [hs.sent]
    refine SortedDict.entries_set_last fun e he => ?_
    rw [hkey]
    exact Nat.lt_succ_of_le (hlast e he)
  have hbefore : ∀ b ∈ bs, b.pp.ppSeqNo < pp.ppSeqNo := fun b hb => by
    rw [hs.ppSeqNo]
    exact Nat.lt_succ_of_le (hlast _ (PrePrepareLog.get?_eq_some.1 (h.get?_sent hb)))
  have hother : ∀ lid', lid' ≠ lid → s'.node.dbs.ledgers.get lid' = s.node.dbs.ledgers.get lid' ∧
      s'.node.dbs.states.get lid' = s.node.dbs.states.get lid' := fun lid' hne => by
    rw [hs.dbs]
    exact Dbs.applyAll_of_other env s.node.dbs fun req hreq heq => hne (heq.symm.trans (hs.ofLedger req hreq))
  have hcommitted : ∀ lid', s'.committedRoot env lid' = s.committedRoot env lid' := fun lid' => by
    rw [committedRoot, committedRoot, hs.dbs, Dbs.applyAll_committedHeadHash]
  refine ⟨⟨pp, txns, (s.node.dbs.states.get lid).headHash⟩, hs.ledgerId,
    { sent := ?_, ascending := ?_, tracked := ?_, discarded := ?_, uncommitted := fun lid' => ?_, head := fun lid' => ?_,
      found := fun i b hb => ?_, prepared := ?_ }⟩
  case refine_1 =>
    rw [hentries, hs.ordered, List.filter_append, h.sent, List.map_append, List.filter_cons_of_pos]
    · rfl
    · exact decide_eq_true (hkey ▸ hnew)
  case refine_2 =>
    refine List.pairwise_append.2 ⟨h.ascending, List.pairwise_singleton _ _, fun b hb c hc => ?_⟩
    rw [List.mem_singleton.1 hc]
    exact hbefore b hb
  case refine_3 =>
    intro b hb
    rw [hs.tracked]
    rcases List.mem_append.1 hb with hb | hb
    · rw [Dict.get?_set_ne _ _ (hbefore b hb).ne, h.tracked b hb]
    · rw [List.mem_singleton.1 hb, Dict.get?_set_self]
  case refine_4 =>
    intro b hb
    rcases List.mem_append.1 hb with hb | hb
    · exact h.discarded b hb
    · rw [List.mem_singleton.1 hb]
      exact hs.discarded.trans hlength.symm
  case refine_5 =>
    rw [txnsOf_concat]
    dsimp only
    rw [hs.ledgerId]
    split_ifs with hl
    · rw [← hl, hs.dbs, htxns, h.uncommitted]
    · rw [(hother lid' (Ne.symm hl)).1, h.uncommitted, List.append_nil]
  case refine_6 =>
    rw [lastRoot_concat, hcommitted]
    dsimp only
    rw [hs.ledgerId]
    split_ifs with hl
    · rw [← hl, hs.stateRootHash]
    · rw [(hother lid' (Ne.symm hl)).2, h.head]
  case refine_7 =>
    rw [hcommitted]
    rcases lt_or_ge i bs.length with hi | hi
    · rw [List.getElem?_append_left hi] at hb
      rw [List.take_append_of_le_length hi.le]
      exact h.found i b hb
    · rw [List.getElem?_append_right hi] at hb
      obtain ⟨hi0, rfl⟩ : i - bs.length = 0 ∧ _ = b := by
        rcases hj : i - bs.length with _ | j
        · rw [hj] at hb
          exact ⟨rfl, Option.some.inj hb⟩
        · rw [hj] at hb
          cases hb
      rw [List.take_append_of_le_length (by omega), List.take_of_length_le hi]
      dsimp only
      rw [hs.ledgerId]
      exact h.head lid
  case refine_8 =>
    rw [hs.ordered, hs.prepares, hs.f]
    intro e he ho
    rw [hentries] at he
    rcases List.mem_append.1 he with he | he
    · exact h.prepared e he ho
    · rw [List.mem_singleton.1 he, hkey] at ho
      exact absurd ho hnew

/-! ## The loop -/

/-- the loop undoes the batches in the order in which it is given their keys -/
theorem removePpReqs_runs (hdistinct : bs.Pairwise fun b c => b.pp.ppSeqNo ≠ c.pp.ppSeqNo)
    (hsent : ∀ b ∈ bs, s.sentPrePrepares.get? b.pp.key = some b.pp)
    (htracked : ∀ b ∈ bs, s.batches.get? b.pp.ppSeqNo = some (b.pp.discarded, b.pp.ppTime, some b.prevStateRoot)) :
    ∃ s', exec (removePpReqs env (bs.map fun b => b.pp.key)) s = (.ok (), s') ∧
      s'.node.dbs = bs.foldl (fun dbs b => b.undo env dbs) s.node.dbs := by
  induction bs generalizing s with
  | nil => exact ⟨s, rfl, rfl⟩
  | cons b bs ih =>
    rw [List.pairwise_cons] at hdistinct
    have hkey : b.pp.key.2 = b.pp.ppSeqNo := rfl
    have hb := hsent b List.mem_cons_self
    have ht := htracked b List.mem_cons_self
    let s1 : Replica ω σ τ := { s with batches := s.batches.erase b.pp.ppSeqNo }
    let s2 : Replica ω σ τ := s1.setDbs (b.undo env s.node.dbs)
    let s3 : Replica ω σ τ := { s2 with sentPrePrepares := s2.sentPrePrepares.eraseAll [b.pp.key],
                                        prepares := s2.prepares.erase b.pp.key }
    have hne : ∀ c ∈ bs, c.pp.ppSeqNo ≠ b.pp.ppSeqNo := fun c hc => (hdistinct.1 c hc).symm
    obtain ⟨s', hrun, hdbs⟩ := ih (s := s3) hdistinct.2
      (fun c hc => by
        change (s.sentPrePrepares.eraseAll [b.pp.key]).get? c.pp.key = some c.pp
        rw [PrePrepareLog.get?_eraseAll, if_neg, hsent c (List.mem_cons_of_mem _ hc)]
        rw [List.mem_singleton]
        exact fun h => hne c hc (congrArg Prod.snd h))
      (fun c hc => by
        change (s.batches.erase b.pp.ppSeqNo).get? c.pp.ppSeqNo = _
        rw [Dict.get?_erase, if_neg (hne c hc), htracked c (List.mem_cons_of_mem _ hc)])
    refine ⟨s', ?_, by rw [hdbs]; rfl⟩
    rw [List.map_cons, removePpReqs, exec_bind, exec_get]
    dsimp only
    rw [hb, hkey, ht]
    exact hrun

/-! ## What the loop leaves -/

theorem HoldsBatches.obsoletePpReqs_eq (h : HoldsBatches env s bs) (hprimary : s.FormerPrimary lastViewNo) :
    s.obsoletePpReqs = ((s.droppedBatches lastViewNo bs).map fun b => b.pp.key).reverse := by
  have hunordered : (s.sentPrePrepares.entries.filter fun e =>
        e.2.viewNo = lastViewNo ∧ ! s.prepares.hasEnoughVotes e.1 s.node.f) =
      (s.sentPrePrepares.entries.filter fun e => e.1 ∉ s.ordered).filter fun e =>
        e.2.viewNo = lastViewNo ∧ ! s.prepares.hasEnoughVotes e.1 s.node.f := by
    rw [List.filter_filter]
    refine List.filter_congr fun e he => ?_
    by_cases ho : e.1 ∈ s.ordered
    · simp [h.prepared e he ho]
    · simp [ho]
  have hdropped : ∀ b ∈ bs, decide (b.pp.viewNo = lastViewNo ∧ ! s.prepares.hasEnoughVotes b.pp.key s.node.f) =
      ! s.keepsBatch lastViewNo b := fun b _ => by
    rw [keepsBatch, Bool.not_or, Bool.not_not, Bool.decide_and, Bool.decide_eq_true]
  unfold obsoletePpReqs
  rw [hprimary.lastView]
  dsimp only
  rw [if_pos hprimary.primary, hunordered, h.sent, List.filter_map, List.map_map, droppedBatches,
    ← List.filter_congr hdropped]
  rfl

theorem removeObsoletePpReqs_runs (hprimary : s.FormerPrimary lastViewNo) (h : HoldsBatches env s bs) :
    ∃ s', exec (removeObsoletePpReqs env) s = (.ok (), s') ∧
      s'.node.dbs = (s.droppedBatches lastViewNo bs).foldr (undo env) s.node.dbs := by
  have hsub : ∀ b ∈ (s.droppedBatches lastViewNo bs).reverse, b ∈ bs := fun b hb =>
    (List.mem_filter.1 (List.mem_reverse.1 hb)).1
  have hdistinct : (s.droppedBatches lastViewNo bs).reverse.Pairwise fun b c => b.pp.ppSeqNo ≠ c.pp.ppSeqNo := by
    rw [List.pairwise_reverse]
    exact (h.ascending.sublist List.filter_sublist).imp fun hlt => hlt.ne'
  have hruns : ∃ s', exec (removePpReqs env ((s.droppedBatches lastViewNo bs).reverse.map fun b => b.pp.key)) s =
      (.ok (), s') ∧ s'.node.dbs = (s.droppedBatches lastViewNo bs).reverse.foldl (fun dbs b => b.undo env dbs) s.node.dbs :=
    removePpReqs_runs hdistinct (fun b hb => h.get?_sent (hsub b hb)) fun b hb => h.tracked b (hsub b hb)
  obtain ⟨s', hrun, hdbs⟩ := hruns
  refine ⟨s', ?_, by rw [hdbs, List.foldl_reverse]⟩
  rw [removeObsoletePpReqs, exec_bind, exec_get]
  dsimp only
  rw [h.obsoletePpReqs_eq hprimary, ← List.map_reverse]
  exact hrun

/-- a ledger is left with the transactions of its kept batches exactly if they come first and no dropped batch is empty
unless they are -/
theorem HoldsBatches.uncommitted_iff (h : HoldsBatches env s bs) (lastViewNo : ℕ) (lid : LedgerId) :
    (((s.droppedBatches lastViewNo bs).foldr (undo env) s.node.dbs).ledgers.get lid).uncommittedTxns =
        txnsOf lid (s.keptBatches lastViewNo bs) ↔
      txnsOf lid (s.keptBatches lastViewNo bs) <+: txnsOf lid bs ∧
        ∀ b ∈ ofLedger lid (s.droppedBatches lastViewNo bs), b.pp.discarded = 0 →
          txnsOf lid (s.keptBatches lastViewNo bs) = [] := by
  have hlength : (txnsOf lid bs).length = (txnsOf lid (s.keptBatches lastViewNo bs)).length +
      ((ofLedger lid (s.droppedBatches lastViewNo bs)).map fun b => b.pp.discarded).sum := by
    have hcounts : ((ofLedger lid (s.droppedBatches lastViewNo bs)).map fun b => b.pp.discarded) =
        (ofLedger lid (s.droppedBatches lastViewNo bs)).map fun b => b.txns.length :=
      List.map_congr_left fun b hb =>
        h.discarded b (List.mem_filter.1 (List.mem_filter.1 hb).1).1
    rw [hcounts, txnsOf, txnsOf, keptBatches, droppedBatches, ofLedger_filter, ofLedger_filter]
    exact length_flatMap_filter _ _ _
  rw [undoAll_txns, h.uncommitted]
  by_cases hzero : 0 ∈ (ofLedger lid (s.droppedBatches lastViewNo bs)).map fun b => b.pp.discarded
  · rw [foldr_dropLastSlice_zero _ hzero]
    obtain ⟨b, hb, hb0⟩ := List.mem_map.1 hzero
    exact ⟨fun hkept => ⟨hkept ▸ List.nil_prefix, fun _ _ _ => hkept.symm⟩, fun hkept => (hkept.2 b hb hb0).symm⟩
  · rw [foldr_dropLastSlice _ hzero, hlength, Nat.add_sub_cancel, List.prefix_iff_eq_take]
    exact ⟨fun hkept => ⟨hkept.symm, fun b hb hb0 => absurd (List.mem_map.2 ⟨b, hb, hb0⟩) hzero⟩,
      fun hkept => hkept.1.symm⟩

/-- the state of a ledger is left at the root of its last kept batch exactly if its oldest dropped batch found that root -/
theorem HoldsBatches.head_iff (h : HoldsBatches env s bs) (lastViewNo : ℕ) (lid : LedgerId) :
    some (env.stateRoot (((s.droppedBatches lastViewNo bs).foldr (undo env) s.node.dbs).states.get lid).headHash) =
        lastRoot lid (s.keptBatches lastViewNo bs) (s.committedRoot env lid) ↔
      ∀ b, (ofLedger lid (s.droppedBatches lastViewNo bs)).head? = some b →
        some (env.stateRoot b.prevStateRoot) = lastRoot lid (s.keptBatches lastViewNo bs) (s.committedRoot env lid) := by
  rw [undoAll_head]
  cases hfirst : (ofLedger lid (s.droppedBatches lastViewNo bs)).head? with
  | none =>
    have hall : ofLedger lid (s.keptBatches lastViewNo bs) = ofLedger lid bs := by
      rw [List.head?_eq_none_iff, droppedBatches, ofLedger_filter, List.filter_eq_nil_iff] at hfirst
      rw [keptBatches, ofLedger_filter, List.filter_eq_self]
      intro b hb
      simpa using hfirst b hb
    refine ⟨fun _ b hb => (Option.some_ne_none b hb.symm).elim, fun _ => ?_⟩
    rw [lastRoot, hall]
    exact h.head lid
  | some b => exact ⟨fun hroot c hc => by cases hc; exact hroot, fun hroot => hroot b rfl⟩

theorem HoldsBatches.holdsLedger_iff (h : HoldsBatches env s bs) {s' : Replica ω σ τ}
    (hdbs : s'.node.dbs = (s.droppedBatches lastViewNo bs).foldr (undo env) s.node.dbs) (lid : LedgerId) :
    HoldsLedger env s' (s.keptBatches lastViewNo bs) lid ↔ Undoable env s lastViewNo bs lid := by
  have hcommitted : committedRoot env s' lid = committedRoot env s lid := by
    rw [committedRoot, committedRoot, hdbs, undoAll_committedHeadHash]
  have htxns := h.uncommitted_iff lastViewNo lid
  have hhead := h.head_iff lastViewNo lid
  rw [← hdbs] at htxns hhead
  constructor
  · intro hkept
    obtain ⟨hfirst, hnonempty⟩ := htxns.1 hkept.uncommitted
    exact ⟨hfirst, hnonempty, hhead.1 (hcommitted ▸ hkept.head)⟩
  · intro hundo
    exact ⟨htxns.2 ⟨hundo.keptFirst, hundo.nonempty⟩, by rw [hcommitted]; exact hhead.2 hundo.root⟩

/-- where a selected element follows the selected ones before it -/
theorem exists_take_of_filter {α : Type} {p : α → Bool} {l xs ys : List α} {a : α} (h : l.filter p = xs ++ a :: ys) :
    ∃ i : ℕ, l[i]? = some a ∧ (l.take i).filter p = xs := by
  obtain ⟨l1, l2, rfl, h1, h2⟩ := List.filter_eq_append_iff.1 h
  obtain ⟨m1, m2, rfl, hm1, -, -⟩ := List.filter_eq_cons_iff.1 h2
  refine ⟨(l1 ++ m1).length, ?_, ?_⟩
  · rw [← List.append_assoc, List.getElem?_append_right (Nat.le_refl _), Nat.sub_self]
    rfl
  · rw [← List.append_assoc, List.take_left, List.filter_append, h1, List.filter_eq_nil_iff.2 hm1, List.append_nil]

/-- the newest batches of a ledger, each with a transaction, can be counted off its end -/
theorem HoldsBatches.undoable_of_newest (h : HoldsBatches env s bs) {lid : LedgerId} {older newer : List (SentBatch σ τ)}
    (hsplit : ofLedger lid bs = older ++ newer) (holder : ∀ b ∈ older, s.keepsBatch lastViewNo b = true)
    (hnewer : ∀ b ∈ newer, s.keepsBatch lastViewNo b = false ∧ b.txns ≠ []) : Undoable env s lastViewNo bs lid := by
  have hkept : ofLedger lid (s.keptBatches lastViewNo bs) = older := by
    have hnone : newer.filter (s.keepsBatch lastViewNo) = [] := List.filter_eq_nil_iff.2 fun b hb => by simp [hnewer b hb]
    rw [keptBatches, ofLedger_filter, hsplit, List.filter_append, List.filter_eq_self.2 holder, hnone, List.append_nil]
  have hdropped : ofLedger lid (s.droppedBatches lastViewNo bs) = newer := by
    have hnone : older.filter (fun b => ! s.keepsBatch lastViewNo b) = [] :=
      List.filter_eq_nil_iff.2 fun b hb => by simp [holder b hb]
    have hall : newer.filter (fun b => ! s.keepsBatch lastViewNo b) = newer :=
      List.filter_eq_self.2 fun b hb => by simp [hnewer b hb]
    rw [droppedBatches, ofLedger_filter, hsplit, List.filter_append, hnone, hall, List.nil_append]
  have hmem : ∀ b ∈ newer, b ∈ bs ∧ b.pp.ledgerId = lid := fun b hb => by
    have hb' : b ∈ ofLedger lid bs := hsplit ▸ List.mem_append_right _ hb
    simpa using List.mem_filter.1 hb'
  refine ⟨?_, fun b hb hzero => ?_, fun b hb => ?_⟩
  · rw [txnsOf, txnsOf, hkept, hsplit, List.flatMap_append]
    exact List.prefix_append _ _
  · rw [hdropped] at hb
    rw [h.discarded b (hmem b hb).1] at hzero
    exact absurd (List.length_eq_zero_iff.1 hzero) (hnewer b hb).2
  · rw [hdropped] at hb
    obtain ⟨rest, rfl⟩ := List.head?_eq_some_iff.1 hb
    obtain ⟨i, hi, hbefore⟩ := exists_take_of_filter hsplit
    have hfound := h.found i b hi
    rw [(hmem b List.mem_cons_self).2] at hfound
    have holdest : ofLedger lid (bs.take i) = older := hbefore
    rw [hfound, lastRoot, lastRoot, hkept, holdest]

/-- **What `removeObsoletePpReqs` leaves.** The ledgers and states of a former primary hold what its kept batches applied
exactly if, for each ledger, the dropped batches can be counted off its end. -/
theorem holdsKept_iff (hprimary : s.FormerPrimary lastViewNo) (h : HoldsBatches env s bs) :
    (∃ s', exec (removeObsoletePpReqs env) s = (.ok (), s') ∧
        ∀ lid, HoldsLedger env s' (s.keptBatches lastViewNo bs) lid) ↔
      ∀ lid, Undoable env s lastViewNo bs lid := by
  obtain ⟨s', hrun, hdbs⟩ := removeObsoletePpReqs_runs hprimary h
  constructor
  · rintro ⟨s1, hrun1, hkept⟩ lid
    obtain rfl : s' = s1 := congrArg Prod.snd (hrun.symm.trans hrun1)
    exact (h.holdsLedger_iff hdbs lid).1 (hkept lid)
  · intro hundo
    exact ⟨s', hrun, fun lid => (h.holdsLedger_iff hdbs lid).2 (hundo lid)⟩

end Replica

/-! ## Two batches of Alpha -/

namespace FourNodes

/-- the second request; dynamic validation refuses it unless it is `valid` -/
def secondRequest (valid : Bool) : Request Bool := { request 2 "b" with operation := valid }

/-- Alpha sends the batches of two requests, gets the PREPARE of Beta for the first only, and learns that Beta is the
primary of view 1 -/
def formerPrimary (valid : Bool) : Replica Bool ℕ ReqKey :=
  let requests := (Dict.empty.set (request 1 "a").key (forwarded (request 1 "a") 1 [])).set (secondRequest valid).key
    (forwarded (secondRequest valid) 1 [])
  let s := (exec (do
    Replica.readyFor3PC (env 10) (request 1 "a").key
    let _ ← Replica.send3PCBatch (env 10)
    Replica.readyFor3PC (env 10) (secondRequest valid).key
    let _ ← Replica.send3PCBatch (env 10)
    Replica.dispatchThreePhaseMsg (env 10) 3 3 (.prepare ((prePrepare 1 (request 1 "a")).prepare 0)) "Beta")
    (master 10 "Alpha" requests)).2
  { s with primaryNames := s.primaryNames.set 1 (some (generateName "Beta" 0)) }

/-- the two batches that Alpha has sent -/
def sentBatches (valid : Bool) : List (SentBatch ℕ ReqKey) :=
  let txns := if valid then [(secondRequest valid).key] else []
  [⟨prePrepare 1 (request 1 "a"), [(request 1 "a").key], 0⟩,
    ⟨{ prePrepare 2 (secondRequest valid) with discarded := txns.length }, txns, 1⟩]

open Replica in
theorem formerPrimary_holds (valid : Bool) :
    (formerPrimary valid).FormerPrimary 0 ∧ HoldsBatches (env 10) (formerPrimary valid) (sentBatches valid) := by
  refine ⟨?_, { sent := ?_, ascending := ?_, tracked := ?_, discarded := ?_, uncommitted := fun lid => ?_,
                head := fun lid => ?_, found := ?_, prepared := ?_ }⟩
  case refine_1 => cases valid <;> exact ⟨by decide +kernel, by decide +kernel, by decide +kernel⟩
  case refine_6 | refine_7 => cases valid <;> cases lid <;> decide +kernel
  case refine_8 =>
    rintro (_ | _ | i) b hb
    · cases hb
      cases valid <;> decide +kernel
    · cases hb
      cases valid <;> decide +kernel
    · cases hb
  all_goals
    cases valid <;> decide +kernel

end FourNodes

open FourNodes Replica in
/-- **An empty batch takes the transactions of a prepared one with it**: Alpha keeps its first batch and drops the second,
which has no valid request, and the ledger is left without the transaction of the first. -/
theorem empty_batch_drops_all :
    (formerPrimary false).FormerPrimary 0 ∧ HoldsBatches (env 10) (formerPrimary false) (sentBatches false) ∧
      ¬ ∃ s', exec (removeObsoletePpReqs (env 10)) (formerPrimary false) = (.ok (), s') ∧
        ∀ lid, HoldsLedger (env 10) s' ((formerPrimary false).keptBatches 0 (sentBatches false)) lid := by
  refine ⟨(formerPrimary_holds false).1, (formerPrimary_holds false).2, ?_⟩
  rintro ⟨s', hrun, hkept⟩
  have hleft : ((exec (removeObsoletePpReqs (env 10)) (formerPrimary false)).2.node.dbs.ledgers.get .domain).uncommittedTxns
      ≠ SentBatch.txnsOf .domain ((formerPrimary false).keptBatches 0 (sentBatches false)) := by decide +kernel
  rw [hrun] at hleft
  exact hleft (hkept .domain).uncommitted

open FourNodes Replica in
theorem holdsKept_iff_newestDropped :
    ∃ s', exec (removeObsoletePpReqs (env 10)) (formerPrimary true) = (.ok (), s') ∧
      ∀ lid, HoldsLedger (env 10) s' ((formerPrimary true).keptBatches 0 (sentBatches true)) lid := by
  obtain ⟨hprimary, hholds⟩ := formerPrimary_holds true
  refine (holdsKept_iff hprimary hholds).2 fun lid => ?_
  cases lid
  case pool =>
    exact hholds.undoable_of_newest (List.append_nil []).symm (fun b hb => nomatch hb) fun b hb => nomatch hb
  case domain =>
    refine hholds.undoable_of_newest (show _ = (sentBatches true).take 1 ++ (sentBatches true).drop 1 from ?_) ?_ ?_
    all_goals decide +kernel

end Plenum
