/-
Whether two honest nodes build the same consistency proof.

- `executeBatch` enters the last sequence number of an ordered batch in `batchToSeqNos`, which keeps the latest entries
  only; a catch-up enters nothing. `ppSeqNoForTxnSeqNo` looks a sequence number up there, and is 0 where it finds none.
- `OrderedLog`: the batches that were ordered. `Honest`: a node that has obtained its ledgers from them, starting with some
  of their transactions, executing batches and catching up in any split.
- `Remembers`: the batch that ends at a sequence number was executed, and not too many were executed after it.
- `proofs_equal_iff`: the proofs are equal if and only if both nodes remember the batch or neither does, and, for a proof
  from the start, their ledgers have one root: its old root is that of the whole ledger.
- `caught_up_differs`: a node that has executed a batch and one that has caught it up build different proofs.
-/
import Mathlib.Tactic
import Mathlib.Data.List.DropRight
import Plenum.Common.LedgerManager
import Plenum.Server.Databases

namespace Plenum

open Plenum.Core Plenum.Core.Exec

/-! ## A node that answers -/

/-- an ordered batch, with the transactions that its execution commits -/
structure OrderedBatch (τ : Type) where
  ppSeqNo : ℕ
  ledgerId : LedgerId
  txns : List τ

/-- what a node builds consistency proofs from -/
structure ProofNode (τ : Type) where
  ledgers : PerLedger (Ledger τ)
  batchToSeqNos : Dict ℕ (LedgerId × ℕ)

namespace ProofNode

variable {τ : Type}

/-- `popitem(last=False)` -/
def popFirst (d : Dict ℕ (LedgerId × ℕ)) : Dict ℕ (LedgerId × ℕ) :=
  ⟨d.entries.tail, by
    rw [List.map_tail]
    exact d.nodup.sublist (List.tail_sublist _)⟩

/-- the latest entry for the sequence number -/
def ppSeqNoForTxnSeqNo (n : ProofNode τ) (lid : LedgerId) (seqNo : ℕ) : ℕ :=
  ((n.batchToSeqNos.entries.reverse.find? fun e => e.2 = (lid, seqNo)).map Prod.fst).getD 0

/-- its transactions are committed; `processedBatchMapsToKeep` entries are kept -/
def executeBatch (processedBatchMapsToKeep : ℕ) (n : ProofNode τ) (b : OrderedBatch τ) : ProofNode τ :=
  let ledgers := n.ledgers.set b.ledgerId ((n.ledgers.get b.ledgerId).appendCommittedTxns b.txns)
  if b.txns = [] then { n with ledgers := ledgers }
  else
    let batchToSeqNos := n.batchToSeqNos.set b.ppSeqNo (b.ledgerId, (ledgers.get b.ledgerId).txns.length)
    ⟨ledgers, if processedBatchMapsToKeep < batchToSeqNos.size then popFirst batchToSeqNos else batchToSeqNos⟩

/-- transactions that are caught up are added to the ledger -/
def catchUp (n : ProofNode τ) (lid : LedgerId) (txns : List τ) : ProofNode τ :=
  { n with ledgers := n.ledgers.set lid ((n.ledgers.get lid).appendCommittedTxns txns) }

def txns (n : ProofNode τ) (lid : LedgerId) : List τ := (n.ledgers.get lid).txns

end ProofNode

/-- the owner of a ledger manager, of which only the ledgers and the map of batches matter -/
def proofOwner {τ : Type} (totalNodes f : ℕ) : LedgerOwner (ProofNode τ) τ where
  totalNodes := totalNodes
  f := f
  isClient _ := false
  conns _ := []
  connecteds _ := []
  ppSeqNoForTxnSeqNo := ProofNode.ppSeqNoForTxnSeqNo
  ledgers := ProofNode.ledgers
  setLedgers n ledgers := { n with ledgers := ledgers }
  blacklistNode n _ := n
  preDomainLedgerCatchUp n := n
  poolLedgerCaughtUp := pure ()
  postTxnFromCatchupAddedToLedger _ _ := pure ()
  allLedgersCaughtUp _ := pure ()
  ledgers_setLedgers _ _ := rfl
  ledgers_blacklistNode _ _ := rfl
  ledgers_preDomainLedgerCatchUp _ := rfl
  ledgers_poolLedgerCaughtUp _ := rfl
  ledgers_postTxn _ _ _ := rfl

/-! ## What was ordered -/

/-- the transactions that every ledger starts with, and the ordered batches -/
structure OrderedLog (τ : Type) where
  genesis : PerLedger (List τ)
  batches : List (OrderedBatch τ)
  increasing : batches.Pairwise fun b b' => b.ppSeqNo < b'.ppSeqNo
  positive : ∀ b ∈ batches, 0 < b.ppSeqNo

namespace OrderedLog

variable {τ : Type} (log : OrderedLog τ)

/-- the transactions of the batches of a ledger that meet a condition on their numbers -/
def txnsWhere (lid : LedgerId) (p : ℕ → Bool) : List τ :=
  log.genesis.get lid ++ (log.batches.filter fun b => b.ledgerId = lid ∧ p b.ppSeqNo).flatMap OrderedBatch.txns

/-- the ledger before a batch -/
def before (b : OrderedBatch τ) : List τ := log.txnsWhere b.ledgerId fun p => p < b.ppSeqNo

/-- the sequence number of the last transaction of a batch -/
def seqNoEnd (b : OrderedBatch τ) : ℕ := (log.txnsWhere b.ledgerId fun p => p ≤ b.ppSeqNo).length

def all (lid : LedgerId) : List τ := log.txnsWhere lid fun _ => true

end OrderedLog

/-- how a node obtains transactions -/
inductive Obtained (τ : Type) where
  | executed (b : OrderedBatch τ)
  | caughtUp (ledgerId : LedgerId) (txns : List τ)

/-- the batches with transactions among what was executed -/
def executedIn {τ : Type} (history : List (Obtained τ)) : List (OrderedBatch τ) :=
  history.filterMap fun
    | .executed b => if b.txns.isEmpty then none else some b
    | .caughtUp _ _ => none

/-- a node that has started with a part of what was ordered, has executed batches in their order, each when it had what
comes before it, and has caught up otherwise -/
inductive Honest {τ : Type} (log : OrderedLog τ) (processedBatchMapsToKeep : ℕ) : List (Obtained τ) → ProofNode τ → Prop
  | started (ledgers : PerLedger (Ledger τ)) (h : ∀ lid, (ledgers.get lid).txns <+: log.all lid) :
      Honest log processedBatchMapsToKeep [] ⟨ledgers, Dict.empty⟩
  | executed {history : List (Obtained τ)} {n : ProofNode τ} (b : OrderedBatch τ)
      (hn : Honest log processedBatchMapsToKeep history n) (hb : b ∈ log.batches)
      (hlater : ∀ b' ∈ executedIn history, b'.ppSeqNo < b.ppSeqNo) (hbefore : n.txns b.ledgerId = log.before b) :
      Honest log processedBatchMapsToKeep (history ++ [.executed b]) (n.executeBatch processedBatchMapsToKeep b)
  | caughtUp {history : List (Obtained τ)} {n : ProofNode τ} (lid : LedgerId) (txns : List τ)
      (hn : Honest log processedBatchMapsToKeep history n) (h : n.txns lid ++ txns <+: log.all lid) :
      Honest log processedBatchMapsToKeep (history ++ [.caughtUp lid txns]) (n.catchUp lid txns)

/-- the batch that ends at the sequence number is among the last ones executed -/
def Remembers {τ : Type} (log : OrderedLog τ) (processedBatchMapsToKeep : ℕ) (history : List (Obtained τ))
    (lid : LedgerId) (seqNo : ℕ) : Prop :=
  ∃ b ∈ (executedIn history).rtake processedBatchMapsToKeep, b.ledgerId = lid ∧ log.seqNoEnd b = seqNo

/-! ## Batches and sequence numbers -/

namespace OrderedLog

variable {τ : Type} {log : OrderedLog τ} {b b' : OrderedBatch τ}

/-- the batches before a batch and those up to it -/
theorem split (hb : b ∈ log.batches) : ∃ l l', log.batches = l ++ b :: l' ∧ (∀ x ∈ l, x.ppSeqNo < b.ppSeqNo) ∧
    ∀ x ∈ l', b.ppSeqNo < x.ppSeqNo := by
  obtain ⟨l, l', hsplit⟩ := List.append_of_mem hb
  have hincreasing := log.increasing
  rw [hsplit, List.pairwise_append, List.pairwise_cons] at hincreasing
  obtain ⟨-, ⟨hafter, -⟩, hcross⟩ := hincreasing
  exact ⟨l, l', hsplit, fun x hx => hcross x hx b List.mem_cons_self, hafter⟩

/-- the batches of a ledger that come before one of its batches -/
theorem filter_split {l l' : List (OrderedBatch τ)} (hl : ∀ x ∈ l, x.ppSeqNo < b.ppSeqNo)
    (hl' : ∀ x ∈ l', b.ppSeqNo < x.ppSeqNo) :
    ((l ++ b :: l').filter fun x => x.ledgerId = b.ledgerId ∧ decide (x.ppSeqNo < b.ppSeqNo) = true) =
        l.filter (fun x => x.ledgerId = b.ledgerId) ∧
      ((l ++ b :: l').filter fun x => x.ledgerId = b.ledgerId ∧ decide (x.ppSeqNo ≤ b.ppSeqNo) = true) =
        l.filter (fun x => x.ledgerId = b.ledgerId) ++ [b] := by
  rw [List.filter_append, List.filter_append]
  constructor
  · have hrest : (b :: l').filter (fun x => x.ledgerId = b.ledgerId ∧ decide (x.ppSeqNo < b.ppSeqNo) = true) = [] := by
      rw [List.filter_eq_nil_iff]
      intro x hx
      rcases List.mem_cons.1 hx with rfl | hx
      · simp
      · simp [(hl' x hx).le]
    rw [hrest, List.append_nil]
    exact List.filter_congr fun x hx => by simp [hl x hx]
  · have hrest : l'.filter (fun x => x.ledgerId = b.ledgerId ∧ decide (x.ppSeqNo ≤ b.ppSeqNo) = true) = [] := by
      rw [List.filter_eq_nil_iff]
      intro x hx
      simp [hl' x hx]
    rw [List.filter_cons_of_pos (by simp), hrest]
    exact congrArg (· ++ [b]) (List.filter_congr fun x hx => by simp [(hl x hx).le])

/-- **A batch extends its ledger by its transactions.** -/
theorem txnsWhere_le (hb : b ∈ log.batches) :
    log.txnsWhere b.ledgerId (fun p => p ≤ b.ppSeqNo) = log.before b ++ b.txns := by
  obtain ⟨l, l', hsplit, hl, hl'⟩ := split hb
  obtain ⟨hbefore, hupTo⟩ := filter_split hl hl'
  unfold before txnsWhere
  rw [hsplit, hbefore, hupTo]
  simp

/-- and it does so in the ledger of all batches -/
theorem before_append_isPrefix (hb : b ∈ log.batches) : log.before b ++ b.txns <+: log.all b.ledgerId := by
  obtain ⟨l, l', hsplit, hl, hl'⟩ := split hb
  unfold before all txnsWhere
  rw [hsplit, (filter_split hl hl').1, List.filter_append, List.filter_cons_of_pos (by simp)]
  simp

theorem length_txnsWhere_le (lid : LedgerId) {p q : ℕ → Bool} (h : ∀ x, p x = true → q x = true) :
    (log.txnsWhere lid p).length ≤ (log.txnsWhere lid q).length := by
  unfold txnsWhere
  rw [List.length_append, List.length_append]
  refine Nat.add_le_add_left (List.Sublist.length_le (List.Sublist.flatMap (List.monotone_filter_right _ ?_) _)) _
  intro x hx
  simp only [decide_eq_true_eq] at hx ⊢
  exact ⟨hx.1, h _ hx.2⟩

/-- a later batch with transactions ends later -/
theorem seqNoEnd_lt (hb' : b' ∈ log.batches) (hlid : b.ledgerId = b'.ledgerId) (hne : b'.txns ≠ [])
    (hlt : b.ppSeqNo < b'.ppSeqNo) : log.seqNoEnd b < log.seqNoEnd b' := by
  have hpos : 0 < b'.txns.length := List.length_pos_of_ne_nil hne
  have hle : log.seqNoEnd b ≤ (log.before b').length := by
    unfold seqNoEnd before
    rw [hlid]
    refine length_txnsWhere_le _ fun x hx => ?_
    simp only [decide_eq_true_eq] at hx ⊢
    omega
  unfold seqNoEnd at hle ⊢
  rw [txnsWhere_le hb', List.length_append]
  omega

/-- one batch with transactions ends at a sequence number -/
theorem ppSeqNo_eq (hb : b ∈ log.batches) (hb' : b' ∈ log.batches) (hlid : b.ledgerId = b'.ledgerId)
    (hne : b.txns ≠ []) (hne' : b'.txns ≠ []) (hend : log.seqNoEnd b = log.seqNoEnd b') : b.ppSeqNo = b'.ppSeqNo := by
  rcases lt_trichotomy b.ppSeqNo b'.ppSeqNo with h | h | h
  · have := seqNoEnd_lt hb' hlid hne' h
    omega
  · exact h
  · have := seqNoEnd_lt hb hlid.symm hne h
    omega

end OrderedLog

/-! ## What the map holds -/

section Histories

variable {τ : Type} {log : OrderedLog τ} {keep : ℕ} {history : List (Obtained τ)} {n : ProofNode τ}

theorem txns_executeBatch (b : OrderedBatch τ) (lid : LedgerId) :
    (n.executeBatch keep b).txns lid = if lid = b.ledgerId then n.txns lid ++ b.txns else n.txns lid := by
  have hledgers : (n.executeBatch keep b).ledgers =
      n.ledgers.set b.ledgerId ((n.ledgers.get b.ledgerId).appendCommittedTxns b.txns) := by
    unfold ProofNode.executeBatch
    dsimp only
    split_ifs <;> rfl
  unfold ProofNode.txns
  rw [hledgers, PerLedger.get_set]
  split_ifs with hlid
  · subst hlid
    rfl
  · rfl

theorem txns_catchUp (lid' : LedgerId) (txns : List τ) (lid : LedgerId) :
    (n.catchUp lid' txns).txns lid = if lid = lid' then n.txns lid ++ txns else n.txns lid := by
  unfold ProofNode.txns ProofNode.catchUp
  rw [PerLedger.get_set]
  split_ifs with hlid
  · subst hlid
    rfl
  · rfl

theorem executedIn_executed (history : List (Obtained τ)) (b : OrderedBatch τ) :
    executedIn (history ++ [.executed b]) = if b.txns = [] then executedIn history else executedIn history ++ [b] := by
  unfold executedIn
  rw [List.filterMap_append]
  by_cases hnil : b.txns = []
  · simp [hnil]
  · simp [hnil]

theorem executedIn_caughtUp (history : List (Obtained τ)) (lid : LedgerId) (txns : List τ) :
    executedIn (history ++ [.caughtUp lid txns]) = executedIn history := by
  unfold executedIn
  rw [List.filterMap_append]
  simp

/-- an honest node has transactions that were ordered -/
theorem Honest.isPrefix (h : Honest log keep history n) (lid : LedgerId) : n.txns lid <+: log.all lid := by
  induction h with
  | started ledgers h => exact h lid
  | executed b _ hb _ hbefore ih =>
    rw [txns_executeBatch]
    split_ifs with hlid
    · subst hlid
      rw [hbefore]
      exact OrderedLog.before_append_isPrefix hb
    · exact ih
  | caughtUp lid' txns _ h ih =>
    rw [txns_catchUp]
    split_ifs with hlid
    · subst hlid
      exact h
    · exact ih

theorem Honest.mem_batches (h : Honest log keep history n) {b : OrderedBatch τ} (hb : b ∈ executedIn history) :
    b ∈ log.batches ∧ b.txns ≠ [] := by
  induction h with
  | started => cases hb
  | executed b' _ hb' _ _ ih =>
    rw [executedIn_executed] at hb
    split_ifs at hb with hnil
    · exact ih hb
    · rcases List.mem_append.1 hb with hb | hb
      · exact ih hb
      · obtain rfl := List.mem_singleton.1 hb
        exact ⟨hb', hnil⟩
  | caughtUp lid' txns _ _ ih =>
    rw [executedIn_caughtUp] at hb
    exact ih hb

/-- the entry of an executed batch -/
def entryOf (log : OrderedLog τ) (b : OrderedBatch τ) : ℕ × LedgerId × ℕ := (b.ppSeqNo, b.ledgerId, log.seqNoEnd b)

/-- the last elements, when one is added: the first of them goes if there are too many -/
theorem rtake_concat {α : Type} (l : List α) (a : α) (k : ℕ) :
    (l ++ [a]).rtake k = if k < (l.rtake k ++ [a]).length then (l.rtake k ++ [a]).tail else l.rtake k ++ [a] := by
  unfold List.rtake
  have hdrop : l.drop (l.length - k) ++ [a] = (l ++ [a]).drop (l.length - k) := by
    rw [List.drop_append_of_le_length (Nat.sub_le _ _)]
  simp only [hdrop, List.tail_drop, List.length_drop, List.length_append, List.length_singleton]
  split_ifs with h
  · congr 1
    omega
  · congr 1
    omega

/-- **The map holds the last batches that were executed.** -/
theorem Honest.entries (h : Honest log keep history n) :
    n.batchToSeqNos.entries = ((executedIn history).rtake keep).map (entryOf log) := by
  induction h with
  | started => simp [executedIn, List.rtake, Dict.empty]
  | caughtUp lid' txns _ _ ih =>
    rw [executedIn_caughtUp]
    exact ih
  | @executed history n b hn hb hlater hbefore ih =>
    rw [executedIn_executed]
    unfold ProofNode.executeBatch
    by_cases hnil : b.txns = []
    · simp only [hnil, if_true]
      exact ih
    · simp only [hnil, if_false]
      -- the number is new, so its entry goes to the end
      have hsize : ((n.ledgers.set b.ledgerId ((n.ledgers.get b.ledgerId).appendCommittedTxns b.txns)).get
          b.ledgerId).txns.length = log.seqNoEnd b := by
        rw [PerLedger.get_set_self, OrderedLog.seqNoEnd, OrderedLog.txnsWhere_le hb, ← hbefore]
        rfl
      have hnew : b.ppSeqNo ∉ n.batchToSeqNos.keys := by
        unfold Dict.keys
        rw [ih, List.map_map]
        intro hmem
        obtain ⟨b', hb', heq⟩ := List.mem_map.1 hmem
        have := hlater b' (List.mem_of_mem_drop hb')
        simp [entryOf] at heq
        omega
      have hset : (n.batchToSeqNos.set b.ppSeqNo (b.ledgerId, log.seqNoEnd b)).entries =
          ((executedIn history).rtake keep ++ [b]).map (entryOf log) := by
        rw [List.map_append, ← ih]
        unfold Dict.set
        rw [dif_neg (show b.ppSeqNo ∉ n.batchToSeqNos.entries.map Prod.fst from hnew)]
        rfl
      rw [hsize, rtake_concat]
      have hlen : (n.batchToSeqNos.set b.ppSeqNo (b.ledgerId, log.seqNoEnd b)).size =
          ((executedIn history).rtake keep ++ [b]).length := by
        rw [Dict.size, hset, List.length_map]
      rw [hlen]
      split_ifs
      · rw [List.map_tail, ← hset]
        rfl
      · exact hset

/-- the number of the batch that ends at the sequence number, if the node remembers it -/
theorem Honest.ppSeqNo_eq (h : Honest log keep history n) {b : OrderedBatch τ}
    (hb : b ∈ (executedIn history).rtake keep) :
    n.ppSeqNoForTxnSeqNo b.ledgerId (log.seqNoEnd b) = b.ppSeqNo := by
  unfold ProofNode.ppSeqNoForTxnSeqNo
  have hmem : entryOf log b ∈ n.batchToSeqNos.entries.reverse := by
    rw [List.mem_reverse, h.entries]
    exact List.mem_map_of_mem hb
  cases hfind : n.batchToSeqNos.entries.reverse.find? (fun e => e.2 = (b.ledgerId, log.seqNoEnd b)) with
  | none =>
    rw [List.find?_eq_none] at hfind
    exact absurd (hfind _ hmem) (by simp [entryOf])
  | some e =>
    -- any other entry for it is that of the same batch
    have he : e.2 = (b.ledgerId, log.seqNoEnd b) := by simpa using List.find?_some hfind
    have hin := List.mem_of_find?_eq_some hfind
    rw [List.mem_reverse, h.entries] at hin
    obtain ⟨b', hb', rfl⟩ := List.mem_map.1 hin
    obtain ⟨hlog, hne⟩ := h.mem_batches (List.mem_of_mem_drop hb)
    obtain ⟨hlog', hne'⟩ := h.mem_batches (List.mem_of_mem_drop hb')
    simp only [entryOf, Prod.mk.injEq] at he
    exact OrderedLog.ppSeqNo_eq hlog' hlog he.1 hne' hne he.2

theorem Honest.ppSeqNo_eq_zero (h : Honest log keep history n) {lid : LedgerId} {seqNo : ℕ}
    (hnot : ¬ Remembers log keep history lid seqNo) : n.ppSeqNoForTxnSeqNo lid seqNo = 0 := by
  unfold ProofNode.ppSeqNoForTxnSeqNo
  rw [List.find?_eq_none.2]
  · rfl
  · intro e he heq
    rw [List.mem_reverse, h.entries] at he
    obtain ⟨b, hb, rfl⟩ := List.mem_map.1 he
    simp only [entryOf, decide_eq_true_eq, Prod.mk.injEq] at heq
    exact hnot ⟨b, hb, heq⟩

/-- **Two nodes find the same number if both remember the batch or neither does.** -/
theorem ppSeqNo_eq_iff {history' : List (Obtained τ)} {n' : ProofNode τ} (h : Honest log keep history n)
    (h' : Honest log keep history' n') (lid : LedgerId) (seqNo : ℕ) :
    n.ppSeqNoForTxnSeqNo lid seqNo = n'.ppSeqNoForTxnSeqNo lid seqNo ↔
      (Remembers log keep history lid seqNo ↔ Remembers log keep history' lid seqNo) := by
  by_cases hr : Remembers log keep history lid seqNo
  · obtain ⟨b, hb, rfl, rfl⟩ := id hr
    obtain ⟨hlog, hne⟩ := h.mem_batches (List.mem_of_mem_drop hb)
    rw [h.ppSeqNo_eq hb]
    by_cases hr' : Remembers log keep history' b.ledgerId (log.seqNoEnd b)
    · obtain ⟨b', hb', hlid, hend⟩ := id hr'
      obtain ⟨hlog', hne'⟩ := h'.mem_batches (List.mem_of_mem_drop hb')
      rw [← hlid, ← hend, h'.ppSeqNo_eq hb', hlid, hend]
      exact iff_of_true (OrderedLog.ppSeqNo_eq hlog hlog' hlid.symm hne hne' hend.symm) (iff_of_true hr hr')
    · have hpos := log.positive b hlog
      rw [h'.ppSeqNo_eq_zero hr']
      exact iff_of_false (by omega) (by simp [hr, hr'])
  · rw [h.ppSeqNo_eq_zero hr]
    by_cases hr' : Remembers log keep history' lid seqNo
    · obtain ⟨b', hb', rfl, rfl⟩ := id hr'
      obtain ⟨hlog', -⟩ := h'.mem_batches (List.mem_of_mem_drop hb')
      have hpos := log.positive b' hlog'
      rw [h'.ppSeqNo_eq hb']
      exact iff_of_false (by omega) (by simp [hr, hr'])
    · rw [h'.ppSeqNo_eq_zero hr']
      simp [hr, hr']

end Histories

/-! ## The proofs -/

/-- the proof that the node sends -/
def ProofNode.proof {τ : Type} (env : LedgerEnv τ) (totalNodes f : ℕ) (n : ProofNode τ) (lid : LedgerId)
    (seqNoStart seqNoEnd : ℕ) : Except Exn (Option ConsistencyProof) :=
  (exec (LedgerManager.buildConsistencyProof env (proofOwner totalNodes f) lid seqNoStart seqNoEnd)
    (LedgerManager.init n)).1

/-- a consistency proof is about the two prefixes only -/
def ProofOfPrefixes {τ : Type} (env : LedgerEnv τ) : Prop :=
  ∀ (txns txns' : List τ) (seqNoStart seqNoEnd : ℕ), seqNoStart ≤ seqNoEnd → seqNoEnd ≤ txns.length →
    seqNoEnd ≤ txns'.length → txns.take seqNoEnd = txns'.take seqNoEnd →
      env.consistencyProof txns seqNoStart seqNoEnd = env.consistencyProof txns' seqNoStart seqNoEnd

theorem ProofNode.proof_eq {τ : Type} (env : LedgerEnv τ) (totalNodes f : ℕ) (n : ProofNode τ) (lid : LedgerId)
    {seqNoStart seqNoEnd : ℕ} (hlt : seqNoStart < seqNoEnd) (hend : seqNoEnd ≤ (n.txns lid).length) :
    n.proof env totalNodes f lid seqNoStart seqNoEnd = .ok (some ⟨lid, seqNoStart, seqNoEnd,
      n.ppSeqNoForTxnSeqNo lid seqNoEnd,
      if seqNoStart = 0 then env.merkleRoot (n.txns lid) else env.merkleRoot ((n.txns lid).take seqNoStart),
      env.merkleRoot ((n.txns lid).take seqNoEnd),
      if seqNoStart = 0 then [env.merkleRoot (n.txns lid)]
      else env.consistencyProof (n.txns lid) seqNoStart seqNoEnd⟩) := by
  have h₁ : ¬ (n.txns lid).length < seqNoStart := by omega
  have h₂ : ¬ (n.txns lid).length < seqNoEnd := by omega
  have h₃ : ¬ seqNoEnd < seqNoStart := by omega
  unfold ProofNode.proof LedgerManager.buildConsistencyProof
  rw [exec_bind, exec_get]
  dsimp only
  have htxns : ((LedgerManager.init n).ledger (proofOwner totalNodes f) lid).txns = n.txns lid := rfl
  rw [htxns, if_neg h₁, if_neg h₂, if_neg h₃]
  rfl

/-- **When two honest nodes build equal proofs.** They do if and only if both remember the batch that ends there or
neither does, and, for a proof from the start, their whole ledgers have one root. -/
theorem proofs_equal_iff {τ : Type} {env : LedgerEnv τ} (henv : ProofOfPrefixes env) (totalNodes f : ℕ)
    {log : OrderedLog τ} {keep : ℕ} {history history' : List (Obtained τ)} {n n' : ProofNode τ}
    (h : Honest log keep history n) (h' : Honest log keep history' n') (lid : LedgerId) {seqNoStart seqNoEnd : ℕ}
    (hlt : seqNoStart < seqNoEnd) (hend : seqNoEnd ≤ (n.txns lid).length) (hend' : seqNoEnd ≤ (n'.txns lid).length) :
    ∃ p p', n.proof env totalNodes f lid seqNoStart seqNoEnd = .ok (some p) ∧
      n'.proof env totalNodes f lid seqNoStart seqNoEnd = .ok (some p') ∧ (p = p' ↔ p.range = p'.range ∧ p.key = p'.key) ∧
      (p = p' ↔ (Remembers log keep history lid seqNoEnd ↔ Remembers log keep history' lid seqNoEnd) ∧
        (seqNoStart = 0 → env.merkleRoot (n.txns lid) = env.merkleRoot (n'.txns lid))) := by
  -- both ledgers are prefixes of what was ordered
  have hagree : ∀ k, k ≤ seqNoEnd → (n.txns lid).take k = (n'.txns lid).take k := by
    intro k hk
    have htake : ∀ {l : List τ}, l <+: log.all lid → k ≤ l.length → l.take k = (log.all lid).take k := by
      rintro l ⟨rest, hrest⟩ hlen
      rw [← hrest, List.take_append_of_le_length hlen]
    rw [htake (h.isPrefix lid) (by omega), htake (h'.isPrefix lid) (by omega)]
  refine ⟨_, _, n.proof_eq env totalNodes f lid hlt hend, n'.proof_eq env totalNodes f lid hlt hend', ?_, ?_⟩
  · simp only [ConsistencyProof.range, ConsistencyProof.key, ConsistencyProof.mk.injEq, ProofKey.mk.injEq, true_and]
  · rw [← ppSeqNo_eq_iff h h' lid seqNoEnd]
    have hproof := henv (n.txns lid) (n'.txns lid) seqNoStart seqNoEnd hlt.le hend hend' (hagree seqNoEnd le_rfl)
    by_cases hzero : seqNoStart = 0
    · simp [hzero, hagree seqNoEnd le_rfl]
    · simp [hzero, hagree seqNoEnd le_rfl, hagree seqNoStart hlt.le, hproof]

/-! ## Witnesses -/

namespace OneBatch

/-- a proof names its two ends -/
def env : LedgerEnv ℕ where
  merkleRoot txns := toString txns
  consistencyProof txns seqNoStart seqNoEnd := [toString (txns.take seqNoStart), toString (txns.take seqNoEnd)]
  verifyTreeConsistency _ _ _ _ _ := false
  int _ := none
  transformTxnForLedger txn := txn
  withSeqNo txn _ := txn
  consistencyProofsTimeout := 5
  catchupTimeout _ _ := 5

theorem proofOfPrefixes : ProofOfPrefixes env := by
  intro txns txns' seqNoStart seqNoEnd hle _ _ hagree
  have htake : ∀ l : List ℕ, l.take seqNoStart = (l.take seqNoEnd).take seqNoStart := by
    intro l
    rw [List.take_take, Nat.min_eq_left hle]
  simp only [env, htake txns, htake txns', hagree]

def batch : OrderedBatch ℕ := ⟨1, .domain, [7]⟩

/-- one batch after two genesis transactions -/
def log : OrderedLog ℕ where
  genesis := ⟨[], [5, 6]⟩
  batches := [batch]
  increasing := List.pairwise_singleton _ _
  positive := by decide

/-- a node with the genesis transactions -/
def started : ProofNode ℕ := ⟨⟨Ledger.empty, { Ledger.empty with txns := [5, 6] }⟩, Dict.empty⟩

theorem honest_started : Honest log 100 [] started := by
  refine .started _ fun lid => ?_
  cases lid <;> decide

theorem honest_executed : Honest log 100 [.executed batch] (started.executeBatch 100 batch) :=
  .executed batch honest_started List.mem_cons_self (fun b hb => by cases hb) rfl

theorem honest_caughtUp : Honest log 100 [.caughtUp .domain [7]] (started.catchUp .domain [7]) :=
  .caughtUp .domain [7] honest_started (by decide)

end OneBatch

open OneBatch in
/-- **A batch that one node has caught up.** The ledgers are the same, and the proofs differ in the batch's number. -/
theorem caught_up_differs :
    Honest log 100 [.executed batch] (started.executeBatch 100 batch) ∧
    Honest log 100 [.caughtUp .domain [7]] (started.catchUp .domain [7]) ∧
    (started.executeBatch 100 batch).txns .domain = (started.catchUp .domain [7]).txns .domain ∧
    (started.executeBatch 100 batch).proof env 4 1 .domain 2 3 ≠ (started.catchUp .domain [7]).proof env 4 1 .domain 2 3 :=
  ⟨honest_executed, honest_caughtUp, by decide, by decide⟩

open OneBatch in
theorem proofs_equal_iff_oneBatch : ProofOfPrefixes env ∧
    ∃ p p', (started.executeBatch 100 batch).proof env 4 1 .domain 2 3 = .ok (some p) ∧
      (started.catchUp .domain [7]).proof env 4 1 .domain 2 3 = .ok (some p') ∧
      (p = p' ↔ p.range = p'.range ∧ p.key = p'.key) ∧
      (p = p' ↔ (Remembers log 100 [.executed batch] .domain 3 ↔ Remembers log 100 [.caughtUp .domain [7]] .domain 3) ∧
        (2 = 0 → env.merkleRoot ((started.executeBatch 100 batch).txns .domain) =
          env.merkleRoot ((started.catchUp .domain [7]).txns .domain))) :=
  ⟨proofOfPrefixes, proofs_equal_iff proofOfPrefixes 4 1 honest_executed honest_caughtUp .domain (by decide) (by decide)
    (by decide)⟩

end Plenum
