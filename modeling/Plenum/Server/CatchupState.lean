/-
A catch-up on top of uncommitted batches.

Requests of uncommitted batches are appended to the uncommitted transactions of a ledger and move the head of its state.
A transaction that is caught up is added to the same ledger, updates the same head, and commits it.

- `Applied`: nothing but batches has happened, committed ones and then uncommitted ones (`Applied.apply` is a request,
  which the domain handler applies in this way: `DomainRequestHandler.apply_eq_applyTxn`).
- `catchUpFrom`: what the catch-up of some transactions does; it is the loop of the ledger manager
  (`exec_addCatchupTxns`).
- `Clean`: after each of them the committed state is that of the committed transactions, and at the end the uncommitted
  root is that of the ledger with its uncommitted transactions.
- `clean_iff`, `catchup_clean_iff`: so it is if and only if nothing was uncommitted, or nothing is caught up.
- `uncommitted_committed`: else an uncommitted request can enter the committed state.
-/
import Mathlib.Tactic
import Plenum.Common.LedgerManager
import Plenum.Server.StateRebuild

namespace Plenum

open Plenum.Core Plenum.Core.Exec

/-! ## One ledger and its state -/

/-- a ledger with its state -/
structure LedgerAndState (τ ν : Type) where
  ledger : Ledger τ
  state : State (Dict String ν)

section Handler

variable {τ ν : Type} (updateState : Bool → List τ → State (Dict String ν) → State (Dict String ν))
  (withSeqNo : τ → ℕ → τ) (root : List τ → String)

/-- what `updateState` makes of the transactions of a ledger -/
def stateOfTxns (txns : List τ) : Dict String ν :=
  (updateState false (txnsWithSeqNo withSeqNo 1 txns) State.empty).headHash

namespace LedgerAndState

/-- what applying a request does, given its transaction -/
def applyTxn (db : LedgerAndState τ ν) (txn : τ) : LedgerAndState τ ν where
  ledger := db.ledger.appendTxns root [txn]
  state := updateState false [withSeqNo txn (db.ledger.uncommittedSize + 1)] db.state

/-- what catching up a transaction does: `ledger.add`, then `postTxnFromCatchupAddedToLedger` -/
def addFromCatchup (db : LedgerAndState τ ν) (txn : τ) : LedgerAndState τ ν where
  ledger := db.ledger.appendCommittedTxns [txn]
  state := postTxnFromCatchupAddedToLedger updateState db.state (withSeqNo txn (db.ledger.txns.length + 1))

def catchUpFrom (db : LedgerAndState τ ν) (txns : List τ) : LedgerAndState τ ν :=
  txns.foldl (addFromCatchup updateState withSeqNo) db

/-- the committed state is that of the committed transactions; the uncommitted ones are applied on top of it -/
structure Applied (db : LedgerAndState τ ν) : Prop where
  ledger : db.ledger.Consistent root
  committed : db.state.committedHeadHash = stateOfTxns updateState withSeqNo db.ledger.txns
  head : db.state.headHash = stateOfTxns updateState withSeqNo (db.ledger.txns ++ db.ledger.uncommittedTxns)

/-- the committed records are those that the committed transactions leave -/
def CommittedClean (db : LedgerAndState τ ν) : Prop :=
  ∀ key, db.state.committedHeadHash.get? key = (stateOfTxns updateState withSeqNo db.ledger.txns).get? key

/-- nothing is uncommitted, or the uncommitted root is that of the ledger with the uncommitted transactions -/
def UncommittedRootOk (db : LedgerAndState τ ν) : Prop :=
  (db.ledger.uncommittedTxns = [] ∧ db.ledger.uncommittedRootHash = none) ∨
    db.ledger.uncommittedRootHash = some (root (db.ledger.txns ++ db.ledger.uncommittedTxns))

/-- a catch-up of the transactions keeps committed data free of uncommitted effects -/
structure Clean (db : LedgerAndState τ ν) (txns : List τ) : Prop where
  committed : ∀ added, added <+: txns → added ≠ [] →
    (db.catchUpFrom updateState withSeqNo added).CommittedClean updateState withSeqNo
  uncommitted : (db.catchUpFrom updateState withSeqNo txns).UncommittedRootOk root

end LedgerAndState

end Handler

namespace LedgerAndState

variable {τ ν : Type} {updateState : Bool → List τ → State (Dict String ν) → State (Dict String ν)}
  {withSeqNo : τ → ℕ → τ} {root : List τ → String} {u : KeyedMerge τ String ν} {db : LedgerAndState τ ν}

/-! ## Batches -/

theorem txnsWithSeqNo_concat (seqNoStart : ℕ) (txns : List τ) (txn : τ) :
    txnsWithSeqNo withSeqNo seqNoStart (txns ++ [txn]) =
      txnsWithSeqNo withSeqNo seqNoStart txns ++ [withSeqNo txn (seqNoStart + txns.length)] := by
  unfold txnsWithSeqNo
  rw [List.zipIdx_append, List.map_append]
  rfl

theorem stateOfTxns_eq (h : UpdatesBy updateState u) (txns : List τ) :
    stateOfTxns updateState withSeqNo txns = u.replay (txnsWithSeqNo withSeqNo 1 txns) Dict.empty := by
  unfold stateOfTxns
  rw [h]
  rfl

/-- one more transaction is written over the state of the others -/
theorem stateOfTxns_concat (h : UpdatesBy updateState u) (txns : List τ) (txn : τ) :
    stateOfTxns updateState withSeqNo (txns ++ [txn]) =
      u.write (stateOfTxns updateState withSeqNo txns) (stateOfTxns updateState withSeqNo txns)
        (withSeqNo txn (txns.length + 1)) := by
  rw [stateOfTxns_eq h, stateOfTxns_eq h, txnsWithSeqNo_concat, KeyedMerge.replay, List.foldl_append, Nat.add_comm 1]
  rfl

theorem applied_empty (h : UpdatesBy updateState u) :
    (⟨Ledger.empty, State.empty⟩ : LedgerAndState τ ν).Applied updateState withSeqNo root :=
  ⟨Ledger.empty_consistent, (stateOfTxns_eq h []).symm, (stateOfTxns_eq h []).symm⟩

/-- a request of a batch leaves uncommitted what it does -/
theorem Applied.apply (h : UpdatesBy updateState u) (hdb : db.Applied updateState withSeqNo root) (txn : τ) :
    (db.applyTxn updateState withSeqNo root txn).Applied updateState withSeqNo root := by
  have hsingle := h false [withSeqNo txn (db.ledger.uncommittedSize + 1)] db.state
  refine ⟨Ledger.appendTxns_consistent hdb.ledger (List.cons_ne_nil _ _), ?_, ?_⟩
  · simp only [applyTxn, hsingle, hdb.committed]
    rfl
  · simp only [applyTxn, hsingle, Ledger.appendTxns_txns, Ledger.appendTxns_uncommittedTxns]
    rw [← List.append_assoc, stateOfTxns_concat h, ← hdb.head, List.length_append]
    rfl

/-- so does the commit of a batch that is the first one to be executed -/
theorem Applied.commit (hdb : db.Applied updateState withSeqNo root) (count : ℕ) :
    Applied updateState withSeqNo root
      { ledger := (db.ledger.commitTxns count).1,
        state := db.state.commit
          (stateOfTxns updateState withSeqNo (db.ledger.txns ++ db.ledger.uncommittedTxns.take count)) } := by
  refine ⟨Ledger.commitTxns_consistent hdb.ledger count, rfl, ?_⟩
  have hsplit := List.take_append_drop count db.ledger.uncommittedTxns
  simp only [Ledger.commitTxns, State.commit, hdb.head]
  rw [List.append_assoc, hsplit]

/-! ## Catch-up -/

@[simp] theorem catchUpFrom_nil : db.catchUpFrom updateState withSeqNo [] = db := rfl

theorem catchUpFrom_cons (txn : τ) (txns : List τ) : db.catchUpFrom updateState withSeqNo (txn :: txns) =
    (db.addFromCatchup updateState withSeqNo txn).catchUpFrom updateState withSeqNo txns := rfl

/-- the ledger has the transactions, and what was uncommitted is left as it is -/
theorem ledger_catchUpFrom (db : LedgerAndState τ ν) (txns : List τ) :
    (db.catchUpFrom updateState withSeqNo txns).ledger = { db.ledger with txns := db.ledger.txns ++ txns } := by
  induction txns generalizing db with
  | nil => simp
  | cons txn txns ih =>
    rw [catchUpFrom_cons, ih]
    simp [addFromCatchup, Ledger.appendCommittedTxns]

/-- with nothing uncommitted, a transaction that is caught up is like one that is ordered -/
theorem Applied.addFromCatchup (h : UpdatesBy updateState u) (hdb : db.Applied updateState withSeqNo root)
    (hnone : db.ledger.uncommittedTxns = []) (txn : τ) :
    (db.addFromCatchup updateState withSeqNo txn).Applied updateState withSeqNo root := by
  have hhead : db.state.headHash = stateOfTxns updateState withSeqNo db.ledger.txns := by
    rw [hdb.head, hnone, List.append_nil]
  have hstate : db.state = ⟨stateOfTxns updateState withSeqNo db.ledger.txns,
      stateOfTxns updateState withSeqNo db.ledger.txns⟩ := by
    calc db.state = ⟨db.state.headHash, db.state.committedHeadHash⟩ := rfl
      _ = _ := by rw [hhead, hdb.committed]
  have hnew : (db.addFromCatchup updateState withSeqNo txn).state =
      ⟨stateOfTxns updateState withSeqNo (db.ledger.txns ++ [txn]),
        stateOfTxns updateState withSeqNo (db.ledger.txns ++ [txn])⟩ := by
    simp only [LedgerAndState.addFromCatchup, postTxnFromCatchupAddedToLedger]
    rw [hstate, h.single, stateOfTxns_concat h]
    rfl
  refine ⟨⟨?_, hdb.ledger.rootHash⟩, ?_, ?_⟩
  · have htree := hdb.ledger.tree
    rw [if_pos hnone] at htree
    exact htree.trans (if_pos hnone).symm
  · rw [hnew]
    rfl
  · rw [hnew]
    simp [LedgerAndState.addFromCatchup, Ledger.appendCommittedTxns, hnone]

/-- **The run lemma.** -/
theorem Applied.catchUpFrom (h : UpdatesBy updateState u) (hdb : db.Applied updateState withSeqNo root)
    (hnone : db.ledger.uncommittedTxns = []) (txns : List τ) :
    (db.catchUpFrom updateState withSeqNo txns).Applied updateState withSeqNo root := by
  induction txns generalizing db with
  | nil => exact hdb
  | cons txn txns ih => exact ih (hdb.addFromCatchup h hnone txn) hnone

/-- different sizes, different roots -/
def SizesDiffer (root : List τ → String) : Prop := ∀ l l', root l = root l' → l.length = l'.length

theorem clean_iff (h : UpdatesBy updateState u) (hroot : SizesDiffer root) (hdb : db.Applied updateState withSeqNo root)
    (txns : List τ) : db.Clean updateState withSeqNo root txns ↔ db.ledger.uncommittedTxns = [] ∨ txns = [] := by
  have hrootHash := hdb.ledger.rootHash
  rw [hdb.ledger.tree] at hrootHash
  constructor
  · -- the root is still that of the ledger before the catch-up
    intro hclean
    have hok := hclean.uncommitted
    unfold UncommittedRootOk at hok
    rw [ledger_catchUpFrom] at hok
    rcases hok with ⟨hnone, -⟩ | hsome
    · exact Or.inl hnone
    · by_cases hnone : db.ledger.uncommittedTxns = []
      · exact Or.inl hnone
      · rw [if_neg hnone, Option.map_some] at hrootHash
        have hlen := hroot _ _ (Option.some.inj (hrootHash.symm.trans hsome))
        simp only [List.length_append] at hlen
        exact Or.inr (List.length_eq_zero_iff.1 (by omega))
  · rintro (hnone | rfl)
    · refine ⟨fun added _ _ key => ?_, Or.inl ?_⟩
      · rw [(hdb.catchUpFrom h hnone added).committed]
      · rw [ledger_catchUpFrom]
        rw [if_pos hnone] at hrootHash
        exact ⟨hnone, hrootHash⟩
    · refine ⟨fun added hpre hne => absurd (List.prefix_nil.1 hpre) hne, ?_⟩
      unfold UncommittedRootOk
      rw [catchUpFrom_nil]
      by_cases hnone : db.ledger.uncommittedTxns = []
      · rw [if_pos hnone] at hrootHash
        exact Or.inl ⟨hnone, hrootHash⟩
      · rw [if_neg hnone] at hrootHash
        exact Or.inr hrootHash

end LedgerAndState

/-! ## The loop of the ledger manager -/

section Manager

variable {τ ν : Type} (updateState : LedgerId → Bool → List τ → State (Dict String ν) → State (Dict String ν))

/-- a node of which only the ledgers and states matter -/
def dbsOwner (totalNodes f : ℕ) : LedgerOwner (Dbs (Dict String ν) τ) τ where
  totalNodes := totalNodes
  f := f
  isClient _ := false
  conns _ := []
  connecteds _ := []
  ppSeqNoForTxnSeqNo _ _ seqNo := seqNo
  ledgers := Dbs.ledgers
  setLedgers dbs ledgers := { dbs with ledgers := ledgers }
  blacklistNode dbs _ := dbs
  preDomainLedgerCatchUp dbs := dbs
  poolLedgerCaughtUp := pure ()
  postTxnFromCatchupAddedToLedger lid txn := modify fun dbs => { dbs with
    states := dbs.states.set lid (postTxnFromCatchupAddedToLedger (updateState lid) (dbs.states.get lid) txn) }
  allLedgersCaughtUp _ := pure ()
  ledgers_setLedgers _ _ := rfl
  ledgers_blacklistNode _ _ := rfl
  ledgers_preDomainLedgerCatchUp _ := rfl
  ledgers_poolLedgerCaughtUp _ := rfl
  ledgers_postTxn _ _ _ := rfl

/-- a ledger of the node with its state -/
def Dbs.part (dbs : Dbs (Dict String ν) τ) (lid : LedgerId) : LedgerAndState τ ν :=
  ⟨dbs.ledgers.get lid, dbs.states.get lid⟩

/-- the loop that adds verified transactions catches the ledger and its state up -/
theorem exec_addCatchupTxns {env : LedgerEnv τ} (henv : ∀ txn, env.transformTxnForLedger txn = txn) (totalNodes f : ℕ)
    (lid : LedgerId) (replies : List (CatchupTxn τ)) (s : LedgerManager (Dbs (Dict String ν) τ) τ) :
    let r := exec (LedgerManager.addCatchupTxns env (dbsOwner updateState totalNodes f) lid replies) s
    r.1 = .ok () ∧ r.2.owner.part lid =
      (s.owner.part lid).catchUpFrom (updateState lid) env.withSeqNo (replies.map Prod.snd) := by
  induction replies generalizing s with
  | nil => exact ⟨rfl, rfl⟩
  | cons reply replies ih =>
    obtain ⟨seqNo, txn⟩ := reply
    let ledgers := s.owner.ledgers.set lid
      ((s.owner.ledgers.get lid).appendCommittedTxns [env.transformTxnForLedger txn])
    let state := postTxnFromCatchupAddedToLedger (updateState lid) (s.owner.states.get lid)
      (env.withSeqNo txn (ledgers.get lid).txns.length)
    let s' := s.setOwner { ledgers := ledgers, states := s.owner.states.set lid state }
    have hs' : exec (LedgerManager.addCatchupTxns env (dbsOwner updateState totalNodes f) lid
        ((seqNo, txn) :: replies)) s =
          exec (LedgerManager.addCatchupTxns env (dbsOwner updateState totalNodes f) lid replies) s' := rfl
    have hpart : s'.owner.part lid = (s.owner.part lid).addFromCatchup (updateState lid) env.withSeqNo txn := by
      simp [s', state, ledgers, LedgerManager.setOwner, Dbs.part, LedgerAndState.addFromCatchup, henv,
        Ledger.appendCommittedTxns]
    rw [hs', List.map_cons, LedgerAndState.catchUpFrom_cons, ← hpart]
    exact ih s'

end Manager

/-! ## The two ledgers of a node -/

/-- the domain handler's `apply` is `applyTxn` -/
theorem DomainRequestHandler.apply_eq_applyTxn (root : List DomainTxn → String)
    (db : LedgerAndState DomainTxn NymData) (req : Request DomainOperation) :
    (DomainRequestHandler.apply root db.ledger db.state req).2 =
      ((db.applyTxn DomainRequestHandler.updateState DomainRequestHandler.withSeqNo root
          (DomainRequestHandler.reqToTxn req)).ledger,
        (db.applyTxn DomainRequestHandler.updateState DomainRequestHandler.withSeqNo root
          (DomainRequestHandler.reqToTxn req)).state) := rfl

open LedgerAndState in
/-- **When a catch-up keeps committed data free of uncommitted effects.** For the domain and for the pool ledger: if and
only if nothing was uncommitted, or nothing is caught up. -/
theorem catchup_clean_iff {ν : Type} {domainRoot : List DomainTxn → String} {poolRoot : List (PoolTxn ν) → String}
    (hdomain : SizesDiffer domainRoot) (hpool : SizesDiffer poolRoot) :
    (∀ db : LedgerAndState DomainTxn NymData,
      db.Applied DomainRequestHandler.updateState DomainRequestHandler.withSeqNo domainRoot → ∀ txns,
        (db.Clean DomainRequestHandler.updateState DomainRequestHandler.withSeqNo domainRoot txns ↔
          db.ledger.uncommittedTxns = [] ∨ txns = [])) ∧
    (∀ db : LedgerAndState (PoolTxn ν) (NodeData ν),
      db.Applied PoolRequestHandler.updateState PoolRequestHandler.withSeqNo poolRoot → ∀ txns,
        (db.Clean PoolRequestHandler.updateState PoolRequestHandler.withSeqNo poolRoot txns ↔
          db.ledger.uncommittedTxns = [] ∨ txns = [])) :=
  ⟨fun _ hdb => clean_iff DomainRequestHandler.domain_updatesBy hdomain hdb,
    fun _ hdb => clean_iff PoolRequestHandler.pool_updatesBy hpool hdb⟩

/-! ## Witnesses -/

namespace LeftOver

/-- one character for each leaf -/
def domainRoot (txns : List DomainTxn) : String := String.ofList (txns.map fun _ => 'd')

def poolRoot (txns : List (PoolTxn String)) : String := String.ofList (txns.map fun _ => 'p')

theorem sizesDiffer_ofList {τ : Type} (c : τ → Char) :
    LedgerAndState.SizesDiffer fun txns : List τ => String.ofList (txns.map c) := by
  intro l l' h
  have hlist := congrArg String.toList h
  simp only [String.toList_ofList] at hlist
  simpa using congrArg List.length hlist

/-- a steward adds a nym -/
def addNym (reqId : ℕ) (nym : String) : DomainTxn := ⟨"steward", reqId, "", ⟨NYM, nym, none, none⟩, none⟩

/-- a request is applied that the other nodes have not ordered -/
def leftOver : LedgerAndState DomainTxn NymData :=
  (⟨Ledger.empty, State.empty⟩ : LedgerAndState DomainTxn NymData).applyTxn DomainRequestHandler.updateState
    DomainRequestHandler.withSeqNo domainRoot (addNym 1 "alice")

theorem leftOver_applied :
    leftOver.Applied DomainRequestHandler.updateState DomainRequestHandler.withSeqNo domainRoot :=
  (LedgerAndState.applied_empty DomainRequestHandler.domain_updatesBy).apply DomainRequestHandler.domain_updatesBy _

/-- after the catch-up of a transaction that the other nodes have ordered -/
def caughtUp : LedgerAndState DomainTxn NymData :=
  leftOver.catchUpFrom DomainRequestHandler.updateState DomainRequestHandler.withSeqNo [addNym 2 "bob"]

end LeftOver

open LeftOver in
/-- **An uncommitted request that enters the committed state.** It is not in the ledger, and the uncommitted root is
none of the ledger's. -/
theorem uncommitted_committed :
    leftOver.Applied DomainRequestHandler.updateState DomainRequestHandler.withSeqNo domainRoot ∧
    caughtUp.ledger.txns = [addNym 2 "bob"] ∧ (caughtUp.state.committedHeadHash.get? "alice").isSome ∧
    ¬ caughtUp.CommittedClean DomainRequestHandler.updateState DomainRequestHandler.withSeqNo ∧
    ¬ caughtUp.UncommittedRootOk domainRoot ∧
    ¬ leftOver.Clean DomainRequestHandler.updateState DomainRequestHandler.withSeqNo domainRoot [addNym 2 "bob"] := by
  have hroot : ¬ caughtUp.UncommittedRootOk domainRoot := by
    unfold LedgerAndState.UncommittedRootOk
    decide +kernel
  refine ⟨leftOver_applied, by decide +kernel, by decide +kernel, fun h => ?_, hroot, fun h => hroot h.uncommitted⟩
  exact absurd (h "alice") (by decide +kernel)

open LeftOver in
theorem catchup_clean_iff_leftOver :
    LedgerAndState.SizesDiffer domainRoot ∧ LedgerAndState.SizesDiffer poolRoot ∧
    (leftOver.Clean DomainRequestHandler.updateState DomainRequestHandler.withSeqNo domainRoot [addNym 2 "bob"] ↔
      leftOver.ledger.uncommittedTxns = [] ∨ [addNym 2 "bob"] = []) :=
  ⟨sizesDiffer_ofList _, sizesDiffer_ofList _,
    (catchup_clean_iff (sizesDiffer_ofList fun _ => 'd') (@sizesDiffer_ofList (PoolTxn String) fun _ => 'p')).1
      leftOver leftOver_applied [addNym 2 "bob"]⟩

end Plenum
