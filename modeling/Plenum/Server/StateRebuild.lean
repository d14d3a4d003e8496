/-
The state that a node rebuilds from its ledger, against the state that catching up or ordering builds.

- `initStateFromLedger` updates an empty state with all the leaves of the ledger, as committed ones, and commits once;
  every record is read back from the committed head, which stays empty meanwhile. `catchUp` and `order` give each
  transaction its sequence number (`txnsWithSeqNo`), and update and commit after each.
- `UpdatesBy`: a handler's `updateState` is a keyed merge. Both handlers are (`domain_updatesBy`, `pool_updatesBy`), so
  the rebuilt state has the last leaf of each key alone, and the other two the fold of its numbered transactions.
- `initStateFromLedger_iff`: the states agree if and only if the last transaction of each nym, and of each node, says
  all that its earlier ones left, and the last one of a nym carries its sequence number on the ledger.
- `rebuilt_differs`: they do not agree in general.
-/
import Mathlib.Tactic
import Plenum.Core.KeyedFold
import Plenum.Server.ReqHandler

namespace Plenum

open Plenum.Core

/-! ## The three ways to build a state -/

section Paths

variable {ρ ν : Type} (updateState : Bool → List ρ → State (Dict String ν) → State (Dict String ν))

/-- the transactions with their sequence numbers -/
def txnsWithSeqNo (withSeqNo : ρ → ℕ → ρ) (seqNoStart : ℕ) (txns : List ρ) : List ρ :=
  (txns.zipIdx seqNoStart).map fun e => withSeqNo e.1 e.2

/-- `txns` are the leaves of the ledger as they stand there -/
def initStateFromLedger (txns : List ρ) (state : State (Dict String ν)) : State (Dict String ν) :=
  if state.isEmpty then
    let state := updateState true txns state
    state.commit state.headHash
  else state

/-- what `postTxnFromCatchupAddedToLedger` does to the state -/
def postTxnFromCatchupAddedToLedger (state : State (Dict String ν)) (txn : ρ) : State (Dict String ν) :=
  let state := updateState true [txn] state
  state.commit state.headHash

def catchUp (txns : List ρ) : State (Dict String ν) :=
  txns.foldl (postTxnFromCatchupAddedToLedger updateState) State.empty

/-- what ordering a batch of one request does to the state: `apply`, then `commit` to the root after it -/
def applyAndCommit (state : State (Dict String ν)) (txn : ρ) : State (Dict String ν) :=
  let state := updateState false [txn] state
  state.commit state.headHash

def order (txns : List ρ) : State (Dict String ν) := txns.foldl (applyAndCommit updateState) State.empty

/-- the handler's update is a keyed merge into the head, which reads from the head or from the committed head -/
def UpdatesBy (u : KeyedMerge ρ String ν) : Prop :=
  ∀ isCommitted txns state, updateState isCommitted txns state =
    { state with headHash := if isCommitted then u.replayOver state.committedHeadHash txns state.headHash
                             else u.replay txns state.headHash }

variable {updateState} {u : KeyedMerge ρ String ν}

theorem UpdatesBy.initStateFromLedger (h : UpdatesBy updateState u) (txns : List ρ) :
    (initStateFromLedger updateState txns State.empty).committedHeadHash =
      u.replayOver Dict.empty txns Dict.empty := by
  have hempty : (State.empty : State (Dict String ν)).isEmpty = true := rfl
  rw [Plenum.initStateFromLedger, if_pos hempty, h]
  rfl

/-- on a committed head one transaction does the same whichever head it is read from -/
theorem UpdatesBy.single (h : UpdatesBy updateState u) (isCommitted : Bool) (d : Dict String ν) (txn : ρ) :
    updateState isCommitted [txn] ⟨d, d⟩ = ⟨u.write d d txn, d⟩ := by
  rw [h]
  cases isCommitted <;> rfl

theorem UpdatesBy.foldl_single (h : UpdatesBy updateState u) (isCommitted : Bool) (txns : List ρ)
    (d : Dict String ν) :
    txns.foldl (fun state txn => (updateState isCommitted [txn] state).commit
      (updateState isCommitted [txn] state).headHash) ⟨d, d⟩ = ⟨u.replay txns d, u.replay txns d⟩ := by
  induction txns generalizing d with
  | nil => rfl
  | cons txn txns ih =>
    rw [List.foldl_cons, h.single]
    exact ih (u.write d d txn)

theorem UpdatesBy.catchUp (h : UpdatesBy updateState u) (txns : List ρ) :
    (catchUp updateState txns).committedHeadHash = u.replay txns Dict.empty :=
  congrArg State.committedHeadHash (h.foldl_single true txns Dict.empty)

theorem UpdatesBy.order (h : UpdatesBy updateState u) (txns : List ρ) :
    (order updateState txns).committedHeadHash = u.replay txns Dict.empty :=
  congrArg State.committedHeadHash (h.foldl_single false txns Dict.empty)

/-- two states have the same committed records, as far as `view` can see -/
def SameContent {β : Type} (view : ν → β) (s s' : State (Dict String ν)) : Prop :=
  ∀ key, (s.committedHeadHash.get? key).map view = (s'.committedHeadHash.get? key).map view

/-- The state rebuilt from the leaves of a ledger is the one that catching up builds, and the one that ordering builds.
These two number the transactions. -/
def RebuildsAlike {β : Type} (updateState : Bool → List ρ → State (Dict String ν) → State (Dict String ν))
    (withSeqNo : ρ → ℕ → ρ) (view : ν → β) (leaves : List ρ) : Prop :=
  SameContent view (Plenum.initStateFromLedger updateState leaves State.empty)
      (Plenum.catchUp updateState (txnsWithSeqNo withSeqNo 1 leaves)) ∧
    SameContent view (Plenum.initStateFromLedger updateState leaves State.empty)
      (Plenum.order updateState (txnsWithSeqNo withSeqNo 1 leaves))

/-- the transactions of a key, each with its sequence number -/
def numberedOf (u : KeyedMerge ρ String ν) (key : String) (leaves : List ρ) : List (ρ × ℕ) :=
  (leaves.zipIdx 1).filter fun e => u.key e.1 = some key

theorem numberedOf_map_fst (u : KeyedMerge ρ String ν) (key : String) (leaves : List ρ) :
    (numberedOf u key leaves).map Prod.fst = u.recordsOf key leaves := by
  have hfst : (leaves.zipIdx 1).map Prod.fst = leaves := List.zipIdx_map_fst 1 leaves
  have hrecords := u.recordsOf_map Prod.fst key (leaves.zipIdx 1)
  rw [hfst] at hrecords
  exact hrecords.symm

theorem UpdatesBy.rebuildsAlike_iff {β : Type} (h : UpdatesBy updateState u) {withSeqNo : ρ → ℕ → ρ}
    (hkey : ∀ txn seqNo, u.key (withSeqNo txn seqNo) = u.key txn) (view : ν → β) (leaves : List ρ) :
    RebuildsAlike updateState withSeqNo view leaves ↔
      ∀ key e, (numberedOf u key leaves).getLast? = some e →
        some (view (u.merge none e.1)) =
          (u.mergeAll ((numberedOf u key leaves).map fun e => withSeqNo e.1 e.2) none).map view := by
  have hfst : leaves = (leaves.zipIdx 1).map Prod.fst := (List.zipIdx_map_fst 1 leaves).symm
  have hsame := u.sameUnder_iff (f := Prod.fst) (g := fun e => withSeqNo e.1 e.2) view
    (fun e => hkey e.1 e.2) (leaves.zipIdx 1)
  rw [← hfst] at hsame
  rw [RebuildsAlike, SameContent, SameContent, h.initStateFromLedger, h.catchUp, h.order, and_self]
  exact hsame

end Paths

/-- the last value that a transaction of the list gives -/
def lastGiven {ρ α : Type} (field : ρ → Option α) (txns : List ρ) : Option α := (txns.filterMap field).getLast?

theorem lastGiven_concat {ρ α : Type} (field : ρ → Option α) (txns : List ρ) (txn : ρ) :
    lastGiven field (txns ++ [txn]) = (field txn).or (lastGiven field txns) := by
  unfold lastGiven
  rw [List.filterMap_append]
  cases h : field txn with
  | none => simp [h]
  | some a => simp [h]

theorem mergeAll_concat {ρ κ ν : Type} (u : KeyedMerge ρ κ ν) (rs : List ρ) (r : ρ) (v : Option ν) :
    u.mergeAll (rs ++ [r]) v = some (u.merge (u.mergeAll rs v) r) := by
  rw [KeyedMerge.mergeAll, List.foldl_append]
  rfl

/-! ## NYM transactions -/

namespace DomainRequestHandler

def nymMerge : KeyedMerge DomainTxn String NymData where
  key txn := if txn.operation.type = NYM then some txn.operation.dest else none
  merge := nymAfter

theorem domain_updatesBy : UpdatesBy updateState nymMerge := by
  intro isCommitted txns state
  induction txns generalizing state with
  | nil => cases isCommitted <;> rfl
  | cons txn txns ih =>
    change updateState isCommitted txns (updateStateWithSingleTxn isCommitted state txn) = _
    have hone : updateStateWithSingleTxn isCommitted state txn = { state with
        headHash := nymMerge.write (if isCommitted then state.committedHeadHash else state.headHash) state.headHash
          txn } := by
      unfold updateStateWithSingleTxn KeyedMerge.write nymMerge
      by_cases ht : txn.operation.type = NYM
      · simp only [ht, if_true]
        cases isCommitted <;> rfl
      · simp only [ht, if_false]
    rw [ih, hone]
    cases isCommitted <;> rfl

def withSeqNo (txn : DomainTxn) (seqNo : ℕ) : DomainTxn := { txn with seqNo := some seqNo }

/-- the transactions of a nym -/
def txnsOf (nym : String) (txns : List DomainTxn) : List DomainTxn :=
  txns.filter fun txn => txn.operation.type = NYM ∧ txn.operation.dest = nym

theorem recordsOf_nymMerge (nym : String) (txns : List DomainTxn) :
    nymMerge.recordsOf nym txns = txnsOf nym txns := by
  refine List.filter_congr fun txn _ => ?_
  unfold nymMerge
  by_cases ht : txn.operation.type = NYM <;> simp [ht]

/-- the author, role and verkey that the transactions of a nym leave are those that the last of them leaves alone -/
structure LastDecides (txns : List DomainTxn) (last : DomainTxn) : Prop where
  identifier : ∀ first, txns.head? = some first → last.identifier = first.identifier
  role : last.operation.role.getD none = (lastGiven (fun txn => txn.operation.role) txns).getD none
  verkey : last.operation.verkey.getD none = (lastGiven (fun txn => txn.operation.verkey) txns).getD none

/-- the record that the transactions of a nym leave -/
theorem mergeAll_nymMerge (first : DomainTxn) (txns : List DomainTxn) :
    nymMerge.mergeAll (first :: txns) none = some
      { identifier := first.identifier,
        role := (lastGiven (fun txn => txn.operation.role) (first :: txns)).getD none,
        verkey := (lastGiven (fun txn => txn.operation.verkey) (first :: txns)).getD none,
        seqNo := (first :: txns).getLast?.bind DomainTxn.seqNo } := by
  induction txns using List.reverseRecOn with
  | nil =>
    have hrole := lastGiven_concat (fun txn : DomainTxn => txn.operation.role) [] first
    have hverkey := lastGiven_concat (fun txn : DomainTxn => txn.operation.verkey) [] first
    rw [List.nil_append] at hrole hverkey
    rw [hrole, hverkey]
    cases hr : first.operation.role <;> cases hv : first.operation.verkey <;>
      simp [KeyedMerge.mergeAll, nymMerge, nymAfter, lastGiven, hr, hv]
  | append_singleton txns txn ih =>
    have hlast : (first :: txns ++ [txn]).getLast? = some txn := List.getLast?_concat
    rw [← List.cons_append, hlast, mergeAll_concat, ih, lastGiven_concat, lastGiven_concat]
    cases hr : txn.operation.role <;> cases hv : txn.operation.verkey <;>
      simp [nymMerge, nymAfter, hr, hv]

/-- what a nym's record says but for the sequence number -/
def nymContent (data : NymData) : String × Option String × Option String := (data.identifier, data.role, data.verkey)

/-- the record that the transactions of a nym leave once they are numbered -/
theorem mergeAll_numbered {es : List (DomainTxn × ℕ)} {e : DomainTxn × ℕ} (hlast : es.getLast? = some e) :
    ∃ first, (es.map Prod.fst).head? = some first ∧
      nymMerge.mergeAll (es.map fun e => withSeqNo e.1 e.2) none = some
        { identifier := first.identifier,
          role := (lastGiven (fun txn => txn.operation.role) (es.map Prod.fst)).getD none,
          verkey := (lastGiven (fun txn => txn.operation.verkey) (es.map Prod.fst)).getD none,
          seqNo := some e.2 } := by
  cases es with
  | nil => cases hlast
  | cons first es =>
    refine ⟨first.1, rfl, ?_⟩
    -- a number changes none of the fields that are given
    have hgiven : ∀ {α : Type} (field : DomainTxn → Option α) (hfield : ∀ txn n, field (withSeqNo txn n) = field txn),
        lastGiven field ((first :: es).map fun e => withSeqNo e.1 e.2) =
          lastGiven field ((first :: es).map Prod.fst) := by
      intro α field hfield
      unfold lastGiven
      rw [List.filterMap_map, List.filterMap_map]
      congr 2
      exact funext fun e => hfield e.1 e.2
    have hnumber : (withSeqNo first.1 first.2 :: es.map fun e => withSeqNo e.1 e.2).getLast? =
        some (withSeqNo e.1 e.2) := by
      rw [← List.map_cons (f := fun e : DomainTxn × ℕ => withSeqNo e.1 e.2), List.getLast?_map, hlast]
      rfl
    rw [List.map_cons, mergeAll_nymMerge, hnumber, ← List.map_cons (f := fun e : DomainTxn × ℕ => withSeqNo e.1 e.2),
      hgiven _ fun _ _ => rfl, hgiven _ fun _ _ => rfl]
    rfl

theorem lastDecides_iff {es : List (DomainTxn × ℕ)} {e : DomainTxn × ℕ} (hlast : es.getLast? = some e) :
    some (nymContent (nymMerge.merge none e.1)) =
        (nymMerge.mergeAll (es.map fun e => withSeqNo e.1 e.2) none).map nymContent ↔
      LastDecides (es.map Prod.fst) e.1 := by
  obtain ⟨first, hfirst, hrecord⟩ := mergeAll_numbered hlast
  rw [hrecord]
  simp only [nymMerge, nymAfter, nymContent, Option.getD_none, Option.map_some, Option.some.injEq, Prod.mk.injEq]
  constructor
  · rintro ⟨h1, h2, h3⟩
    exact ⟨fun first' hf => by rw [hfirst] at hf; cases hf; exact h1, h2, h3⟩
  · rintro ⟨h1, h2, h3⟩
    exact ⟨h1 first hfirst, h2, h3⟩

/-- with the sequence number the leaf has to have it as well -/
theorem record_eq_iff {es : List (DomainTxn × ℕ)} {e : DomainTxn × ℕ} (hlast : es.getLast? = some e) :
    some (nymMerge.merge none e.1) = nymMerge.mergeAll (es.map fun e => withSeqNo e.1 e.2) none ↔
      LastDecides (es.map Prod.fst) e.1 ∧ e.1.seqNo = some e.2 := by
  rw [← lastDecides_iff hlast]
  obtain ⟨first, -, hrecord⟩ := mergeAll_numbered hlast
  rw [hrecord]
  simp only [nymMerge, nymAfter, nymContent, Option.getD_none, Option.map_some, Option.some.injEq, Prod.mk.injEq,
    NymData.mk.injEq]
  tauto

theorem rebuildsAlike_iff {β : Type} (view : NymData → β) (leaves : List DomainTxn) :
    RebuildsAlike updateState withSeqNo view leaves ↔
      ∀ nym e, (numberedOf nymMerge nym leaves).getLast? = some e →
        some (view (nymMerge.merge none e.1)) =
          (nymMerge.mergeAll ((numberedOf nymMerge nym leaves).map fun e => withSeqNo e.1 e.2) none).map view :=
  have hkey : ∀ txn seqNo, nymMerge.key (withSeqNo txn seqNo) = nymMerge.key txn := fun _ _ => rfl
  domain_updatesBy.rebuildsAlike_iff hkey view leaves

end DomainRequestHandler

/-! ## NODE transactions -/

namespace PoolRequestHandler

variable {ν : Type}

def nodeMerge : KeyedMerge (PoolTxn ν) String (NodeData ν) where
  key txn := some txn.dest
  merge existing txn := nodeAfter (existing.getD Dict.empty) txn

theorem nodeMerge_none (txn : PoolTxn ν) : nodeMerge.merge none txn = nodeAfter Dict.empty txn := rfl

theorem nodeMerge_some (existing : NodeData ν) (txn : PoolTxn ν) :
    nodeMerge.merge (some existing) txn = nodeAfter existing txn := rfl

theorem pool_updatesBy : UpdatesBy (updateState (ν := ν)) nodeMerge := by
  intro isCommitted txns state
  induction txns generalizing state with
  | nil => cases isCommitted <;> rfl
  | cons txn txns ih =>
    change updateState isCommitted txns (updateStateWithSingleTxn isCommitted state txn) = _
    rw [ih]
    cases isCommitted <;> rfl

/-- the records of nodes have no sequence numbers -/
def withSeqNo (txn : PoolTxn ν) (_ : ℕ) : PoolTxn ν := txn

/-- the transactions of a node -/
def txnsOf (nym : String) (txns : List (PoolTxn ν)) : List (PoolTxn ν) := txns.filter fun txn => txn.dest = nym

theorem recordsOf_nodeMerge (nym : String) (txns : List (PoolTxn ν)) :
    nodeMerge.recordsOf nym txns = txnsOf nym txns := by
  refine List.filter_congr fun txn _ => ?_
  simp [nodeMerge]

/-- what the record of a node says about its author before any `DATA` -/
def authorAt (txn : Option (PoolTxn ν)) (key : String) : Option ν :=
  if key = IDENTIFIER then txn.map PoolTxn.identifier else none

/-- the values that the transactions of a node leave are those that the last of them leaves alone -/
def LastDecides (txns : List (PoolTxn ν)) (last : PoolTxn ν) : Prop :=
  ∀ key, (last.data.get? key).or (authorAt (some last) key) =
    (lastGiven (fun txn => txn.data.get? key) txns).or (authorAt txns.head? key)

theorem get?_nodeAfter_empty (txn : PoolTxn ν) (key : String) :
    (nodeAfter Dict.empty txn).get? key = (txn.data.get? key).or (authorAt (some txn) key) := by
  have hsize : (Dict.empty : NodeData ν).size = 0 := rfl
  rw [nodeAfter, if_pos hsize, Dict.get?_update, Dict.get?_set]
  rfl

theorem get?_nodeAfter {existing : NodeData ν} (h : existing.size ≠ 0) (txn : PoolTxn ν) (key : String) :
    (nodeAfter existing txn).get? key = (txn.data.get? key).or (existing.get? key) := by
  rw [nodeAfter, if_neg h, Dict.get?_update]

/-- the record that the transactions of a node leave -/
theorem mergeAll_nodeMerge (first : PoolTxn ν) (txns : List (PoolTxn ν)) :
    ∃ data, nodeMerge.mergeAll (first :: txns) none = some data ∧ (data.get? IDENTIFIER).isSome ∧
      ∀ key, data.get? key =
        (lastGiven (fun txn => txn.data.get? key) (first :: txns)).or (authorAt (some first) key) := by
  induction txns using List.reverseRecOn with
  | nil =>
    refine ⟨_, rfl, ?_, fun key => ?_⟩
    · rw [nodeMerge_none, get?_nodeAfter_empty]
      simp [authorAt]
    · have hgiven := lastGiven_concat (fun txn : PoolTxn ν => txn.data.get? key) [] first
      rw [List.nil_append] at hgiven
      rw [nodeMerge_none, get?_nodeAfter_empty, hgiven]
      simp [lastGiven]
  | append_singleton txns txn ih =>
    obtain ⟨data, hdata, hauthor, hget⟩ := ih
    have hsize : data.size ≠ 0 := by
      intro h0
      obtain ⟨v, hv⟩ := Option.isSome_iff_exists.1 hauthor
      have hmem := Dict.get?_eq_some.1 hv
      rw [List.length_eq_zero_iff.1 h0] at hmem
      cases hmem
    rw [← List.cons_append, mergeAll_concat, hdata]
    refine ⟨_, rfl, ?_, fun key => ?_⟩
    · rw [nodeMerge_some, get?_nodeAfter hsize, Option.isSome_or, hauthor, Bool.or_true]
    · rw [nodeMerge_some, get?_nodeAfter hsize, lastGiven_concat, hget, Option.or_assoc]

theorem lastDecides_iff {txns : List (PoolTxn ν)} {last : PoolTxn ν} (hlast : txns.getLast? = some last) :
    some (Dict.get? (nodeMerge.merge none last)) = (nodeMerge.mergeAll txns none).map Dict.get? ↔
      LastDecides txns last := by
  cases txns with
  | nil => cases hlast
  | cons first txns =>
    obtain ⟨data, hdata, -, hget⟩ := mergeAll_nodeMerge first txns
    rw [hdata, Option.map_some, Option.some.injEq, funext_iff]
    refine forall_congr' fun key => ?_
    rw [hget, nodeMerge_none, get?_nodeAfter_empty]
    rfl

theorem rebuildsAlike_iff (leaves : List (PoolTxn ν)) :
    RebuildsAlike updateState withSeqNo Dict.get? leaves ↔
      ∀ nym last, (txnsOf nym leaves).getLast? = some last → LastDecides (txnsOf nym leaves) last := by
  have hkey : ∀ (txn : PoolTxn ν) seqNo, nodeMerge.key (withSeqNo txn seqNo) = nodeMerge.key txn := fun _ _ => rfl
  rw [pool_updatesBy.rebuildsAlike_iff hkey]
  refine forall_congr' fun nym => ?_
  have hrecords : (numberedOf nodeMerge nym leaves).map (fun e => withSeqNo e.1 e.2) = txnsOf nym leaves := by
    rw [← recordsOf_nodeMerge, ← numberedOf_map_fst]
    rfl
  have hlast : (txnsOf nym leaves).getLast? = (numberedOf nodeMerge nym leaves).getLast?.map Prod.fst := by
    rw [← hrecords, List.getLast?_map]
    rfl
  rw [hrecords]
  constructor
  · intro h last hl
    obtain ⟨e, he, rfl⟩ := Option.map_eq_some_iff.1 (hlast.symm.trans hl)
    exact (lastDecides_iff hl).1 (h e he)
  · intro h e he
    have hl : (txnsOf nym leaves).getLast? = some e.1 := by
      rw [hlast, he]
      rfl
    exact (lastDecides_iff hl).2 (h e.1 hl)

end PoolRequestHandler

/-! ## Rebuilding the state -/

/-- **When a state rebuilt from the ledger is the state built transaction by transaction.** For the NYM and for the
NODE transactions: exactly when the last transaction of each key decides its record alone. The last one of a nym must have
its sequence number on the ledger too; where the others say the same, that number is all that the rebuilt record lacks. -/
theorem initStateFromLedger_iff {ν : Type} :
    (∀ leaves : List DomainTxn, RebuildsAlike DomainRequestHandler.updateState DomainRequestHandler.withSeqNo id leaves ↔
      ∀ nym last seqNo, (numberedOf DomainRequestHandler.nymMerge nym leaves).getLast? = some (last, seqNo) →
        DomainRequestHandler.LastDecides (DomainRequestHandler.txnsOf nym leaves) last ∧ last.seqNo = some seqNo) ∧
    (∀ leaves : List DomainTxn, RebuildsAlike DomainRequestHandler.updateState DomainRequestHandler.withSeqNo
        DomainRequestHandler.nymContent leaves ↔
      ∀ nym last, (DomainRequestHandler.txnsOf nym leaves).getLast? = some last →
        DomainRequestHandler.LastDecides (DomainRequestHandler.txnsOf nym leaves) last) ∧
    (∀ leaves : List (PoolTxn ν), RebuildsAlike PoolRequestHandler.updateState PoolRequestHandler.withSeqNo Dict.get?
        leaves ↔
      ∀ nym last, (PoolRequestHandler.txnsOf nym leaves).getLast? = some last →
        PoolRequestHandler.LastDecides (PoolRequestHandler.txnsOf nym leaves) last) := by
  refine ⟨fun leaves => ?_, fun leaves => ?_, fun leaves => ?_⟩
  · rw [DomainRequestHandler.rebuildsAlike_iff]
    refine forall_congr' fun nym => ?_
    rw [← DomainRequestHandler.recordsOf_nymMerge, ← numberedOf_map_fst, Option.map_id, Prod.forall]
    refine forall_congr' fun last => forall_congr' fun seqNo => forall_congr' fun hlast => ?_
    exact DomainRequestHandler.record_eq_iff hlast
  · rw [DomainRequestHandler.rebuildsAlike_iff]
    refine forall_congr' fun nym => ?_
    rw [← DomainRequestHandler.recordsOf_nymMerge, ← numberedOf_map_fst, List.getLast?_map]
    constructor
    · intro h last hlast
      obtain ⟨e, he, rfl⟩ := Option.map_eq_some_iff.1 hlast
      exact (DomainRequestHandler.lastDecides_iff he).1 (h e he)
    · intro h e he
      exact (DomainRequestHandler.lastDecides_iff he).2 (h e.1 (by rw [he]; rfl))
  · exact PoolRequestHandler.rebuildsAlike_iff leaves

/-- a steward that another one adds, and a transaction of its own that gives it a verkey -/
def addedThenKeyed : List DomainTxn :=
  [⟨"trustee", 1, "", ⟨NYM, "steward", some (some STEWARD), none⟩, none⟩,
    ⟨"steward", 1, "", ⟨NYM, "steward", none, some (some "key")⟩, none⟩]

/-- a node, and a later change of its client port -/
def portChanged : List (PoolTxn String) :=
  [⟨"steward", "node", (Dict.empty.set "alias" "Alpha").set "client_port" "9701"⟩,
    ⟨"steward", "node", Dict.empty.set "client_port" "9702"⟩]

/-- **A rebuilt state can differ**: the steward loses its role, its author and the sequence number, the node its alias. -/
theorem rebuilt_differs :
    (initStateFromLedger DomainRequestHandler.updateState addedThenKeyed State.empty).committedHeadHash.get? "steward" =
      some ⟨"steward", none, some "key", none⟩ ∧
    (catchUp DomainRequestHandler.updateState
        (txnsWithSeqNo DomainRequestHandler.withSeqNo 1 addedThenKeyed)).committedHeadHash.get? "steward" =
      some ⟨"trustee", some STEWARD, some "key", some 2⟩ ∧
    ¬ RebuildsAlike DomainRequestHandler.updateState DomainRequestHandler.withSeqNo id addedThenKeyed ∧
    ¬ RebuildsAlike DomainRequestHandler.updateState DomainRequestHandler.withSeqNo DomainRequestHandler.nymContent
        addedThenKeyed ∧
    ¬ RebuildsAlike PoolRequestHandler.updateState PoolRequestHandler.withSeqNo Dict.get? portChanged := by
  refine ⟨by decide, by decide, ?_, ?_, ?_⟩
  · intro h
    exact absurd (h.1 "steward") (by decide)
  · intro h
    exact absurd (h.1 "steward") (by decide)
  · intro h
    have hnode := h.1 "node"
    have halias := congrArg (fun o => o.bind fun get => get "alias") hnode
    exact absurd halias (by decide)

end Plenum
