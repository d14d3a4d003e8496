/-
The timer for consistency proofs. It is set when the first proof of a correct node has arrived, and fires much later:
`checkIfCPsNeeded` then asks for more proofs.

- `mem_keys_group`, `medianEnd_eq_none`: the end asked for is the end of some proof held, and there is one
  unless no proof is held.
- `request_returns`, `request_raises`: what a firing that is due does.
- `timer_fires_well_iff`: in every run, a firing returns and asks for nothing but an end that a peer has proposed exactly
  if the timer is off, or too many nodes have no proof to send, or some proof is held. Completing a catch-up forgets
  the proofs and leaves the timer on.
-/
import Mathlib.Tactic
import Plenum.Common.SyncRuns

namespace Plenum

open Plenum.Core Plenum.Core.Exec

namespace LedgerManager

/-! ## The end asked for -/

theorem mem_keys_groupProof {grouped : GroupedProofs} {p : ConsistencyProof} {r : ℕ × ℕ} :
    r ∈ (groupProof grouped p).keys ↔ r = p.range ∨ r ∈ grouped.keys := Dict.mem_keys_set

theorem mem_keys_foldl_groupProof {l : List ConsistencyProof} {grouped : GroupedProofs} {r : ℕ × ℕ} :
    r ∈ (l.foldl groupProof grouped).keys ↔ r ∈ grouped.keys ∨ ∃ p ∈ l, p.range = r := by
  induction l generalizing grouped with
  | nil => simp
  | cons p l ih =>
    rw [List.foldl_cons, ih, mem_keys_groupProof, List.exists_mem_cons_iff]
    constructor
    · rintro ((rfl | h) | h)
      · exact Or.inr (Or.inl rfl)
      · exact Or.inl h
      · exact Or.inr (Or.inr h)
    · rintro (h | rfl | h)
      · exact Or.inl (Or.inr h)
      · exact Or.inl (Or.inl rfl)
      · exact Or.inr h

theorem mem_notEmptyProofs {proofs : Dict NodeName (Option ConsistencyProof)} {p : ConsistencyProof} :
    p ∈ notEmptyProofs proofs ↔ ∃ i, proofs.get? i = some (some p) := by
  unfold notEmptyProofs Dict.values
  simp only [List.mem_filterMap, List.mem_map, id_eq, exists_eq_right, Prod.exists, Dict.get?_eq_some]

/-- the ranges of the groups are those of the proofs held -/
theorem mem_keys_group {proofs : Dict NodeName (Option ConsistencyProof)} {r : ℕ × ℕ} :
    r ∈ (groupConsistencyProofs proofs).1.keys ↔ ∃ i p, proofs.get? i = some (some p) ∧ p.range = r := by
  unfold groupConsistencyProofs
  rw [mem_keys_foldl_groupProof]
  simp only [Dict.keys, Dict.empty, List.map_nil, List.not_mem_nil, false_or, mem_notEmptyProofs]
  constructor
  · rintro ⟨p, ⟨i, hi⟩, hr⟩
    exact ⟨i, p, hi, hr⟩
  · rintro ⟨i, p, hi, hr⟩
    exact ⟨p, ⟨i, hi⟩, hr⟩

/-- the median end belongs to a group -/
theorem mem_keys_of_medianEnd {grouped : GroupedProofs} {seqNoEnd : ℕ} (h : medianEnd grouped = some seqNoEnd) :
    ∃ r ∈ grouped.keys, r.2 = seqNoEnd := by
  unfold medianEnd at h
  obtain ⟨e, he, rfl⟩ := Option.map_eq_some_iff.1 h
  have hmem := (List.mem_insertionSort _).1 (List.mem_of_getElem? he)
  exact ⟨e.1, List.mem_map_of_mem hmem, rfl⟩

theorem medianEnd_eq_none {grouped : GroupedProofs} : medianEnd grouped = none ↔ grouped.keys = [] := by
  unfold medianEnd Dict.keys
  rw [Option.map_eq_none_iff, List.getElem?_eq_none_iff, List.length_insertionSort, List.map_eq_nil_iff,
    ← List.length_eq_zero_iff]
  omega

/-! ## A firing -/

variable {O τ : Type} {env : LedgerEnv τ} {own : LedgerOwner O τ} {fuel : ℕ} {s : LedgerManager O τ} {lid : LedgerId}

/-- whether some proof is held that is not null -/
def HoldsProof (s : LedgerManager O τ) (lid : LedgerId) : Prop :=
  ∃ i p, (s.ledgerInfo lid).recvdConsistencyProofs.get? i = some (some p)

/-- when a firing does nothing -/
def NotDue (own : LedgerOwner O τ) (s : LedgerManager O τ) (lid : LedgerId) : Prop :=
  (s.ledgerInfo lid).consistencyProofsTimer = none ∨
    adjustedF own < (groupConsistencyProofs (s.ledgerInfo lid).recvdConsistencyProofs).2

theorem exec_checkIfCPsNeeded_notDue (h : NotDue own s lid) : exec (checkIfCPsNeeded own lid) s = (.ok (), s) := by
  unfold checkIfCPsNeeded
  rw [exec_bind, exec_get]
  dsimp only
  rcases h with h | h
  · rw [h, Option.isNone_none, if_pos rfl]
    rfl
  · split_ifs
    · rfl
    · rfl

/-- asking for proofs -/
theorem exec_checkIfCPsNeeded (h : ¬ NotDue own s lid) :
    (exec (checkIfCPsNeeded own lid) s).1 =
        (exec (requestConsistencyProofs own lid (groupConsistencyProofs (s.ledgerInfo lid).recvdConsistencyProofs).1) s).1 ∧
      (exec (checkIfCPsNeeded own lid) s).2.outBox =
        (exec (requestConsistencyProofs own lid
          (groupConsistencyProofs (s.ledgerInfo lid).recvdConsistencyProofs).1) s).2.outBox := by
  unfold NotDue at h
  push Not at h
  unfold checkIfCPsNeeded
  rw [exec_bind, exec_get]
  dsimp only
  rw [if_neg (by rw [Option.isNone_iff_eq_none]; exact h.1), if_neg (not_lt.2 h.2), exec_bind]
  rcases exec (requestConsistencyProofs own lid
    (groupConsistencyProofs (s.ledgerInfo lid).recvdConsistencyProofs).1) s with ⟨e | a, s'⟩
  · exact ⟨rfl, rfl⟩
  · exact ⟨rfl, rfl⟩

/-- a firing returns, and asks for nothing, or once for an end that was proposed -/
def FiresWell (own : LedgerOwner O τ) (s : LedgerManager O τ) (lid : LedgerId) (proposed : ℕ → Prop) : Prop :=
  (exec (checkIfCPsNeeded own lid) s).1 = .ok () ∧
    ((exec (checkIfCPsNeeded own lid) s).2.outBox = s.outBox ∨
      ∃ seqNoEnd, (exec (checkIfCPsNeeded own lid) s).2.outBox =
        s.outBox ++ [(LedgerMsg.consProofReq ⟨lid, s.ledgerSize own lid, seqNoEnd⟩, none)] ∧ proposed seqNoEnd)

/-- without a proof there is no median -/
theorem request_raises (h : ¬ HoldsProof s lid) :
    (exec (requestConsistencyProofs own lid
      (groupConsistencyProofs (s.ledgerInfo lid).recvdConsistencyProofs).1) s).1 = .error .indexError := by
  have hempty : (groupConsistencyProofs (s.ledgerInfo lid).recvdConsistencyProofs).1.keys = [] := by
    rw [List.eq_nil_iff_forall_not_mem]
    intro r hr
    obtain ⟨i, p, hi, -⟩ := mem_keys_group.1 hr
    exact h ⟨i, p, hi⟩
  have hnone : latestReliableProof (adjustedF own)
      (groupConsistencyProofs (s.ledgerInfo lid).recvdConsistencyProofs).1 (s.ledgerSize own lid) = none := by
    unfold latestReliableProof reliableProofs
    rw [List.map_eq_nil_iff.1 hempty]
    rfl
  unfold requestConsistencyProofs
  rw [exec_bind, exec_get]
  dsimp only
  rw [hnone, medianEnd_eq_none.2 hempty]
  rfl

variable (own) in
/-- with a proof the request is for the end of some proof -/
theorem request_returns (h : HoldsProof s lid) :
    let r := exec (requestConsistencyProofs own lid
      (groupConsistencyProofs (s.ledgerInfo lid).recvdConsistencyProofs).1) s
    r.1 = .ok () ∧ (r.2.outBox = s.outBox ∨ ∃ i p, (s.ledgerInfo lid).recvdConsistencyProofs.get? i = some (some p) ∧
      r.2.outBox = s.outBox ++ [(LedgerMsg.consProofReq ⟨lid, s.ledgerSize own lid, p.seqNoEnd⟩, none)]) := by
  dsimp only
  unfold requestConsistencyProofs
  rw [exec_bind, exec_get]
  dsimp only
  cases latestReliableProof (adjustedF own)
    (groupConsistencyProofs (s.ledgerInfo lid).recvdConsistencyProofs).1 (s.ledgerSize own lid) with
  | some e => exact ⟨rfl, Or.inl rfl⟩
  | none =>
    cases hmedian : medianEnd (groupConsistencyProofs (s.ledgerInfo lid).recvdConsistencyProofs).1 with
    | none =>
      obtain ⟨i, p, hi⟩ := h
      have hmem : p.range ∈ (groupConsistencyProofs (s.ledgerInfo lid).recvdConsistencyProofs).1.keys :=
        mem_keys_group.2 ⟨i, p, hi, rfl⟩
      rw [medianEnd_eq_none.1 hmedian] at hmem
      cases hmem
    | some seqNoEnd =>
      obtain ⟨r, hr, rfl⟩ := mem_keys_of_medianEnd hmedian
      obtain ⟨i, p, hi, rfl⟩ := mem_keys_group.1 hr
      exact ⟨rfl, Or.inr ⟨i, p, hi, rfl⟩⟩

/-! ## The result -/

/-- an end that some peer has proposed in a consistency proof for the ledger -/
def Proposed (inputs : List (SyncInput τ)) (lid : LedgerId) (seqNoEnd : ℕ) : Prop :=
  ∃ i p, SyncSentIn inputs i p ∧ p.ledgerId = lid ∧ p.seqNoEnd = seqNoEnd

/-- **A firing of the timer is harmless** if and only if it is not due or some proof is held. -/
theorem timer_fires_well_iff (owner : O) (inputs : List (SyncInput τ)) (lid : LedgerId) :
    FiresWell own (syncRun env own fuel (init owner) inputs) lid (Proposed inputs lid) ↔
      NotDue own (syncRun env own fuel (init owner) inputs) lid ∨
        HoldsProof (syncRun env own fuel (init owner) inputs) lid := by
  have hvouched : Vouched own (SyncSentIn inputs) (syncRun env own fuel (init owner : LedgerManager O τ) inputs) :=
    (vouched_init owner).syncRun fun _ _ h => h
  generalize syncRun env own fuel (init owner : LedgerManager O τ) inputs = s at hvouched
  unfold FiresWell
  by_cases hdue : NotDue own s lid
  · rw [exec_checkIfCPsNeeded_notDue hdue]
    exact iff_of_true ⟨rfl, Or.inl rfl⟩ (Or.inl hdue)
  · obtain ⟨hret, hout⟩ := exec_checkIfCPsNeeded hdue
    rw [hret, hout]
    by_cases hholds : HoldsProof s lid
    · refine iff_of_true ?_ (Or.inr hholds)
      obtain ⟨hok, hsent⟩ := request_returns own hholds
      refine ⟨hok, hsent.imp_right ?_⟩
      rintro ⟨i, p, hi, hsent⟩
      obtain ⟨hp, hlid⟩ := hvouched.proofs lid i p hi
      exact ⟨p.seqNoEnd, hsent, i, p, hp, hlid, rfl⟩
    · refine iff_of_false ?_ (not_or.2 ⟨hdue, hholds⟩)
      rw [request_raises hholds]
      rintro ⟨h, -⟩
      cases h

end LedgerManager

/-! ## Witness -/

namespace FourNodes

open LedgerManager

/-- Delta's pool ledger has one transaction -/
def oneTxnLedgers : PerLedger (Ledger Char) := ⟨⟨['a'], [], none, none⟩, Ledger.empty⟩

/-- a proof that starts before it sets the timer, and two peers at the same state complete the catch-up -/
def completedWithTimer : List (SyncInput Char) :=
  [.receive (.setLedgerCanSync .pool true), .receive (.consistencyProof toAbc "Gamma"),
    .receive (.ledgerStatus ⟨.pool, 1, "a"⟩ "Alpha"), .receive (.ledgerStatus ⟨.pool, 1, "a"⟩ "Beta")]

/-- the firing that was scheduled raises -/
theorem timer_raises :
    let s := syncRun ledgerEnv ledgerOwner 1 (init oneTxnLedgers) completedWithTimer
    LedgerAction.checkIfCPsNeeded .pool ∈ s.actions.aqStash.map (fun e => e.2.1) ∧
      (exec (checkIfCPsNeeded ledgerOwner .pool) s).1 = .error .indexError ∧
      ¬ FiresWell ledgerOwner s .pool (Proposed completedWithTimer .pool) := by
  have hraises : (exec (checkIfCPsNeeded ledgerOwner .pool)
      (syncRun ledgerEnv ledgerOwner 1 (init oneTxnLedgers) completedWithTimer)).1 = .error .indexError := by
    decide +kernel
  refine ⟨by decide +kernel, hraises, ?_⟩
  rintro ⟨hok, -⟩
  rw [hraises] at hok
  cases hok

end FourNodes

end Plenum
