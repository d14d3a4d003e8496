/-
Whether dynamic validation of NYM requests depends on how much of the domain ledger is committed.

- `SameHistory`: two nodes with the same domain transactions, the committed ones followed by the uncommitted ones, and
  the same head of the domain state. They may have committed different parts of it.
- The steward check reads the head, so it is the same on both; `countStewards` counts committed transactions only.
- `ThresholdBetween`: one node has committed more stewards than the threshold, and the other has not.
- `validation_agrees_iff`: the two nodes accept the same requests, and split every batch into the same valid and invalid
  requests, if and only if no steward is there to ask for another one or the threshold does not lie between them.
- `committed_counts`: the twenty-first steward is committed on one node and not on the other, and they disagree.
-/
import Mathlib.Tactic
import Plenum.Server.Batch
import Plenum.Server.CatchupState

namespace Plenum

open Plenum.Core DomainRequestHandler

/-- the databases of a node whose domain requests go to the domain handler -/
abbrev DomainDbs := Dbs (Dict String NymData) DomainTxn

abbrev DomainBase := Env DomainOperation (Dict String NymData) DomainTxn

/-- the same domain transactions and the same head, committed up to any point -/
structure SameHistory (dbs₁ dbs₂ : DomainDbs) : Prop where
  txns : dbs₁.ledgers.domain.txns ++ dbs₁.ledgers.domain.uncommittedTxns =
    dbs₂.ledgers.domain.txns ++ dbs₂.ledgers.domain.uncommittedTxns
  headHash : dbs₁.states.domain.headHash = dbs₂.states.domain.headHash

def Accepts (stewardThreshold : ℕ) (dbs : DomainDbs) (req : Request DomainOperation) : Prop :=
  validate stewardThreshold dbs.ledgers.domain dbs.states.domain req = none

instance (stewardThreshold : ℕ) (dbs : DomainDbs) (req : Request DomainOperation) :
    Decidable (Accepts stewardThreshold dbs req) := inferInstanceAs (Decidable (_ = _))

/-- the committed stewards exceed the threshold on one node only -/
def ThresholdBetween (stewardThreshold : ℕ) (dbs₁ dbs₂ : DomainDbs) : Prop :=
  min (countStewards dbs₁.ledgers.domain) (countStewards dbs₂.ledgers.domain) ≤ stewardThreshold ∧
    stewardThreshold < max (countStewards dbs₁.ledgers.domain) (countStewards dbs₂.ledgers.domain)

/-- a steward asks for another steward -/
def AsksForSteward (dbs : DomainDbs) (req : Request DomainOperation) : Prop :=
  req.operation.type = NYM ∧ req.operation.role = some (some STEWARD) ∧
    isSteward dbs.states.domain req.identifier false = true

/-! ## One request -/

section

variable {stewardThreshold : ℕ} {dbs dbs₁ dbs₂ : DomainDbs} {req : Request DomainOperation}

theorem accepts_iff : Accepts stewardThreshold dbs req ↔ (req.operation.type = NYM →
    isSteward dbs.states.domain req.identifier false = true ∧
      (req.operation.role = some (some STEWARD) → countStewards dbs.ledgers.domain ≤ stewardThreshold)) := by
  unfold Accepts validate stewardThresholdExceeded
  split_ifs with htype hexceeded hsteward
  · simp only [false_iff]
    intro h
    have := (h htype).2 hexceeded.1
    simp only [decide_eq_true_eq] at hexceeded
    omega
  · simp only [false_iff]
    intro h
    simp [(h htype).1] at hsteward
  · simp only [true_iff]
    intro _
    refine ⟨by simpa using hsteward, fun hrole => ?_⟩
    simpa [hrole] using hexceeded
  · simp [htype]

/-- the steward check reads the head -/
theorem SameHistory.isSteward_eq (h : SameHistory dbs₁ dbs₂) (nym : String) :
    isSteward dbs₁.states.domain nym false = isSteward dbs₂.states.domain nym false := by
  unfold isSteward getNymDetails State.get
  simp only [Bool.false_eq_true, if_false, h.headHash]

theorem SameHistory.accepts_iff (h : SameHistory dbs₁ dbs₂) (req : Request DomainOperation) :
    (Accepts stewardThreshold dbs₁ req ↔ Accepts stewardThreshold dbs₂ req) ↔
      ¬ (AsksForSteward dbs₁ req ∧ ThresholdBetween stewardThreshold dbs₁ dbs₂) := by
  unfold AsksForSteward ThresholdBetween
  rw [Plenum.accepts_iff, Plenum.accepts_iff, ← h.isSteward_eq]
  by_cases htype : req.operation.type = NYM
  · by_cases hrole : req.operation.role = some (some STEWARD)
    · by_cases hsteward : isSteward dbs₁.states.domain req.identifier false = true
      · simp only [htype, hrole, hsteward, true_and, forall_const]
        omega
      · simp [htype, hsteward]
    · simp [hrole]
  · simp [htype]

end

/-! ## A batch -/

/-- two databases that a relation keeps in agreement, request by request, split every batch alike -/
theorem Dbs.splits_eq {ω σ τ : Type} {env : Env ω σ τ} (R : Dbs σ τ → Dbs σ τ → Prop)
    (hagree : ∀ d₁ d₂, R d₁ d₂ → ∀ req, d₁.doDynamicValidation env req = none ↔ d₂.doDynamicValidation env req = none)
    (hstep : ∀ d₁ d₂, R d₁ d₂ → ∀ req, d₁.doDynamicValidation env req = none →
      R (d₁.applyReq env req) (d₂.applyReq env req))
    {d₁ d₂ : Dbs σ τ} (h : R d₁ d₂) (reqs : List (Request ω)) :
    validReqs env d₁ reqs = validReqs env d₂ reqs ∧ inValidReqs env d₁ reqs = inValidReqs env d₂ reqs := by
  induction reqs generalizing d₁ d₂ with
  | nil => exact ⟨rfl, rfl⟩
  | cons req reqs ih =>
    by_cases h₁ : d₁.doDynamicValidation env req = none
    · have h₂ := (hagree d₁ d₂ h req).1 h₁
      obtain ⟨hvalid, hinvalid⟩ := ih (hstep d₁ d₂ h req h₁)
      simp only [validReqs, inValidReqs, h₁, h₂, if_true, hvalid, hinvalid, and_self]
    · have h₂ := mt (hagree d₁ d₂ h req).2 h₁
      obtain ⟨hvalid, hinvalid⟩ := ih h
      simp only [validReqs, inValidReqs, h₁, h₂, if_false, hvalid, hinvalid, and_self]

section

variable {stewardThreshold : ℕ} {base : DomainBase} {dbs dbs₁ dbs₂ : DomainDbs}

/-- the two nodes split every batch alike -/
def SplitAlike (stewardThreshold : ℕ) (base : DomainBase) (dbs₁ dbs₂ : DomainDbs) : Prop :=
  ∀ reqs, Dbs.validReqs (domainEnv stewardThreshold base) dbs₁ reqs =
      Dbs.validReqs (domainEnv stewardThreshold base) dbs₂ reqs ∧
    Dbs.inValidReqs (domainEnv stewardThreshold base) dbs₁ reqs =
      Dbs.inValidReqs (domainEnv stewardThreshold base) dbs₂ reqs

/-- what applying a request does to the domain ledger, and to the head of the domain state -/
theorem domain_applyReq (dbs : DomainDbs) (req : Request DomainOperation) :
    (dbs.applyReq (domainEnv stewardThreshold base) req).ledgers.domain =
        dbs.ledgers.domain.appendTxns base.merkleRoot [reqToTxn req] ∧
      (dbs.applyReq (domainEnv stewardThreshold base) req).states.domain.headHash =
        nymMerge.replay [{ reqToTxn req with seqNo := some (dbs.ledgers.domain.uncommittedSize + 1) }]
          dbs.states.domain.headHash := by
  have happly := applyReq_domainEnv stewardThreshold base dbs req
  refine ⟨congrArg Prod.fst happly, ?_⟩
  have hstate := congrArg (fun r => r.2.headHash) happly
  simp only [DomainRequestHandler.apply, domain_updatesBy false] at hstate
  exact hstate

/-- an applied request is uncommitted: it adds to the history and to no committed part -/
theorem SameHistory.applyReq (h : SameHistory dbs₁ dbs₂) (req : Request DomainOperation) :
    SameHistory (dbs₁.applyReq (domainEnv stewardThreshold base) req)
      (dbs₂.applyReq (domainEnv stewardThreshold base) req) := by
  have hsize : dbs₁.ledgers.domain.uncommittedSize = dbs₂.ledgers.domain.uncommittedSize := by
    have := congrArg List.length h.txns
    simpa [Ledger.uncommittedSize] using this
  obtain ⟨hledger₁, hhead₁⟩ := @domain_applyReq stewardThreshold base dbs₁ req
  obtain ⟨hledger₂, hhead₂⟩ := @domain_applyReq stewardThreshold base dbs₂ req
  constructor
  · simp only [hledger₁, hledger₂, Ledger.appendTxns_txns, Ledger.appendTxns_uncommittedTxns]
    rw [← List.append_assoc, ← List.append_assoc, h.txns]
  · rw [hhead₁, hhead₂, hsize, h.headHash]

theorem countStewards_applyReq (dbs : DomainDbs) (req : Request DomainOperation) :
    countStewards (dbs.applyReq (domainEnv stewardThreshold base) req).ledgers.domain =
      countStewards dbs.ledgers.domain := by
  rw [(domain_applyReq dbs req).1]
  rfl

theorem thresholdBetween_applyReq (dbs₁ dbs₂ : DomainDbs) (req : Request DomainOperation) :
    ThresholdBetween stewardThreshold (dbs₁.applyReq (domainEnv stewardThreshold base) req)
        (dbs₂.applyReq (domainEnv stewardThreshold base) req) ↔ ThresholdBetween stewardThreshold dbs₁ dbs₂ := by
  unfold ThresholdBetween
  rw [countStewards_applyReq, countStewards_applyReq]

/-- the nodes agree on the first request of the batch, and have the same history after it -/
theorem SameHistory.splitAlike (h : SameHistory dbs₁ dbs₂) (hbetween : ¬ ThresholdBetween stewardThreshold dbs₁ dbs₂) :
    SplitAlike stewardThreshold base dbs₁ dbs₂ := by
  refine Dbs.splits_eq (fun d₁ d₂ => SameHistory d₁ d₂ ∧ ¬ ThresholdBetween stewardThreshold d₁ d₂) ?_ ?_ ⟨h, hbetween⟩
  · rintro d₁ d₂ ⟨h, hbetween⟩ req
    exact (h.accepts_iff req).2 fun hboth => hbetween hboth.2
  · rintro d₁ d₂ ⟨h, hbetween⟩ req -
    exact ⟨h.applyReq req, by rwa [thresholdBetween_applyReq]⟩

/-- without a steward no NYM request is accepted -/
theorem not_accepts_of_noSteward (hnone : ∀ nym, isSteward dbs.states.domain nym false = false)
    {req : Request DomainOperation} (htype : req.operation.type = NYM) : ¬ Accepts stewardThreshold dbs req := by
  rw [accepts_iff]
  intro h
  simpa [hnone] using (h htype).1

/-- so there will be none -/
theorem noSteward_applyReq (hnone : ∀ nym, isSteward dbs.states.domain nym false = false)
    {req : Request DomainOperation} (hacc : Accepts stewardThreshold dbs req) (nym : String) :
    isSteward (dbs.applyReq (domainEnv stewardThreshold base) req).states.domain nym false = false := by
  have htype : ¬ req.operation.type = NYM := fun h => not_accepts_of_noSteward hnone h hacc
  have hhead : (dbs.applyReq (domainEnv stewardThreshold base) req).states.domain.headHash =
      dbs.states.domain.headHash := by
    rw [(domain_applyReq dbs req).2]
    simp [KeyedMerge.replay, KeyedMerge.write, nymMerge, reqToTxn, htype]
  have h := hnone nym
  unfold isSteward getNymDetails State.get at h ⊢
  simpa [hhead] using h

theorem SameHistory.splitAlike_of_noSteward (h : SameHistory dbs₁ dbs₂)
    (hnone : ∀ nym, isSteward dbs₁.states.domain nym false = false) :
    SplitAlike stewardThreshold base dbs₁ dbs₂ := by
  refine Dbs.splits_eq
    (fun d₁ d₂ => SameHistory d₁ d₂ ∧ ∀ nym, isSteward d₁.states.domain nym false = false) ?_ ?_ ⟨h, hnone⟩
  · rintro d₁ d₂ ⟨h, hnone⟩ req
    refine (h.accepts_iff req).2 fun hboth => ?_
    have := hboth.1.2.2
    simp [hnone] at this
  · rintro d₁ d₂ ⟨h, hnone⟩ req hacc
    exact ⟨h.applyReq req, noSteward_applyReq hnone hacc⟩

/-- one node rejects another steward that the other node accepts -/
theorem SameHistory.not_splitAlike (h : SameHistory dbs₁ dbs₂) {nym : String}
    (hsteward : isSteward dbs₁.states.domain nym false = true)
    (hbetween : ThresholdBetween stewardThreshold dbs₁ dbs₂) : ¬ SplitAlike stewardThreshold base dbs₁ dbs₂ := by
  intro hsplit
  let req : Request DomainOperation := ⟨nym, 1, ⟨NYM, nym, some (some STEWARD), none⟩, "", ""⟩
  refine (h.accepts_iff req).1 ?_ ⟨⟨rfl, rfl, hsteward⟩, hbetween⟩
  have hvalid := (hsplit [req]).1
  have hsingle : ∀ dbs : DomainDbs, Accepts stewardThreshold dbs req ↔
      Dbs.validReqs (domainEnv stewardThreshold base) dbs [req] = [req] := by
    intro dbs
    by_cases hacc : Accepts stewardThreshold dbs req
    · have hnone : dbs.doDynamicValidation (domainEnv stewardThreshold base) req = none := hacc
      simp [Dbs.validReqs, hnone, hacc]
    · have hnone : ¬ dbs.doDynamicValidation (domainEnv stewardThreshold base) req = none := hacc
      simp [Dbs.validReqs, hnone, hacc]
  rw [hsingle, hsingle, hvalid]

end

/-- **Whether validation depends on the split.** Two nodes with the same history accept the same requests, but for
those of a steward for another one when the threshold lies between their committed stewards; they split every batch
alike if and only if there is no steward, or the threshold does not lie between. -/
theorem validation_agrees_iff {stewardThreshold : ℕ} (base : DomainBase) {dbs₁ dbs₂ : DomainDbs}
    (h : SameHistory dbs₁ dbs₂) :
    (∀ req, (Accepts stewardThreshold dbs₁ req ↔ Accepts stewardThreshold dbs₂ req) ↔
      ¬ (AsksForSteward dbs₁ req ∧ ThresholdBetween stewardThreshold dbs₁ dbs₂)) ∧
    (SplitAlike stewardThreshold base dbs₁ dbs₂ ↔
      ¬ ((∃ nym, isSteward dbs₁.states.domain nym false = true) ∧ ThresholdBetween stewardThreshold dbs₁ dbs₂)) := by
  refine ⟨h.accepts_iff, fun hsplit hboth => ?_, fun hnot => ?_⟩
  · obtain ⟨⟨nym, hsteward⟩, hbetween⟩ := hboth
    exact h.not_splitAlike hsteward hbetween hsplit
  · by_cases hbetween : ThresholdBetween stewardThreshold dbs₁ dbs₂
    · refine h.splitAlike_of_noSteward fun nym => ?_
      by_contra hsteward
      exact hnot ⟨⟨nym, by simpa using hsteward⟩, hbetween⟩
    · exact h.splitAlike hbetween

/-! ## Witnesses -/

namespace TwentyOneStewards

open LeftOver

/-- the steward with the given number is added by the first one -/
def addSteward (i : ℕ) : DomainTxn := ⟨"s0", i, "", ⟨NYM, "s" ++ toString i, some (some STEWARD), none⟩, none⟩

/-- twenty-one stewards, nothing committed -/
def applied : LedgerAndState DomainTxn NymData :=
  (List.range 21).foldl (fun db i => db.applyTxn updateState withSeqNo domainRoot (addSteward i))
    ⟨Ledger.empty, State.empty⟩

/-- after the execution of as many of them -/
def executed (count : ℕ) : LedgerAndState DomainTxn NymData where
  ledger := (applied.ledger.commitTxns count).1
  state := applied.state.commit
    (stateOfTxns updateState withSeqNo (applied.ledger.txns ++ applied.ledger.uncommittedTxns.take count))

theorem executed_applied (count : ℕ) : (executed count).Applied updateState withSeqNo domainRoot := by
  have hrun : ∀ numbers : List ℕ, (numbers.foldl
      (fun db i => db.applyTxn updateState withSeqNo domainRoot (addSteward i))
      (⟨Ledger.empty, State.empty⟩ : LedgerAndState DomainTxn NymData)).Applied updateState withSeqNo domainRoot := by
    intro numbers
    induction numbers using List.reverseRecOn with
    | nil => exact LedgerAndState.applied_empty domain_updatesBy
    | append_singleton numbers i ih =>
      rw [List.foldl_append]
      exact ih.apply domain_updatesBy _
  exact (hrun (List.range 21)).commit count

def dbs (count : ℕ) : DomainDbs :=
  ⟨⟨Ledger.empty, (executed count).ledger⟩, ⟨State.empty, (executed count).state⟩⟩

theorem sameHistory (count count' : ℕ) : SameHistory (dbs count) (dbs count') := by
  refine ⟨?_, rfl⟩
  change (applied.ledger.txns ++ applied.ledger.uncommittedTxns.take count) ++ applied.ledger.uncommittedTxns.drop count =
    (applied.ledger.txns ++ applied.ledger.uncommittedTxns.take count') ++ applied.ledger.uncommittedTxns.drop count'
  rw [List.append_assoc, List.take_append_drop, List.append_assoc, List.take_append_drop]

/-- the first steward asks for one more -/
def oneMore : Request DomainOperation := ⟨"s0", 21, ⟨NYM, "s21", some (some STEWARD), none⟩, "", ""⟩

end TwentyOneStewards

open TwentyOneStewards in
/-- **Committed stewards count.** A node that has executed the twenty-first steward refuses the next one, a node that has
not accepts it. -/
theorem committed_counts :
    (executed 21).Applied updateState withSeqNo LeftOver.domainRoot ∧
    (executed 20).Applied updateState withSeqNo LeftOver.domainRoot ∧ SameHistory (dbs 21) (dbs 20) ∧
    ¬ Accepts 20 (dbs 21) oneMore ∧ Accepts 20 (dbs 20) oneMore ∧
    ¬ SplitAlike 20 Replica.stewardsEnv (dbs 21) (dbs 20) := by
  have hsteward : isSteward (dbs 21).states.domain "s0" false = true := by decide +kernel
  refine ⟨executed_applied 21, executed_applied 20, sameHistory 21 20, by decide +kernel, by decide +kernel,
    (sameHistory 21 20).not_splitAlike hsteward ?_⟩
  unfold ThresholdBetween
  decide +kernel

open TwentyOneStewards in
theorem validation_agrees_iff_twentyOneStewards : SameHistory (dbs 21) (dbs 19) ∧
    ((Accepts 20 (dbs 21) oneMore ↔ Accepts 20 (dbs 19) oneMore) ↔
      ¬ (AsksForSteward (dbs 21) oneMore ∧ ThresholdBetween 20 (dbs 21) (dbs 19))) ∧
    (SplitAlike 20 Replica.stewardsEnv (dbs 21) (dbs 19) ↔
      ¬ ((∃ nym, isSteward (dbs 21).states.domain nym false = true) ∧ ThresholdBetween 20 (dbs 21) (dbs 19))) :=
  ⟨sameHistory 21 19, (validation_agrees_iff Replica.stewardsEnv (sameHistory 21 19)).1 oneMore,
    (validation_agrees_iff Replica.stewardsEnv (sameHistory 21 19)).2⟩

end Plenum
