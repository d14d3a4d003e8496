/-
When a quorum of declarations settles the primary of an instance.

- `DecidedInTime`: an instance without a primary has no quorum of declarations.
- A declaration of another node settles the primary if it completes the quorum (`processPrimary`). The own one is only
  recorded and sent (`sendPrimary`): if it comes last, the instance stays without a primary until a further
  declaration comes, and none has to.
- `SettlesNothing`: the next step is no own declaration that completes a quorum.
- `run_decidedInTime_iff`: in a view, every state is decided in time exactly if each step settles nothing.
- `decidedInTime_viewChanged`: a new view starts so.
-/
import Mathlib.Tactic
import Plenum.Scenarios.FourElectors
import Plenum.Server.ElectorSteps

namespace Plenum

open Plenum.Core Relation

namespace PrimaryElector

variable {second : ℕ} {c : Cause} {s s' : PrimaryElector}

/-- **Decided in time.** An instance whose primary is unknown has fewer declarations than a quorum. -/
def DecidedInTime (s : PrimaryElector) : Prop :=
  ∀ i r, s.replicas[i]? = some r → r.primaryName = none → (s.primaryDeclarationsOf i).size < s.quorum

/-- **The next step settles nothing.** If it is a decision that declares a primary in an instance without one, a
quorum of declarations is not yet reached with the own one. -/
def SettlesNothing (second : ℕ) (s : PrimaryElector) (e : ElectorEvent) : Prop :=
  ∀ i aid rest r, e = .action → s.actions.actionQueue = (.decidePrimary i, aid) :: rest → s.replicas[i]? = some r →
    r.primaryName = none → (s.ownDeclaration second i).isSome = true → (s.primaryDeclarationsOf i).size + 1 < s.quorum

/-! ## What decides it -/

theorem decidedInTime_iff :
    DecidedInTime s ↔ ∀ i n, s.known i = some (n, none) → (s.primaryDeclarationsOf i).size < s.quorum := by
  constructor
  · intro h i n hknown
    obtain ⟨r, hr, -, hopen⟩ := known_eq_some.1 hknown
    exact h i r hr hopen
  · intro h i r hr hopen
    exact h i r.name (known_eq_some.2 ⟨r, hr, rfl, hopen⟩)

/-- it stays so where no instance loses its primary and only small tables grow -/
theorem DecidedInTime.of_tables (h : DecidedInTime s) (hf : s'.f = s.f)
    (htables : ∀ i n, s'.known i = some (n, none) → s.known i = some (n, none) ∧
      ((s'.primaryDeclarationsOf i).size ≤ (s.primaryDeclarationsOf i).size ∨
        (s'.primaryDeclarationsOf i).size < s.quorum)) : DecidedInTime s' := by
  have hquorum : s'.quorum = s.quorum := by rw [quorum, hf, quorum]
  refine decidedInTime_iff.2 fun i n hopen => ?_
  obtain ⟨hbefore, hsize | hsize⟩ := htables i n hopen
  · rw [hquorum]
    exact lt_of_le_of_lt hsize (decidedInTime_iff.1 h i n hbefore)
  · rwa [hquorum]

/-- neither the primaries nor the declarations differ -/
structure SameDeclarations (s s' : PrimaryElector) : Prop where
  f : s'.f = s.f
  known : ∀ i, s'.known i = s.known i
  declarations : ∀ i, s'.primaryDeclarationsOf i = s.primaryDeclarationsOf i

theorem Quiet.sameDeclarations (h : Quiet s s') : SameDeclarations s s' := ⟨h.f, h.known, h.declarations⟩

theorem SameDeclarations.trans {s'' : PrimaryElector} (h : SameDeclarations s s') (h' : SameDeclarations s' s'') :
    SameDeclarations s s'' :=
  ⟨h'.f.trans h.f, fun i => (h'.known i).trans (h.known i), fun i => (h'.declarations i).trans (h.declarations i)⟩

theorem SameDeclarations.decidedInTime_iff (h : SameDeclarations s s') : DecidedInTime s' ↔ DecidedInTime s := by
  constructor
  · exact fun hs => hs.of_tables h.f.symm fun i n hopen =>
      ⟨(h.known i).trans hopen, Or.inl (by rw [h.declarations])⟩
  · exact fun hs => hs.of_tables h.f fun i n hopen =>
      ⟨(h.known i).symm.trans hopen, Or.inl (by rw [h.declarations])⟩

/-! ## Writes and steps -/

/-- what is not the own declaration keeps every instance decided in time -/
theorem Write.decidedInTime (h : Write second c s s') (hc : ∀ before i, c ≠ .action before (.decidePrimary i))
    (hs : DecidedInTime s) : DecidedInTime s' := by
  cases h with
  | quiet hquiet => exact hquiet.sameDeclarations.decidedInTime_iff.2 hs
  | start i =>
    refine hs.of_tables rfl fun j n hopen => ⟨hopen, Or.inl ?_⟩
    rw [(setDefaults_tables s i j).2.1]
    split_ifs
    · exact Nat.zero_le _
    · exact le_rfl
  | restart m =>
    refine hs.of_tables rfl fun j n hopen => ⟨hopen, Or.inl ?_⟩
    rw [(setElectionDefaults_tables s m.instId j).2.1]
    split_ifs
    · exact Nat.zero_le _
    · exact le_rfl
  | choose | wait | nominateSelf | follow | recordNomination | recordReelection | sendAgain =>
    exact (SameDeclarations.decidedInTime_iff ⟨rfl, fun _ => rfl, fun _ => rfl⟩).2 hs
  | declare before i hdecides | propose before i hdecides => exact absurd hdecides (hc before i)
  | recordPrimary _ prim sender _ _ _ r hr _ hnew hopen =>
    refine hs.of_tables rfl fun j n hj => ⟨hj, ?_⟩
    by_cases hji : j = prim.instId
    · subst hji
      rcases hopen with hsettled | hquorum
      · obtain ⟨r', hr', -, hnone⟩ := known_eq_some.1 hj
        cases hr.symm.trans hr'
        rw [hnone] at hsettled
        cases hsettled
      · exact Or.inr (not_le.1 (of_decide_eq_false hquorum))
    · rw [primaryDeclarationsOf_setPrimaryDeclaration_eq, if_neg hji]
      exact Or.inl le_rfl
  | select _ prim sender _ _ _ r hr _ hnew hopen hquorum primary seqNo =>
    obtain ⟨hknown, hdeclarations, hf⟩ := afterSelection_eq (s.setPrimaryDeclaration prim.instId
      (generateName sender prim.instId) (prim.name, prim.ordSeqNo)) prim.instId primary seqNo
    refine hs.of_tables hf fun j n hj => ?_
    rw [hknown, known_setPrimary] at hj
    split_ifs at hj with hji
    · obtain ⟨k, -, hk⟩ := Option.map_eq_some_iff.1 hj
      cases hk
    · refine ⟨hj, Or.inl ?_⟩
      rw [hdeclarations, primaryDeclarationsOf_setPrimaryDeclaration_eq, if_neg hji]

theorem Writes.decidedInTime (h : Writes second c s s') (hc : ∀ before i, c ≠ .action before (.decidePrimary i))
    (hs : DecidedInTime s) : DecidedInTime s' := by
  induction h with
  | refl => exact hs
  | tail _ hwrite ih => exact hwrite.decidedInTime hc ih

/-! ## Decisions -/

theorem schedulePrimaryDecision_sameDeclarations (s : PrimaryElector) (i : ℕ) :
    SameDeclarations s (s.schedulePrimaryDecision second i) := by
  unfold schedulePrimaryDecision
  split_ifs <;> exact ⟨rfl, fun _ => rfl, fun _ => rfl⟩

/-- a tie, or no clear winner yet -/
theorem sendReelection_sameDeclarations (s : PrimaryElector) (i : ℕ) (r : ElectedReplica)
    (candidates : List Candidate) : SameDeclarations s (s.sendReelection i r candidates) :=
  ⟨rfl, fun _ => rfl, fun _ => rfl⟩

theorem decideOnCandidates_sameDeclarations {i : ℕ} (r : ElectedReplica) (h : s.clearWinner second i = none) :
    SameDeclarations s (s.decideOnCandidates second i r) := by
  have htie : ∀ candidates : List (Candidate × ℕ), SameDeclarations s
      (if s.hasEnoughNominations second i then s.sendReelection i r (candidates.map Prod.fst)
        else s.schedulePrimaryDecision second i) := by
    intro candidates
    split_ifs
    · exact sendReelection_sameDeclarations s i r _
    · exact schedulePrimaryDecision_sameDeclarations s i
  unfold clearWinner at h
  unfold decideOnCandidates
  cases hcandidates : s.getPrimaryCandidates i with
  | nil => exact htie []
  | cons c rest =>
    cases rest with
    | nil =>
      rw [hcandidates] at h
      obtain ⟨candidate, votes⟩ := c
      dsimp only at h ⊢
      split_ifs at h with hdecides
      rw [not_or] at hdecides
      rw [if_neg hdecides.1, if_neg hdecides.2]
      exact schedulePrimaryDecision_sameDeclarations s i
    | cons c' rest => exact htie (c :: c' :: rest)

theorem decideOnCandidates_declares {i : ℕ} (r : ElectedReplica) {candidate : Candidate}
    (h : s.clearWinner second i = some candidate) :
    s.decideOnCandidates second i r = s.sendPrimary i r candidate.1 candidate.2 := by
  unfold clearWinner at h
  unfold decideOnCandidates
  cases hcandidates : s.getPrimaryCandidates i with
  | nil =>
    rw [hcandidates] at h
    cases h
  | cons c rest =>
    cases rest with
    | nil =>
      rw [hcandidates] at h
      obtain ⟨candidate', votes⟩ := c
      dsimp only at h ⊢
      split_ifs at h with hdecides
      cases h
      rcases hdecides with henough | hmajority
      · rw [if_pos henough]
      · rw [if_pos hmajority, ite_self]
    | cons c' rest =>
      rw [hcandidates] at h
      cases h

/-- **A decision**, seen from the declarations: the own one is recorded, or nothing changes. -/
theorem decidePrimary_sameDeclarations (s : PrimaryElector) (i : ℕ) :
    match s.ownDeclaration second i with
    | none => SameDeclarations s (s.decidePrimary second i)
    | some d => SameDeclarations (s.setPrimaryDeclaration i d.1 d.2) (s.decidePrimary second i) := by
  have hdefaults : SameDeclarations s (s.addDecisionDefaults i) := (addDecisionDefaults_quiet s i).sameDeclarations
  have hproposals : (s.addDecisionDefaults i).reElectionProposalsOf i = s.reElectionProposalsOf i :=
    (addDecisionDefaults_quiet s i).proposals i
  have hquorum : (s.addDecisionDefaults i).hasNominationQuorum i = s.hasNominationQuorum i := rfl
  unfold ownDeclaration decidePrimary
  cases hr : s.replicas[i]? with
  | none => exact (Quiet.refl s).sameDeclarations
  | some r =>
    dsimp only
    rw [hdefaults.declarations, hproposals, hquorum]
    by_cases hdeclared : (s.primaryDeclarationsOf i).contains r.name = true
    · rw [if_pos (Or.inl hdeclared), if_pos hdeclared]
      exact hdefaults
    by_cases hproposed : (s.reElectionProposalsOf i).contains r.name = true
    · rw [if_pos (Or.inr hproposed), if_neg hdeclared, if_pos hproposed]
      exact hdefaults
    rw [if_neg (not_or.2 ⟨hdeclared, hproposed⟩), if_neg hdeclared, if_neg hproposed]
    by_cases henough : s.hasNominationQuorum i = true
    · rw [if_pos henough, if_pos henough]
      have hwinner : (s.addDecisionDefaults i).clearWinner second i = s.clearWinner second i :=
        clearWinner_addDecisionDefaults s i
      cases hclear : s.clearWinner second i with
      | none => exact hdefaults.trans (decideOnCandidates_sameDeclarations r (hwinner.trans hclear))
      | some candidate =>
        rw [decideOnCandidates_declares r (hwinner.trans hclear)]
        refine ⟨rfl, hdefaults.known, fun j => ?_⟩
        have hset : ((s.addDecisionDefaults i).sendPrimary i r candidate.1 candidate.2).primaryDeclarationsOf j =
          ((s.addDecisionDefaults i).setPrimaryDeclaration i r.name candidate).primaryDeclarationsOf j := rfl
        rw [hset, primaryDeclarationsOf_setPrimaryDeclaration_eq, primaryDeclarationsOf_setPrimaryDeclaration_eq,
          hdefaults.declarations, hdefaults.declarations]
    · rw [if_neg henough, if_neg henough]
      exact hdefaults

theorem ownDeclaration_eq_some {i : ℕ} {d : RepName × Candidate} (h : s.ownDeclaration second i = some d) :
    ∃ r, s.replicas[i]? = some r ∧ (s.primaryDeclarationsOf i).contains d.1 = false := by
  unfold ownDeclaration at h
  cases hr : s.replicas[i]? with
  | none =>
    rw [hr] at h
    cases h
  | some r =>
    rw [hr] at h
    dsimp only at h
    split_ifs at h with hdone hquorum
    obtain ⟨candidate, -, rfl⟩ := Option.map_eq_some_iff.1 h
    exact ⟨r, rfl, Bool.not_eq_true _ ▸ (not_or.1 hdone).1⟩

/-- the own declaration, when every instance is decided in time so far -/
theorem setPrimaryDeclaration_decidedInTime_iff (hs : DecidedInTime s) {i : ℕ} {r : RepName} (p : Candidate)
    (hnew : (s.primaryDeclarationsOf i).contains r = false) :
    DecidedInTime (s.setPrimaryDeclaration i r p) ↔
      ∀ replica, s.replicas[i]? = some replica → replica.primaryName = none →
        (s.primaryDeclarationsOf i).size + 1 < s.quorum := by
  have hsize : ((s.primaryDeclarationsOf i).set r p).size = (s.primaryDeclarationsOf i).size + 1 :=
    size_set_of_not_contains p hnew
  constructor
  · intro h replica hreplica hopen
    have hafter := h i replica hreplica hopen
    rwa [primaryDeclarationsOf_setPrimaryDeclaration, hsize] at hafter
  · intro h j replica hreplica hopen
    rw [primaryDeclarationsOf_setPrimaryDeclaration_eq]
    split_ifs with hji
    · subst hji
      rw [hsize]
      exact h replica hreplica hopen
    · exact hs j replica hreplica hopen

/-- **One step**, which is no view change, keeps every instance decided in time exactly if it settles nothing. -/
theorem handle_decidedInTime_iff (hs : DecidedInTime s) {e : ElectorEvent} (he : ∀ viewNo, e ≠ .viewChanged viewNo) :
    DecidedInTime (s.handle second e) ↔ SettlesNothing second s e := by
  have hwrites : Writes second (s.causeOf e) s (s.handle second e) := handle_writes s he
  by_cases hdecides : ∃ i aid rest, e = .action ∧ s.actions.actionQueue = (.decidePrimary i, aid) :: rest
  · obtain ⟨i, aid, rest, rfl, hqueue⟩ := hdecides
    have hhandle : s.handle second .action = (s.withQueue rest).decidePrimary second i := by
      unfold handle
      rw [hqueue]
      rfl
    have hsettles : SettlesNothing second s .action ↔ ∀ r, s.replicas[i]? = some r → r.primaryName = none →
        (s.ownDeclaration second i).isSome = true → (s.primaryDeclarationsOf i).size + 1 < s.quorum := by
      constructor
      · exact fun h r => h i aid rest r rfl hqueue
      · intro h i' aid' rest' r _ hqueue'
        cases hqueue.symm.trans hqueue'
        exact h r
    rw [hhandle, hsettles]
    have hsame : (s.withQueue rest).ownDeclaration second i = s.ownDeclaration second i := rfl
    have hdecision : match (s.withQueue rest).ownDeclaration second i with
      | none => SameDeclarations (s.withQueue rest) ((s.withQueue rest).decidePrimary second i)
      | some d => SameDeclarations ((s.withQueue rest).setPrimaryDeclaration i d.1 d.2)
          ((s.withQueue rest).decidePrimary second i) := decidePrimary_sameDeclarations _ i
    rw [hsame] at hdecision
    cases hown : s.ownDeclaration second i with
    | none =>
      rw [hown] at hdecision
      exact iff_of_true (hdecision.decidedInTime_iff.2 hs) fun _ _ _ h => (by cases h)
    | some d =>
      rw [hown] at hdecision
      obtain ⟨r, hr, hnew⟩ := ownDeclaration_eq_some hown
      rw [hdecision.decidedInTime_iff,
        setPrimaryDeclaration_decidedInTime_iff (s := s.withQueue rest) hs d.2 hnew]
      exact ⟨fun h r hr hopen _ => h r hr hopen, fun h r hr hopen => h r hr hopen rfl⟩
  · refine iff_of_true (hwrites.decidedInTime (fun before i hcause => hdecides ?_) hs) ?_
    · cases e with
      | action =>
        unfold causeOf at hcause
        dsimp only at hcause
        cases hqueue : s.actions.actionQueue with
        | nil =>
          rw [hqueue] at hcause
          cases hcause
        | cons a rest =>
          rw [hqueue] at hcause
          obtain ⟨action, aid⟩ := a
          cases hcause
          exact ⟨i, aid, rest, rfl, rfl⟩
      | _ => cases hcause
    · exact fun i aid rest r he' hqueue => absurd ⟨i, aid, rest, he', hqueue⟩ hdecides

/-! ## Runs -/

/-- **When the primary is chosen in time.** In every run of an elector in one view, from any state in which every
instance is decided in time, with any messages, timers and actions in any order: every instance is decided in time in
every state if and only if no step is an own declaration that completes a quorum. -/
theorem run_decidedInTime_iff (hs : DecidedInTime s) (events : List ElectorEvent)
    (hview : ∀ viewNo, ElectorEvent.viewChanged viewNo ∉ events) :
    (∀ past rest, events = past ++ rest → DecidedInTime (s.run second past)) ↔
      ∀ past e rest, events = past ++ e :: rest → SettlesNothing second (s.run second past) e := by
  have hnoView : ∀ past e rest, events = past ++ e :: rest → ∀ viewNo, e ≠ .viewChanged viewNo := by
    rintro past e rest rfl viewNo rfl
    exact hview viewNo (List.mem_append_right _ List.mem_cons_self)
  constructor
  · intro h past e rest hevents
    have hafter := h (past ++ [e]) rest (by rw [hevents, List.append_assoc]; rfl)
    rw [run_concat] at hafter
    exact (handle_decidedInTime_iff (h past (e :: rest) hevents) (hnoView past e rest hevents)).1 hafter
  · intro h past
    induction past using List.reverseRecOn with
    | nil => exact fun _ _ => hs
    | append_singleton past e ih =>
      intro rest hevents
      have hsplit : events = past ++ e :: rest := by
        rw [hevents, List.append_assoc]
        rfl
      rw [run_concat]
      exact (handle_decidedInTime_iff (ih (e :: rest) hsplit) (hnoView past e rest hsplit)).2 (h past e rest hsplit)

/-- a new view starts with every instance decided in time -/
theorem decidedInTime_viewChanged (hnamed : s.Named) {viewNo : ℕ} (hview : s.viewNo < viewNo) :
    DecidedInTime (s.viewChanged viewNo) := by
  have hnew := viewChanged_newView hnamed hview
  refine decidedInTime_iff.2 fun i n hopen => ?_
  rw [hnew.known, Option.map_eq_some_iff] at hopen
  obtain ⟨k, hk, -⟩ := hopen
  rw [hnew.declarations i (by rw [hk]; rfl)]
  exact Nat.succ_pos _

end PrimaryElector

/-! ## A declaration that comes last -/

namespace FourElectors

open PrimaryElector

/-- Alpha follows the nomination of Beta, gets all nominations and two declarations, and then decides -/
def lateDeclaration : List ElectorEvent :=
  [nominate "Beta" "Beta" 0 0, nominate "Gamma" "Beta" 0 0, nominate "Delta" "Beta" 0 0, declare "Beta" "Beta" 0 0,
    declare "Gamma" "Beta" 0 0, .action]

theorem elector_decidedInTime (name : NodeName) : DecidedInTime (elector name) := fun _ _ _ _ => Nat.succ_pos _

/-- with its own declaration Alpha has three of them, and still no primary -/
theorem lateDeclaration_not_decidedInTime :
    DecidedInTime (elector "Alpha") ∧ (∀ viewNo, ElectorEvent.viewChanged viewNo ∉ lateDeclaration) ∧
      ¬ DecidedInTime ((elector "Alpha").run 1 lateDeclaration) := by
  refine ⟨elector_decidedInTime _, fun viewNo h => ?_, fun h => ?_⟩
  · simp [lateDeclaration, nominate, declare] at h
  · exact absurd (h 0 ⟨generateName "Alpha" 0, none, 0⟩ (by decide +kernel) rfl) (by decide +kernel)

/-- until then every instance is decided in time -/
theorem lateDeclaration_decidedInTime :
    (∀ past rest, lateDeclaration.take 5 = past ++ rest → DecidedInTime ((elector "Alpha").run 1 past)) ↔
      ∀ past e rest, lateDeclaration.take 5 = past ++ e :: rest →
        SettlesNothing 1 ((elector "Alpha").run 1 past) e :=
  run_decidedInTime_iff (elector_decidedInTime _) _ fun viewNo h => by
    simp [lateDeclaration, nominate, declare] at h

end FourElectors

end Plenum
